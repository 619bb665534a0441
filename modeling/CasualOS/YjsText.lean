import Mathlib.Data.List.Nodup
import Mathlib.Logic.Function.Basic
import CasualOS.TagEdit

/-! Local edits of a shared text, which is a list of items. -/

namespace CasualOS.YjsText

open TagEdit
open List (append_assoc cons_append flatMap_cons forall_mem_cons length_cons map_cons mem_cons_self)

/-! ### Texts -/

structure Item where
  client : Nat
  clock : Nat
  content : JsString
  deleted : Bool
  deriving DecidableEq, Repr

namespace Item

def shown (t : Item) : JsString := if t.deleted then [] else t.content

/-- The two halves of an item that is split after `n` characters. -/
def front (t : Item) (n : Nat) : Item := { t with content := t.content.take n }

def back (t : Item) (n : Nat) : Item := { t with clock := t.clock + n, content := t.content.drop n }

/-- The other item goes on where this one ends. -/
def continues (t other : Item) : Bool :=
  t.client = other.client ∧ t.clock + t.content.length = other.clock ∧ t.deleted = false

end Item

def visible (items : List Item) : JsString := items.flatMap Item.shown

/-- `clocks` is what `getClock` gives for the clients of the document, of which the text is a part. -/
structure TextDoc where
  items : List Item
  clocks : Nat → Option Nat

def cutAt : List Item → Nat → List Item × List Item
  | [], _ => ([], [])
  | t :: rest, index =>
    if t.deleted then (t :: (cutAt rest index).1, (cutAt rest index).2)
    else if index = 0 then ([], t :: rest)
    else if t.content.length ≤ index then
      (t :: (cutAt rest (index - t.content.length)).1, (cutAt rest (index - t.content.length)).2)
    else ([t.front index], t.back index :: rest)

/-- A new item is merged with its left neighbour where it may be and `merges` says so. -/
def attach (merges : Nat → Bool) (left : List Item) (new : Item) : List Item :=
  match left.getLast? with
  | none => [new]
  | some t =>
    if t.continues new && merges new.clock then
      left.dropLast ++ [{ t with content := t.content ++ new.content }]
    else left ++ [new]

def deleteFrom : List Item → Nat → List Item
  | [], _ => []
  | t :: rest, count =>
    if count = 0 then t :: rest
    else if t.deleted then t :: deleteFrom rest count
    else if t.content.length ≤ count then
      { t with deleted := true } :: deleteFrom rest (count - t.content.length)
    else { t.front count with deleted := true } :: t.back count :: rest

namespace TextDoc

/-- `text.insert`, by the client `me`. -/
def insert (merges : Nat → Bool) (me : Nat) (d : TextDoc) (index : Nat) (text : JsString) : TextDoc :=
  let clock := (d.clocks me).getD 0
  { items := attach merges (cutAt d.items index).1 ⟨me, clock, text, false⟩ ++ (cutAt d.items index).2
    clocks := Function.update d.clocks me (some (clock + text.length)) }

/-- `text.delete`. -/
def delete (d : TextDoc) (index count : Nat) : TextDoc :=
  { d with items := (cutAt d.items index).1 ++ deleteFrom (cutAt d.items index).2 count }

end TextDoc

/-! ### Positions -/

abbrev VersionVector := Nat → Option Nat

/-- The version has the item, as the code asks for it: its first character may be the next one. -/
def knows (version : VersionVector) (client clock : Nat) : Bool :=
  match version client with
  | some clientVersion => clock ≤ clientVersion
  | none => false

/-- The id of the character at an index; nothing at the end. -/
def createRelativePositionFromStateVector (version : VersionVector) : List Item → Nat → Option (Nat × Nat)
  | [], _ => none
  | t :: rest, index =>
    if knows version t.client t.clock ∧ t.deleted = false then
      if index < t.content.length then some (t.client, t.clock + index)
      else createRelativePositionFromStateVector version rest (index - t.content.length)
    else createRelativePositionFromStateVector version rest index

/-- The visible characters before the one with the id; nothing where no item has it. -/
def indexOfId : List Item → Nat × Nat → Option Nat
  | [], _ => none
  | t :: rest, id =>
    if t.client = id.1 ∧ t.clock ≤ id.2 ∧ id.2 < t.clock + t.content.length then
      some (if t.deleted then 0 else id.2 - t.clock)
    else (indexOfId rest id).map (fun index => t.shown.length + index)

def createAbsolutePositionFromRelativePosition (items : List Item) : Option (Nat × Nat) → Option Nat
  | none => some (visible items).length
  | some id => indexOfId items id

def finalPosition (version : VersionVector) (items : List Item) (index : Nat) : Option Nat :=
  createAbsolutePositionFromRelativePosition items
    (createRelativePositionFromStateVector version items index)

/-! ### Edits -/

section Edits

variable (merges : Nat → Bool) (me : Nat)

/-- Nothing where a position is missing. -/
def editOp (version : VersionVector) : TextDoc × Nat → TagEditOp → Option (TextDoc × Nat)
  | (d, index), .preserve count => some (d, index + count)
  | (d, index), .insert text =>
    if text.length ≤ 0 then some (d, index)
    else (finalPosition version d.items index).map
      (fun position => (d.insert merges me position text, index + text.length))
  | (d, index), .delete count =>
    if count ≤ 0 then some (d, index)
    else (finalPosition version d.items index).map (fun position => (d.delete position count, index))

def editOps (version : VersionVector) : TextDoc × Nat → List TagEditOp → Option (TextDoc × Nat)
  | s, [] => some s
  | s, op :: rest => (editOp merges me version s op).bind (fun s' => editOps version s' rest)

/-- The version gets the clock of the local client anew after each list of operations. -/
def editLists : VersionVector → TextDoc → List (List TagEditOp) → Option TextDoc
  | _, d, [] => some d
  | version, d, ops :: rest =>
    (editOps merges me version (d, 0) ops).bind (fun s =>
      editLists (Function.update version me (s.1.clocks me)) s.1 rest)

def updateValueInMap (editVersion : VersionVector) (d : TextDoc) (operations : List (List TagEditOp)) :
    Option TextDoc :=
  editLists merges me (Function.update editVersion me (d.clocks me)) d operations

end Edits

/-! ### Characters -/

/-- A character of an item, with what is known of the item. -/
structure Cell where
  client : Nat
  clock : Nat
  unit : CodeUnit
  deleted : Bool
  known : Bool
  deriving DecidableEq

def itemCells (known deleted : Bool) (client : Nat) : Nat → JsString → List Cell
  | _, [] => []
  | clock, c :: rest => ⟨client, clock, c, deleted, known⟩ :: itemCells known deleted client (clock + 1) rest

def Item.cells (version : VersionVector) (t : Item) : List Cell :=
  itemCells (knows version t.client t.clock) t.deleted t.client t.clock t.content

def cells (version : VersionVector) (items : List Item) : List Cell := items.flatMap (Item.cells version)

/-- The visible ones. -/
def shown (line : List Cell) : JsString :=
  (line.filter (fun cell => !cell.deleted)).map Cell.unit

/-- How many visible ones are not known. -/
def hidden (line : List Cell) : Nat := line.countP (fun cell => !cell.deleted && !cell.known)

/-- Whether the version has the character, as it should be asked for. -/
def old (version : VersionVector) (cell : Cell) : Prop :=
  ∃ clientVersion, version cell.client = some clientVersion ∧ cell.clock < clientVersion

namespace Cell

def id (cell : Cell) : Nat × Nat := (cell.client, cell.clock)

end Cell

def Item.ids (t : Item) : List (Nat × Nat) :=
  (List.range' t.clock t.content.length).map (fun clock => (t.client, clock))

def ids (items : List Item) : List (Nat × Nat) := items.flatMap Item.ids

def cutCells : List Cell → Nat → List Cell × List Cell
  | [], _ => ([], [])
  | cell :: rest, index =>
    if cell.deleted then (cell :: (cutCells rest index).1, (cutCells rest index).2)
    else if index = 0 then ([], cell :: rest)
    else (cell :: (cutCells rest (index - 1)).1, (cutCells rest (index - 1)).2)

def deleteCells : List Cell → Nat → List Cell
  | [], _ => []
  | cell :: rest, count =>
    if count = 0 then cell :: rest
    else if cell.deleted then cell :: deleteCells rest count
    else { cell with deleted := true } :: deleteCells rest (count - 1)

/-- The visible characters before the one that an index finds among those that are known. -/
def landing : List Cell → Nat → Nat
  | [], _ => 0
  | cell :: rest, index =>
    if cell.deleted then landing rest index
    else if cell.known then if index = 0 then 0 else landing rest (index - 1) + 1
    else landing rest index + 1

def newKnown (merges : Nat → Bool) (version : VersionVector) (me clock : Nat) (left : List Cell) : Bool :=
  match left.getLast? with
  | none => knows version me clock
  | some cell =>
    if cell.client = me ∧ cell.clock + 1 = clock ∧ cell.deleted = false ∧ merges clock = true then
      cell.known
    else knows version me clock

/-! ### What is visible of a change -/

section Visible

theorem visible_cons (t : Item) (rest : List Item) : visible (t :: rest) = t.shown ++ visible rest :=
  flatMap_cons

theorem visible_append (left right : List Item) : visible (left ++ right) = visible left ++ visible right :=
  List.flatMap_append

theorem visible_single (t : Item) : visible [t] = t.shown := by
  rw [visible_cons]
  exact List.append_nil _

theorem shown_deleted {t : Item} (gone : t.deleted = true) : t.shown = [] := by
  rw [Item.shown, if_pos gone]

theorem shown_present {t : Item} (present : ¬ t.deleted = true) : t.shown = t.content := by
  rw [Item.shown, if_neg present]

theorem visible_cutAt (items : List Item) (index : Nat) : visible (cutAt items index).1 = (visible items).take index ∧
      visible (cutAt items index).2 = (visible items).drop index := by
  induction items generalizing index with
  | nil => simp [cutAt, visible]
  | cons t rest ih =>
    rw [cutAt, visible_cons]
    by_cases gone : t.deleted = true
    · rw [if_pos gone, visible_cons, shown_deleted gone]
      exact ih index
    · rw [if_neg gone, shown_present gone]
      by_cases first : index = 0
      · rw [if_pos first, visible_cons, shown_present gone, first]
        exact ⟨rfl, rfl⟩
      · rw [if_neg first]
        by_cases whole : t.content.length ≤ index
        · have ⟨left, right⟩ := ih (index - t.content.length)
          rw [if_pos whole, visible_cons, shown_present gone, left, right, List.take_append,
            List.drop_append, List.take_of_length_le whole, List.drop_of_length_le whole, List.nil_append]
          exact ⟨rfl, rfl⟩
        · have inside : index ≤ t.content.length := by omega
          have front : (t.front index).shown = t.content.take index := shown_present gone
          have back : (t.back index).shown = t.content.drop index := shown_present gone
          rw [if_neg whole, List.take_append_of_le_length inside, List.drop_append_of_le_length inside, ← front, ← back]
          exact ⟨visible_single _, visible_cons _ _⟩

theorem visible_deleteFrom (items : List Item) (count : Nat) :
    visible (deleteFrom items count) = (visible items).drop count := by
  induction items generalizing count with
  | nil => simp [deleteFrom, visible]
  | cons t rest ih =>
    rw [deleteFrom]
    by_cases none : count = 0
    · rw [if_pos none, none, List.drop_zero]
    · rw [if_neg none]
      by_cases gone : t.deleted = true
      · rw [if_pos gone, visible_cons, visible_cons, shown_deleted gone, ih]
        rfl
      · rw [if_neg gone]
        have before : visible (t :: rest) = t.content ++ visible rest := by
          rw [visible_cons, shown_present gone]
        by_cases whole : t.content.length ≤ count
        · rw [if_pos whole, before, visible_cons, ih, List.drop_append, List.drop_of_length_le whole]
          rfl
        · have back : (t.back count).shown = t.content.drop count := shown_present gone
          have inside : count ≤ t.content.length := by omega
          rw [if_neg whole, before, visible_cons, visible_cons, back, List.drop_append_of_le_length inside]
          rfl

theorem attach_concat (merges : Nat → Bool) (init : List Item) (t new : Item) : attach merges (init ++ [t]) new =
      if t.continues new && merges new.clock then
        init ++ [{ t with content := t.content ++ new.content }]
      else init ++ [t] ++ [new] := by
  rw [attach, List.getLast?_concat, List.dropLast_concat]

/-! What the items make up, of whatever kind it is. -/

variable {β : Type} {f : Item → List β}

theorem flatMap_cutAt (halves : ∀ t n, n ≤ t.content.length → f (t.front n) ++ f (t.back n) = f t)
    (items : List Item) (index : Nat) :
    (cutAt items index).1.flatMap f ++ (cutAt items index).2.flatMap f = items.flatMap f := by
  induction items generalizing index with
  | nil => rfl
  | cons t rest ih =>
    rw [cutAt]
    split
    · rw [flatMap_cons, append_assoc, ih, flatMap_cons]
    · split
      · rfl
      · split
        · rw [flatMap_cons, append_assoc, ih, flatMap_cons]
        · next inside =>
          rw [List.flatMap_singleton, flatMap_cons, ← append_assoc, halves t index (by omega), flatMap_cons]

theorem flatMap_deleteFrom (halves : ∀ t n, n ≤ t.content.length → f (t.front n) ++ f (t.back n) = f t)
    (blind : ∀ t : Item, f { t with deleted := true } = f t) (items : List Item) (count : Nat) :
    (deleteFrom items count).flatMap f = items.flatMap f := by
  induction items generalizing count with
  | nil => rfl
  | cons t rest ih =>
    rw [deleteFrom]
    split
    · rfl
    · split
      · rw [flatMap_cons, ih, flatMap_cons]
      · split
        · rw [flatMap_cons, ih, blind, flatMap_cons]
        · next inside =>
          rw [flatMap_cons, flatMap_cons, blind, ← append_assoc, halves t count (by omega), flatMap_cons]

theorem flatMap_attach (merges : Nat → Bool) (left : List Item) (new : Item)
    (joins : ∀ t : Item, t.client = new.client → t.clock + t.content.length = new.clock → t.deleted = false →
      f { t with content := t.content ++ new.content } = f t ++ f new) :
    (attach merges left new).flatMap f = left.flatMap f ++ f new := by
  rcases List.eq_nil_or_concat left with rfl | ⟨init, t, rfl⟩
  · exact List.flatMap_singleton f new
  · rw [List.concat_eq_append, attach_concat]
    by_cases joined : (t.continues new && merges new.clock) = true
    · obtain ⟨client, ends, present⟩ : t.client = new.client ∧ t.clock + t.content.length = new.clock ∧
          t.deleted = false := of_decide_eq_true (Bool.and_eq_true_iff.mp joined).1
      simp only [if_pos joined, List.flatMap_append, List.flatMap_singleton, joins t client ends present, append_assoc]
    · simp only [if_neg joined, List.flatMap_append, List.flatMap_singleton]

theorem visible_attach (merges : Nat → Bool) (left : List Item) (new : Item) (present : new.deleted = false) :
    visible (attach merges left new) = visible left ++ new.content := by
  have last : new.shown = new.content := shown_present (by simp [present])
  have all := @flatMap_attach _ Item.shown merges left new fun t _ _ same => by
    simp only [Item.shown, same, present, Bool.false_eq_true, if_false]
  rwa [last] at all

theorem visible_insert (merges : Nat → Bool) (me : Nat) (d : TextDoc) (index : Nat) (text : JsString) :
    visible (d.insert merges me index text).items = splice (visible d.items) index 0 text := by
  have ⟨left, right⟩ := visible_cutAt d.items index
  rw [TextDoc.insert, visible_append, visible_attach _ _ _ rfl, left, right, splice, Nat.add_zero]

theorem visible_delete (d : TextDoc) (index count : Nat) :
    visible (d.delete index count).items = splice (visible d.items) index count [] := by
  have ⟨left, right⟩ := visible_cutAt d.items index
  rw [TextDoc.delete, visible_append, visible_deleteFrom, left, right, splice, List.drop_drop, List.append_nil]

end Visible

/-! ### The characters of a change -/

section Cells

variable (version : VersionVector)

theorem cells_cons (t : Item) (rest : List Item) :
    cells version (t :: rest) = t.cells version ++ cells version rest := flatMap_cons

theorem cells_append (left right : List Item) :
    cells version (left ++ right) = cells version left ++ cells version right := List.flatMap_append

theorem cells_single (t : Item) : cells version [t] = t.cells version := by
  rw [cells_cons]
  exact List.append_nil _

section ItemCells

variable (known deleted : Bool) (client clock : Nat) (first second : JsString)

theorem itemCells_append : itemCells known deleted client clock (first ++ second) =
    itemCells known deleted client clock first ++
      itemCells known deleted client (clock + first.length) second := by
  induction first generalizing clock with
  | nil => rfl
  | cons c rest ih =>
    rw [cons_append, itemCells, ih, itemCells, cons_append, length_cons]
    congr 3
    omega

@[simp] theorem length_itemCells : (itemCells known deleted client clock first).length = first.length := by
  induction first generalizing clock with
  | nil => rfl
  | cons c rest ih => rw [itemCells, length_cons, ih, length_cons]

theorem id_itemCells : (itemCells known deleted client clock first).map Cell.id =
    (List.range' clock first.length).map (fun clock => (client, clock)) := by
  induction first generalizing clock with
  | nil => rfl
  | cons c rest ih =>
    rw [itemCells, map_cons, ih, length_cons, List.range'_succ, map_cons]
    rfl

theorem mem_itemCells {cell : Cell} (member : cell ∈ itemCells known deleted client clock first) :
    cell.client = client ∧ clock ≤ cell.clock ∧ cell.clock < clock + first.length ∧
      cell.deleted = deleted ∧ cell.known = known := by
  induction first generalizing clock with
  | nil => cases member
  | cons c rest ih =>
    rw [itemCells] at member
    rw [length_cons]
    rcases List.mem_cons.mp member with rfl | later
    · exact ⟨rfl, Nat.le_refl _, by simp, rfl, rfl⟩
    · have ⟨same, low, high, flags⟩ := ih (clock + 1) later
      exact ⟨same, by omega, by omega, flags⟩

theorem shown_itemCells : shown (itemCells known deleted client clock first) =
    if deleted then [] else first := by
  induction first generalizing clock with
  | nil => cases deleted <;> rfl
  | cons c rest ih =>
    have later := ih (clock + 1)
    cases deleted with
    | true => exact later
    | false => exact congrArg (c :: ·) later

end ItemCells

theorem shown_append (left right : List Cell) : shown (left ++ right) = shown left ++ shown right := by
  rw [shown, List.filter_append, List.map_append]
  rfl

theorem shown_cells (items : List Item) : shown (cells version items) = visible items := by
  induction items with
  | nil => rfl
  | cons t rest ih =>
    rw [cells_cons, shown_append, ih, visible_cons, Item.cells, shown_itemCells]
    rfl

theorem id_cells (items : List Item) : (cells version items).map Cell.id = ids items := by
  rw [cells, List.map_flatMap, ids]
  congr 1
  funext t
  exact id_itemCells _ _ _ _ _

variable {items : List Item} {t : Item} {n : Nat}

theorem known_of_old {cell : Cell} (member : cell ∈ cells version items)
    (has : old version cell) : cell.known = true := by
  obtain ⟨t, _, inside⟩ := List.mem_flatMap.mp member
  obtain ⟨same, low, _, _, known⟩ := mem_itemCells _ _ _ _ _ inside
  obtain ⟨clientVersion, found, less⟩ := has
  rw [same] at found
  rw [known, knows, found]
  exact decide_eq_true (by omega)

/-! ### Where an index lands -/

theorem landing_item (known deleted : Bool) (client clock : Nat) (content : JsString) (rest : List Cell)
    (index : Nat) : landing (itemCells known deleted client clock content ++ rest) index =
      if deleted then landing rest index
      else if known then
        if index < content.length then index else content.length + landing rest (index - content.length)
      else content.length + landing rest index := by
  induction content generalizing clock index with
  | nil => cases deleted <;> cases known <;> simp [itemCells]
  | cons c more ih =>
    rw [itemCells, cons_append, landing, length_cons]
    cases deleted with
    | true => exact ih (clock + 1) index
    | false =>
      cases known with
      | false =>
        have later := ih (clock + 1) index
        simp only [Bool.false_eq_true, if_false] at later ⊢
        omega
      | true =>
        cases index with
        | zero => simp
        | succ index =>
          have later := ih (clock + 1) index
          simp only [Bool.false_eq_true, if_false, if_true] at later ⊢
          rw [if_neg (by omega), Nat.add_sub_cancel, later, Nat.add_sub_add_right]
          split
          · rw [if_pos (by omega)]
          · rw [if_neg (by omega)]
            omega

theorem mem_ids_of_relative {index : Nat} {id : Nat × Nat}
    (found : createRelativePositionFromStateVector version items index = some id) : id ∈ ids items := by
  induction items generalizing index with
  | nil => cases found
  | cons t rest ih =>
    rw [createRelativePositionFromStateVector] at found
    refine List.mem_append.mpr ?_
    split at found
    · split at found
      · rename_i inside
        refine .inl (List.mem_map.mpr ⟨t.clock + index, ?_, Option.some.inj found⟩)
        exact List.mem_range'_1.mpr ⟨by omega, by omega⟩
      · exact .inr (ih found)
    · exact .inr (ih found)

theorem finalPosition_eq (distinct : (ids items).Nodup) (index : Nat) :
    finalPosition version items index = some (landing (cells version items) index) := by
  induction items generalizing index with
  | nil => rfl
  | cons t rest ih =>
    have ⟨_, distinctRest, apart⟩ := List.nodup_append.mp distinct
    have later := ih distinctRest
    rw [finalPosition, createRelativePositionFromStateVector, cells_cons, Item.cells, landing_item]
    -- What is found further on has the same id there, behind the visible characters of this item.
    have behind : ∀ index', createAbsolutePositionFromRelativePosition (t :: rest)
          (createRelativePositionFromStateVector version rest index') =
        some (t.shown.length + landing (cells version rest) index') := by
      intro index'
      have place := later index'
      rw [finalPosition] at place
      cases found : createRelativePositionFromStateVector version rest index' with
      | none =>
        rw [found] at place
        have size := Option.some.inj place
        rw [createAbsolutePositionFromRelativePosition, visible_cons, List.length_append, size]
      | some id =>
        rw [found] at place
        have elsewhere : ¬ (t.client = id.1 ∧ t.clock ≤ id.2 ∧ id.2 < t.clock + t.content.length) := by
          rintro ⟨same, low, high⟩
          refine apart id ?_ id (mem_ids_of_relative version found) rfl
          refine List.mem_map.mpr ⟨id.2, List.mem_range'_1.mpr ⟨low, high⟩, ?_⟩
          rw [same]
        rw [createAbsolutePositionFromRelativePosition] at place ⊢
        rw [indexOfId, if_neg elsewhere, place]
        rfl
    by_cases gone : t.deleted = true
    · rw [if_neg (by simp [gone]), if_pos gone, behind, shown_deleted gone]
      simp
    · rw [if_neg gone]
      by_cases known : knows version t.client t.clock = true
      · rw [if_pos ⟨known, by simpa using gone⟩, if_pos known]
        by_cases inside : index < t.content.length
        · rw [if_pos inside, if_pos inside, createAbsolutePositionFromRelativePosition, indexOfId,
            if_pos ⟨rfl, by simp, by simpa using inside⟩, if_neg gone]
          simp
        · rw [if_neg inside, if_neg inside, behind, shown_present gone]
      · rw [if_neg (fun both => known both.1), if_neg known, behind, shown_present gone]

theorem landing_append (left right : List Cell) (more : Nat) : landing (left ++ right) ((shown left).length + more) =
      (shown left).length + landing right (more + hidden left) := by
  induction left generalizing more with
  | nil => simp [shown, hidden]
  | cons cell rest ih =>
    rw [cons_append, landing]
    cases gone : cell.deleted with
    | true =>
      have size : (shown (cell :: rest)).length = (shown rest).length := by simp [shown, gone]
      have count : hidden (cell :: rest) = hidden rest := by simp [hidden, gone]
      rw [if_pos rfl, size, count, ih]
    | false =>
      have size : (shown (cell :: rest)).length = (shown rest).length + 1 := by simp [shown, gone]
      rw [if_neg (by simp), size]
      cases known : cell.known with
      | true =>
        have count : hidden (cell :: rest) = hidden rest := by simp [hidden, known]
        have order : (shown rest).length + 1 + more = (shown rest).length + more + 1 := by omega
        rw [if_pos rfl, order, count, if_neg (by omega), Nat.add_sub_cancel, ih]
        omega
      | false =>
        have count : hidden (cell :: rest) = hidden rest + 1 := by simp [hidden, gone, known]
        have order : (shown rest).length + 1 + more = (shown rest).length + (more + 1) := by omega
        rw [if_neg (by simp), order, count, ih, Nat.add_right_comm more 1, ← Nat.add_assoc more]
        omega

theorem landing_known {line : List Cell} (known : ∀ cell ∈ line, cell.known = true) (index : Nat) :
    landing line index = min index (shown line).length := by
  induction line generalizing index with
  | nil => simp [landing, shown]
  | cons cell rest ih =>
    have later := ih (fun other member => known other (List.mem_cons_of_mem _ member))
    rw [landing]
    cases gone : cell.deleted with
    | true =>
      have size : (shown (cell :: rest)).length = (shown rest).length := by simp [shown, gone]
      rw [if_pos rfl, size, later]
    | false =>
      have size : (shown (cell :: rest)).length = (shown rest).length + 1 := by simp [shown, gone]
      rw [if_neg (by simp), if_pos (known cell mem_cons_self), size]
      by_cases first : index = 0
      · rw [if_pos first, first, Nat.zero_min]
      · rw [if_neg first, later]
        omega

/-! ### Cuts, deletions and new items, character by character -/

/-- The first character is visible, if there is one. -/
def Open (line : List Cell) : Prop := ∀ cell ∈ line.head?, cell.deleted = false

theorem cutCells_append (left right : List Cell) (more : Nat) : cutCells (left ++ right) ((shown left).length + more) =
      (left ++ (cutCells right more).1, (cutCells right more).2) := by
  induction left with
  | nil => simp [shown]
  | cons cell rest ih =>
    rw [cons_append, cutCells]
    cases gone : cell.deleted with
    | true =>
      have size : (shown (cell :: rest)).length = (shown rest).length := by simp [shown, gone]
      rw [if_pos rfl, size, ih]
      rfl
    | false =>
      have size : (shown (cell :: rest)).length = (shown rest).length + 1 := by simp [shown, gone]
      have order : (shown rest).length + 1 + more - 1 = (shown rest).length + more := by omega
      rw [if_neg (by simp), size, if_neg (by omega), order, ih]
      rfl

theorem cutCells_zero {line : List Cell} (shows : Open line) : cutCells line 0 = ([], line) := by
  cases line with
  | nil => rfl
  | cons cell rest =>
    have present := shows cell rfl
    rw [cutCells, if_neg (by simp [present]), if_pos rfl]

/-- Where a line is cut: the index counts what is visible before it. -/
theorem cutCells_eq {left right : List Cell} (shows : Open right) :
    cutCells (left ++ right) (shown left).length = (left, right) := by
  have cut := cutCells_append left right 0
  rw [cutCells_zero shows] at cut
  simpa using cut

theorem exists_cut (line : List Cell) (index : Nat) (inside : index ≤ (shown line).length) :
    ∃ left right, line = left ++ right ∧ (shown left).length = index ∧ Open right := by
  induction line generalizing index with
  | nil => exact ⟨[], [], rfl, (Nat.le_zero.mp inside).symm, fun _ member => by cases member⟩
  | cons cell rest ih =>
    cases gone : cell.deleted with
    | true =>
      have size : (shown (cell :: rest)).length = (shown rest).length := by simp [shown, gone]
      obtain ⟨left, right, rfl, count, shows⟩ := ih index (by omega)
      exact ⟨cell :: left, right, rfl, by simpa [shown, gone] using count, shows⟩
    | false =>
      by_cases first : index = 0
      · refine ⟨[], cell :: rest, rfl, first.symm, fun other member => ?_⟩
        exact Option.some.inj member ▸ gone
      · have size : (shown (cell :: rest)).length = (shown rest).length + 1 := by simp [shown, gone]
        obtain ⟨left, right, rfl, count, shows⟩ := ih (index - 1) (by omega)
        have grown : (shown (cell :: left)).length = (shown left).length + 1 := by simp [shown, gone]
        exact ⟨cell :: left, right, rfl, by omega, shows⟩

def Filled (items : List Item) : Prop := ∀ t ∈ items, t.content ≠ []

theorem shown_cells_item (present : ¬ t.deleted = true) : shown (t.cells version) = t.content := by
  rw [Item.cells, shown_itemCells, if_neg present]

theorem open_itemCells (known : Bool) {deleted : Bool} (client clock : Nat) {content : JsString}
    (present : ¬ deleted = true) (filled : content ≠ []) (rest : List Cell) :
    Open (itemCells known deleted client clock content ++ rest) := by
  obtain ⟨c, more, rfl⟩ := List.exists_cons_of_ne_nil filled
  intro cell member
  rw [itemCells] at member
  rw [← Option.some.inj member]
  simpa using present

/-- The second half of an item is known as the whole was, if the version has its first character. -/
theorem cells_back (has : ∃ clientVersion, version t.client = some clientVersion ∧ t.clock + n < clientVersion) :
    (t.back n).cells version =
      itemCells (knows version t.client t.clock) t.deleted t.client (t.clock + n) (t.content.drop n) := by
  obtain ⟨clientVersion, found, less⟩ := has
  have whole : knows version t.client t.clock = true := by
    rw [knows, found]
    exact decide_eq_true (by omega)
  have part : knows version t.client (t.clock + n) = true := by
    rw [knows, found]
    exact decide_eq_true (by omega)
  rw [whole, ← part]
  rfl

theorem cells_halves (t : Item) (inside : n ≤ t.content.length) : t.cells version = (t.front n).cells version ++
      itemCells (knows version t.client t.clock) t.deleted t.client (t.clock + n) (t.content.drop n) := by
  have joined := itemCells_append (knows version t.client t.clock) t.deleted t.client t.clock
    (t.content.take n) (t.content.drop n)
  rw [List.take_append_drop, List.length_take_of_le inside] at joined
  exact joined

theorem old_of_drop (inside : n < t.content.length) {known : Bool}
    (has : ∀ cell ∈ itemCells known t.deleted t.client (t.clock + n) (t.content.drop n), old version cell) :
    ∃ clientVersion, version t.client = some clientVersion ∧ t.clock + n < clientVersion := by
  have filled : t.content.drop n ≠ [] := List.ne_nil_of_length_pos (by rw [List.length_drop]; omega)
  obtain ⟨c, more, same⟩ := List.exists_cons_of_ne_nil filled
  rw [same, itemCells] at has
  exact has _ mem_cons_self

theorem cells_cut (filled : Filled items) (index : Nat)
    (later : ∀ cell ∈ (cutCells (cells version items) index).2, old version cell) :
    cells version (cutAt items index).1 = (cutCells (cells version items) index).1 ∧
      cells version (cutAt items index).2 = (cutCells (cells version items) index).2 := by
  induction items generalizing index with
  | nil => exact ⟨rfl, rfl⟩
  | cons t rest ih =>
    have filledRest : Filled rest := fun other member => filled other (List.mem_cons_of_mem _ member)
    rw [cells_cons] at later ⊢
    rw [cutAt]
    by_cases gone : t.deleted = true
    · have none : shown (t.cells version) = [] := by rw [Item.cells, shown_itemCells, if_pos gone]
      have cut := cutCells_append (t.cells version) (cells version rest) index
      rw [none, List.length_nil, Nat.zero_add] at cut
      rw [cut] at later ⊢
      have ⟨one, two⟩ := ih filledRest index later
      rw [if_pos gone, cells_cons, one, two]
      exact ⟨rfl, rfl⟩
    · rw [if_neg gone]
      have own := shown_cells_item version gone
      by_cases first : index = 0
      · have shows : Open (t.cells version ++ cells version rest) :=
          open_itemCells _ _ _ gone (filled t mem_cons_self) _
        rw [if_pos first, first, cutCells_zero shows]
        exact ⟨rfl, cells_cons _ _ _⟩
      · rw [if_neg first]
        by_cases whole : t.content.length ≤ index
        · have cut := cutCells_append (t.cells version) (cells version rest) (index - t.content.length)
          rw [own, Nat.add_sub_cancel' whole] at cut
          rw [cut] at later ⊢
          have ⟨one, two⟩ := ih filledRest _ later
          rw [if_pos whole, cells_cons, one, two]
          exact ⟨rfl, rfl⟩
        · have inside : index < t.content.length := by omega
          have size : (shown ((t.front index).cells version)).length = index := by
            have front := @shown_cells_item version (t.front index) gone
            rw [front]
            exact List.length_take_of_le (by omega)
          have filledBack : t.content.drop index ≠ [] :=
            List.ne_nil_of_length_pos (by rw [List.length_drop]; omega)
          have cut := @cutCells_eq ((t.front index).cells version) _
            (open_itemCells (knows version t.client t.clock) t.client (t.clock + index) gone filledBack
              (cells version rest))
          rw [size, ← append_assoc, ← cells_halves version t (by omega)] at cut
          rw [cut] at later ⊢
          have back := cells_back version (old_of_drop version inside
            (fun cell member => later cell (List.mem_append_left _ member)))
          rw [if_neg whole, cells_single, cells_cons, back]
          exact ⟨rfl, rfl⟩

theorem cells_cutAt (filled : Filled items) {left right : List Cell}
    (line : cells version items = left ++ right) (shows : Open right)
    (has : ∀ cell ∈ right, old version cell) :
    cells version (cutAt items (shown left).length).1 = left ∧
      cells version (cutAt items (shown left).length).2 = right := by
  have cut := @cutCells_eq left right shows
  rw [← line] at cut
  have both := cells_cut version filled (shown left).length (by rw [cut]; exact has)
  rw [cut] at both
  exact both

theorem deleteCells_zero (line : List Cell) : deleteCells line 0 = line := by
  cases line with
  | nil => rfl
  | cons cell rest => rw [deleteCells, if_pos rfl]

def Cell.gone (cell : Cell) : Cell := { cell with deleted := true }

theorem deleteCells_append (left right : List Cell) (more : Nat) :
    deleteCells (left ++ right) ((shown left).length + more) =
      left.map Cell.gone ++ deleteCells right more := by
  induction left with
  | nil => simp [shown]
  | cons cell rest ih =>
    rw [cons_append, deleteCells, map_cons, cons_append, ← ih]
    cases gone : cell.deleted with
    | true =>
      have size : (shown (cell :: rest)).length = (shown rest).length := by simp [shown, gone]
      have same : cell.gone = cell := by rw [Cell.gone, ← gone]
      rw [size, same, if_pos rfl]
      by_cases none : (shown rest).length + more = 0
      · rw [if_pos none, none, deleteCells_zero]
      · rw [if_neg none]
    | false =>
      have size : (shown (cell :: rest)).length = (shown rest).length + 1 := by simp [shown, gone]
      have order : (shown rest).length + 1 + more - 1 = (shown rest).length + more := by omega
      rw [size, if_neg (by omega), if_neg (by simp), order]
      rfl

theorem gone_itemCells (known deleted : Bool) (client clock : Nat) (content : JsString) :
    (itemCells known deleted client clock content).map Cell.gone =
      itemCells known true client clock content := by
  induction content generalizing clock with
  | nil => rfl
  | cons c rest ih => rw [itemCells, map_cons, ih, itemCells, Cell.gone]

theorem cells_deleteFrom (count : Nat) (has : ∀ cell ∈ cells version items, old version cell) :
    cells version (deleteFrom items count) = deleteCells (cells version items) count := by
  induction items generalizing count with
  | nil => rfl
  | cons t rest ih =>
    rw [cells_cons] at has ⊢
    have hasRest := fun cell member => has cell (List.mem_append_right _ member)
    rw [deleteFrom]
    by_cases none : count = 0
    · rw [if_pos none, none, deleteCells_zero, cells_cons]
    · rw [if_neg none]
      by_cases gone : t.deleted = true
      · have nothing : shown (t.cells version) = [] := by rw [Item.cells, shown_itemCells, if_pos gone]
        have all := deleteCells_append (t.cells version) (cells version rest) count
        rw [nothing, List.length_nil, Nat.zero_add] at all
        rw [if_pos gone, cells_cons, ih count hasRest, all, Item.cells, gone_itemCells, gone]
      · rw [if_neg gone]
        by_cases whole : t.content.length ≤ count
        · have all := deleteCells_append (t.cells version) (cells version rest) (count - t.content.length)
          rw [shown_cells_item version gone, Nat.add_sub_cancel' whole] at all
          rw [if_pos whole, cells_cons, ih _ hasRest, all, Item.cells, Item.cells, gone_itemCells]
        · have inside : count < t.content.length := by omega
          have halves := cells_halves version t (Nat.le_of_lt inside)
          have back := cells_back version (old_of_drop version inside (fun cell member =>
            has cell (List.mem_append_left _ (halves ▸ List.mem_append_right _ member))))
          have front : (shown ((t.front count).cells version)).length = count := by
            have own := @shown_cells_item version (t.front count) gone
            rw [own]
            exact List.length_take_of_le (by omega)
          have all := deleteCells_append ((t.front count).cells version)
            ((t.back count).cells version ++ cells version rest) 0
          rw [front, Nat.add_zero, deleteCells_zero, Item.cells, gone_itemCells] at all
          rw [if_neg whole, cells_cons, cells_cons, halves, ← back, append_assoc, Item.cells]
          exact all.symm

/-! ### New items -/

theorem getLast_cells (filled : t.content ≠ []) :
    ∃ cell, (t.cells version).getLast? = some cell ∧ cell.client = t.client ∧
      cell.clock + 1 = t.clock + t.content.length ∧ cell.deleted = t.deleted ∧
      cell.known = knows version t.client t.clock := by
  rcases List.eq_nil_or_concat t.content with none | ⟨init, c, same⟩
  · exact absurd none filled
  · rw [List.concat_eq_append] at same
    refine ⟨⟨t.client, t.clock + init.length, c, t.deleted, knows version t.client t.clock⟩, ?_, rfl, ?_, rfl, rfl⟩
    · rw [Item.cells, same, itemCells_append]
      exact List.getLast?_concat
    · rw [same, List.length_append]
      exact Nat.add_assoc _ _ _

theorem cells_attach (merges : Nat → Bool) (me clock : Nat) (text : JsString) {left : List Item}
    (filled : Filled left) :
    cells version (attach merges left ⟨me, clock, text, false⟩) =
      cells version left ++
        itemCells (newKnown merges version me clock (cells version left)) false me clock text := by
  rcases List.eq_nil_or_concat left with rfl | ⟨init, t, rfl⟩
  · exact cells_single version ⟨me, clock, text, false⟩
  · rw [List.concat_eq_append] at filled ⊢
    have own := filled t (List.mem_append_right _ mem_cons_self)
    obtain ⟨cell, last, client, ends, gone, known⟩ := getLast_cells version own
    have lastOf : (cells version (init ++ [t])).getLast? = some cell := by
      rw [cells_append, cells_single, List.getLast?_append, last]
      rfl
    rw [attach_concat]
    simp only [newKnown, lastOf, client, ends, gone, known]
    by_cases joined : (t.continues ⟨me, clock, text, false⟩ && merges clock) = true
    · have ⟨goes, allowed⟩ := Bool.and_eq_true_iff.mp joined
      have parts : t.client = me ∧ t.clock + t.content.length = clock ∧ t.deleted = false :=
        of_decide_eq_true goes
      obtain ⟨rfl, rfl, present⟩ := parts
      rw [if_pos joined, if_pos ⟨rfl, rfl, present, allowed⟩, cells_append, cells_append, cells_single,
        cells_single, append_assoc, Item.cells, itemCells_append, ← present]
      rfl
    · have apart : ¬ (t.client = me ∧ t.clock + t.content.length = clock ∧ t.deleted = false ∧
          merges clock = true) := by
        rintro ⟨same, next, present, allowed⟩
        exact joined (Bool.and_eq_true_iff.mpr ⟨decide_eq_true ⟨same, next, present⟩, allowed⟩)
      rw [if_neg joined, if_neg apart, cells_append, cells_single]
      rfl

end Cells

section Filled

variable {P : Item → Prop} {items : List Item}

theorem forall_cutAt (halves : ∀ t n, 0 < n → n < t.content.length → P t → P (t.front n) ∧ P (t.back n))
    (all : ∀ t ∈ items, P t) (index : Nat) :
    (∀ t ∈ (cutAt items index).1, P t) ∧ ∀ t ∈ (cutAt items index).2, P t := by
  induction items generalizing index with
  | nil => exact ⟨all, all⟩
  | cons t rest ih =>
    have ⟨own, others⟩ := forall_mem_cons.mp all
    rw [cutAt]
    split
    · have ⟨left, right⟩ := ih others index
      exact ⟨forall_mem_cons.mpr ⟨own, left⟩, right⟩
    · split
      · exact ⟨List.forall_mem_nil _, all⟩
      · split
        · have ⟨left, right⟩ := ih others (index - t.content.length)
          exact ⟨forall_mem_cons.mpr ⟨own, left⟩, right⟩
        · have ⟨front, back⟩ := halves t index (by omega) (by omega) own
          exact ⟨List.forall_mem_singleton.mpr front, forall_mem_cons.mpr ⟨back, others⟩⟩

theorem forall_attach {left : List Item} {new : Item} (merges : Nat → Bool) (all : ∀ t ∈ left, P t) (own : P new)
    (joins : ∀ t : Item, P t → P { t with content := t.content ++ new.content }) :
    ∀ t ∈ attach merges left new, P t := by
  rcases List.eq_nil_or_concat left with rfl | ⟨init, t, rfl⟩
  · exact List.forall_mem_singleton.mpr own
  · rw [List.concat_eq_append] at all ⊢
    have ⟨front, last⟩ := List.forall_mem_append.mp all
    rw [attach_concat]
    split
    · exact List.forall_mem_append.mpr
        ⟨front, List.forall_mem_singleton.mpr (joins t (last t mem_cons_self))⟩
    · exact List.forall_mem_append.mpr ⟨all, List.forall_mem_singleton.mpr own⟩

theorem filled_halves (t : Item) (n : Nat) (some_front : 0 < n) (some_back : n < t.content.length) :
    (t.front n).content ≠ [] ∧ (t.back n).content ≠ [] := by
  constructor
  · exact List.ne_nil_of_length_pos (by rw [Item.front, List.length_take]; omega)
  · exact List.ne_nil_of_length_pos (by rw [Item.back, List.length_drop]; omega)

theorem filled_cutAt (filled : Filled items) (index : Nat) :
    Filled (cutAt items index).1 ∧ Filled (cutAt items index).2 :=
  forall_cutAt (fun t n low high _ => filled_halves t n low high) filled index

theorem filled_deleteFrom (filled : Filled items) (count : Nat) : Filled (deleteFrom items count) := by
  induction items generalizing count with
  | nil => exact filled
  | cons t rest ih =>
    have ⟨own, others⟩ := forall_mem_cons.mp filled
    rw [deleteFrom]
    split
    · exact filled
    · split
      · exact forall_mem_cons.mpr ⟨own, ih others count⟩
      · split
        · exact forall_mem_cons.mpr ⟨own, ih others _⟩
        · have ⟨front, back⟩ := filled_halves t count (by omega) (by omega)
          exact forall_mem_cons.mpr ⟨front, forall_mem_cons.mpr ⟨back, others⟩⟩

theorem filled_attach {left : List Item} {new : Item} (merges : Nat → Bool) (filled : Filled left)
    (own : new.content ≠ []) : Filled (attach merges left new) :=
  forall_attach merges filled own fun _ _ none => own (List.append_eq_nil_iff.mp none).2

end Filled

end CasualOS.YjsText
