import CasualOS.Insertions
import CasualOS.TranspilerCache

/-! Where a character of a code is in what the transpiler makes of it, and back. -/

namespace CasualOS.TranspiledCode

open TagEdit YjsText
open List (cons_append flatMap_cons length_nil)

/-! ### Locations -/

structure CodeLocation where
  lineNumber : Nat
  column : Nat
  deriving DecidableEq, Repr

/-- The characters that the loop goes over, with `line` and `column` as they are. -/
def indexFrom : JsString → Nat → Nat → Nat
  | [], _, _ => 0
  | c :: rest, line + 1, column => indexFrom rest (if c = 10 then line else line + 1) column + 1
  | c :: rest, 0, column + 1 => if c = 10 then 1 else indexFrom rest 0 column + 1
  | _ :: _, 0, 0 => 0

def calculateIndexFromLocation (code : JsString) (location : CodeLocation) : Nat :=
  indexFrom code location.lineNumber location.column

/-- `line` and `lastLineIndex` where the loop ends. -/
def lineLoop (index : Nat) : JsString → Nat → Nat × Nat → Nat × Nat
  | [], _, found => found
  | c :: rest, counter, found =>
    if counter < index then
      lineLoop index rest (counter + 1) (if c = 10 then (found.1 + 1, counter + 1) else found)
    else found

def calculateLocationFromIndex (code : JsString) (index : Nat) : CodeLocation :=
  let found := lineLoop index code 0 (0, 0)
  ⟨found.1, index - found.2⟩

/-- The id of the visible character at an index; nothing at the end. -/
def createRelativePositionFromTypeIndex : List Item → Nat → Option (Nat × Nat)
  | [], _ => none
  | t :: rest, index =>
    if index < t.shown.length then some (t.client, t.clock + index)
    else createRelativePositionFromTypeIndex rest (index - t.shown.length)

/-- The item with an id, and those to its left, the nearest first. -/
def leftFrom (id : Nat × Nat) : List Item → List Item → List Item
  | _, [] => []
  | left, t :: rest => if id ∈ t.ids then t :: left else leftFrom id (t :: left) rest

section Calculations

variable {original : JsString} (s : Editing original) (location : CodeLocation)

/-- Nothing where it throws. -/
def calculateOriginalLineLocation : Option CodeLocation :=
  (createRelativePositionFromTypeIndex s.doc.items
      (calculateIndexFromLocation (visible s.doc.items) location)).bind fun item =>
    if item.1 = 0 then some (calculateLocationFromIndex original item.2)
    else ((leftFrom item [] s.doc.items).find? fun t => t.client = 0).map fun t =>
      calculateLocationFromIndex original (t.clock + t.content.length)

def calculateFinalLineLocation : Option CodeLocation :=
  (finalPosition s.version s.doc.items (calculateIndexFromLocation original location)).map
    (calculateLocationFromIndex (visible s.doc.items))

end Calculations

/-! ### The characters of the code -/

/-- The index of the text is a character of the item `t`, behind the items before it. -/
structure At (items : List Item) (index : Nat) (before : List Item) (t : Item) (offset : Nat) : Prop where
  line : ∃ after, items = before ++ t :: after
  present : t.deleted = false
  inside : offset < t.content.length
  index_eq : index = (visible before).length + offset

/-- A character of the code, which may have been deleted, is there or to the left. -/
def HasLeft (items : List Item) (index : Nat) : Prop :=
  ∃ before t offset, At items index before t offset ∧ ∃ u ∈ t :: before, u.client = 0

/-- The characters of the code in an item, with their indexes. -/
def ownCharacters (t : Item) : List (CodeUnit × Nat) := if t.client = 0 then t.content.zipIdx t.clock else []

/-- All characters of the code are there in order, visible or deleted, and the next edits are by a client from `low`
on. -/
structure Preserved {code : JsString} (low : Nat) (s : Editing code) : Prop where
  wellFormed : YjsText.WellFormed s.doc
  own : s.doc.items.flatMap ownCharacters = code.zipIdx
  client : low ≤ s.clientID

mutual

/-- Empty expressions of JSX stand in elements and fragments only. -/
def Node.closed : Node → Bool
  | .node _ children => children.closed
  | .jsxExpressionContainer _ expression => expression.closed
  | .jsxEmptyExpression _ => false
  | _ => true

def Children.closed : Children → Bool
  | .nil => true
  | .cons _ child rest => child.closed && rest.closed

end

/-! ### Indexes and locations -/

theorem lineLoop_spec (rest : JsString) (index counter line last : Nat) (low : counter ≤ index) : ∃ lines column,
    lineLoop index rest counter (line, last) = (line + lines, if lines = 0 then last else index - column) ∧
      indexFrom rest lines column = min (index - counter) rest.length ∧ column ≤ index ∧
      (lines = 0 → column = index - counter) := by
  induction rest generalizing counter line last with
  | nil => exact ⟨0, index - counter, rfl, (Nat.min_zero _).symm, Nat.sub_le index counter, fun _ => rfl⟩
  | cons c rest ih =>
    rw [List.length_cons]
    by_cases more : counter < index
    · rw [lineLoop, if_pos more]
      by_cases ends : c = 10
      · obtain ⟨lines, column, loop, again, below, first⟩ := ih (counter + 1) (line + 1) (counter + 1) more
        refine ⟨lines + 1, column, ?_, ?_, below, fun none => absurd none (Nat.succ_ne_zero lines)⟩
        · rw [if_pos ends, loop, if_neg (Nat.succ_ne_zero lines), Nat.add_right_comm, Nat.add_assoc line]
          split
          · next none => rw [first none]; congr 1; omega
          · rfl
        · rw [indexFrom, if_pos ends, again]
          omega
      · obtain ⟨lines, column, loop, again, below, first⟩ := ih (counter + 1) line last more
        rw [if_neg ends, loop]
        cases lines with
        | zero =>
          have size := first rfl
          refine ⟨0, column + 1, rfl, ?_, by omega, fun _ => by omega⟩
          rw [indexFrom, if_neg ends, again]
          omega
        | succ lines =>
          refine ⟨lines + 1, column, rfl, ?_, below, fun none => absurd none (Nat.succ_ne_zero lines)⟩
          rw [indexFrom, if_neg ends, again]
          omega
    · rw [lineLoop, if_neg more]
      exact ⟨0, 0, rfl, by rw [indexFrom]; omega, Nat.zero_le _, fun _ => by omega⟩

/-- The location of an index leads back to it, or to the end. -/
theorem index_location (code : JsString) (index : Nat) :
    calculateIndexFromLocation code (calculateLocationFromIndex code index) = min index code.length := by
  obtain ⟨lines, column, loop, again, below, first⟩ := lineLoop_spec code index 0 0 0 (Nat.zero_le _)
  have same : calculateLocationFromIndex code index = ⟨lines, column⟩ := by
    rw [calculateLocationFromIndex, loop]
    split
    · next none => simp [none, first none]
    · simp only [Nat.zero_add, CodeLocation.mk.injEq, true_and]
      omega
  rw [same, calculateIndexFromLocation, again, Nat.sub_zero]

/-! ### Items and indexes -/

section Items

variable {items before : List Item} {index offset : Nat} {t : Item}

theorem exists_at (inside : index < (visible items).length) : ∃ before t offset, At items index before t offset := by
  induction items generalizing index with
  | nil => exact absurd inside (Nat.not_lt_zero index)
  | cons t rest ih =>
    rw [visible_cons, List.length_append] at inside
    by_cases here : index < t.shown.length
    · cases gone : t.deleted with
      | true =>
        rw [shown_deleted gone] at here
        exact absurd here (Nat.not_lt_zero index)
      | false =>
        rw [shown_present (by simp [gone])] at here
        exact ⟨[], t, index, ⟨rest, rfl⟩, gone, here, (Nat.zero_add index).symm⟩
    · obtain ⟨before, u, offset, ⟨after, line⟩, present, low, same⟩ := @ih (index - t.shown.length) (by omega)
      refine ⟨t :: before, u, offset, ⟨after, by rw [line, cons_append]⟩, present, low, ?_⟩
      rw [visible_cons, List.length_append]
      omega

theorem length_before (u : Item) (before : List Item) (offset : Nat) :
    (visible (u :: before)).length + offset = u.shown.length + ((visible before).length + offset) := by
  rw [visible_cons, List.length_append, Nat.add_assoc]

theorem relative_at (found : At items index before t offset) :
    createRelativePositionFromTypeIndex items index = some (t.client, t.clock + offset) := by
  obtain ⟨⟨after, rfl⟩, present, inside, rfl⟩ := found
  induction before with
  | nil =>
    have here : (visible []).length + offset < t.shown.length := by
      rw [shown_present (by simp [present]), visible, List.flatMap_nil, length_nil]
      omega
    rw [List.nil_append, createRelativePositionFromTypeIndex, if_pos here]
    exact congrArg (fun index => some (t.client, t.clock + index)) (Nat.zero_add offset)
  | cons u before ih =>
    rw [cons_append, createRelativePositionFromTypeIndex, length_before, if_neg (by omega), Nat.add_sub_cancel_left, ih]

theorem relative_end (behind : (visible items).length ≤ index) :
    createRelativePositionFromTypeIndex items index = none := by
  induction items generalizing index with
  | nil => rfl
  | cons t rest ih =>
    rw [visible_cons, List.length_append] at behind
    rw [createRelativePositionFromTypeIndex, if_neg (by omega), ih (by omega)]

theorem leftFrom_at (distinct : (ids items).Nodup) (found : At items index before t offset) (left : List Item) :
    leftFrom (t.client, t.clock + offset) left items = t :: (before.reverse ++ left) := by
  obtain ⟨⟨after, rfl⟩, -, inside, -⟩ := found
  have held : (t.client, t.clock + offset) ∈ t.ids :=
    List.mem_map.mpr ⟨t.clock + offset, List.mem_range'_1.mpr ⟨by omega, by omega⟩, rfl⟩
  induction before generalizing left with
  | nil => exact if_pos held
  | cons u before ih =>
    obtain ⟨_, distinctRest, apart⟩ := List.nodup_append.mp distinct
    have elsewhere : (t.client, t.clock + offset) ∉ u.ids := fun here =>
      apart _ here _ (List.mem_flatMap.mpr ⟨t, by simp, held⟩) rfl
    rw [cons_append, leftFrom, if_neg elsewhere, ih (u :: left) distinctRest, List.reverse_cons, List.append_assoc]
    rfl

/-- The visible characters of the code. -/
def ownShown (items : List Item) : JsString := items.flatMap fun t => if t.client = 0 then t.shown else []

theorem ownShown_le (filled : ∀ u ∈ before, u.content ≠ []) :
    (ownShown before).length ≤ (before.flatMap ownCharacters).length ∧
      ((before.flatMap ownCharacters).length = (ownShown before).length ↔
        ∀ u ∈ before, u.client = 0 → u.deleted = false) := by
  induction before with
  | nil => simp [ownShown]
  | cons u rest ih =>
    obtain ⟨some_content, later⟩ := List.forall_mem_cons.mp filled
    have size := List.length_pos_iff.mpr some_content
    obtain ⟨less, same⟩ := ih later
    rw [ownShown] at less same ⊢
    rw [flatMap_cons, flatMap_cons, List.length_append, List.length_append, List.forall_mem_cons, ← same, ownCharacters]
    by_cases own : u.client = 0
    · rw [if_pos own, if_pos own, List.length_zipIdx]
      cases gone : u.deleted with
      | true =>
        rw [shown_deleted gone, length_nil]
        exact ⟨by omega, fun whole => by omega, fun both => by cases both.1 own⟩
      | false =>
        rw [shown_present (by simp [gone])]
        exact ⟨by omega, fun whole => ⟨fun _ => rfl, by omega⟩, fun both => congrArg _ both.2⟩
    · rw [if_neg own, if_neg own, length_nil, length_nil, Nat.zero_add, Nat.zero_add]
      exact ⟨less, fun whole => ⟨fun first => absurd first own, whole⟩, fun both => both.2⟩

/-- An index finds the character with as many visible ones of the code before it. -/
theorem landing_at {version : VersionVector}
    (known : ∀ t ∈ items, knows version t.client t.clock = decide (t.client = 0))
    (found : At items index before t offset) (own : t.client = 0) (asked : Nat) :
    landing (cells version items) asked = index ↔ asked = (ownShown before).length + offset := by
  obtain ⟨⟨after, rfl⟩, present, inside, rfl⟩ := found
  induction before generalizing asked with
  | nil =>
    have size : (visible []).length + offset = offset := Nat.zero_add offset
    have count : (ownShown []).length + offset = offset := Nat.zero_add offset
    rw [List.nil_append, cells_cons, Item.cells, landing_item, present, known t (by simp), own, size, count]
    simp only [Bool.false_eq_true, if_false, decide_true, if_true]
    split <;> omega
  | cons u before ih =>
    have later := fun asked => ih asked fun t member => known t (List.mem_cons_of_mem _ member)
    rw [cons_append, cells_cons, Item.cells, landing_item, known u (by simp), length_before, ownShown,
      flatMap_cons, List.length_append, ← ownShown]
    cases gone : u.deleted with
    | true => simp [shown_deleted gone, later]
    | false =>
      have next := later (asked - u.content.length)
      have skip := later asked
      rw [shown_present (show ¬ u.deleted = true by simp [gone])]
      by_cases first : u.client = 0
      · simp only [first, decide_true, if_true, Bool.false_eq_true, if_false]
        split <;> omega
      · simp only [first, decide_false, Bool.false_eq_true, if_false, length_nil]
        omega

end Items

/-! ### What edits preserve -/

section Edits

variable {code : JsString} {s : Editing code} {low : Nat}

theorem ownCharacters_halves (t : Item) (n : Nat) (inside : n ≤ t.content.length) :
    ownCharacters (t.front n) ++ ownCharacters (t.back n) = ownCharacters t := by
  rw [ownCharacters, ownCharacters, ownCharacters, Item.front, Item.back]
  split
  · have halves := @List.zipIdx_append _ (t.content.take n) (t.content.drop n) t.clock
    rw [List.take_append_drop, List.length_take_of_le inside] at halves
    exact halves.symm
  · rfl

theorem preserved_start (code : JsString) : Preserved 0 (Editing.start code) where
  wellFormed := (start_woven code).wellFormed
  own := by
    cases code with
    | nil => rfl
    | cons c rest => exact List.append_nil _
  client := Nat.zero_le _

theorem preserved_next (kept : Preserved low s) : Preserved (low + 1) s.nextClient :=
  ⟨kept.wellFormed, kept.own, Nat.succ_le_succ kept.client⟩

theorem preserved_delete {index count : Nat} (kept : Preserved low s) : Preserved low (s.delete index count) where
  wellFormed := wellFormed_deleted kept.wellFormed index count
  own := by
    change ((cutAt s.doc.items index).1 ++ deleteFrom (cutAt s.doc.items index).2 count).flatMap ownCharacters = _
    rw [List.flatMap_append, flatMap_deleteFrom ownCharacters_halves (fun _ => rfl),
      flatMap_cutAt ownCharacters_halves, kept.own]
  client := kept.client

/-- What the client of the code does not insert is not of the code. -/
theorem preserved_insert {merges : Nat → Nat → Bool} {index : Nat} {text : JsString} (kept : Preserved (low + 1) s) :
    Preserved (low + 1) (s.insert merges index text) := by
  have other : s.clientID ≠ 0 := Nat.ne_of_gt (Nat.lt_of_succ_le (Nat.le_trans (Nat.le_add_left 1 low) kept.client))
  rw [Editing.insert]
  split
  · exact kept
  · next filled =>
    refine ⟨wellFormed_inserted kept.wellFormed _ _ _ (by simpa using filled), ?_, kept.client⟩
    change (s.doc.insert (merges s.clientID) s.clientID index text).items.flatMap ownCharacters = _
    rw [TextDoc.insert, List.flatMap_append, flatMap_attach]
    · rw [ownCharacters, if_neg other, List.append_nil, flatMap_cutAt ownCharacters_halves, kept.own]
    · intro t same _ _
      rw [ownCharacters, ownCharacters, ownCharacters, if_neg other, if_neg (by rwa [same]),
        if_neg (by rwa [same])]
      rfl

/-- What a step gives, if it gives anything. -/
def Yields {α : Type} (P : α → Prop) (x : Option α) : Prop := ∀ a, x = some a → P a

variable {α β : Type} {P : α → Prop} {Q : β → Prop} {x : Option α}

theorem yields_some {a : α} (holds : P a) : Yields P (some a) := fun _ same => Option.some.inj same ▸ holds

theorem yields_any : Yields (fun _ => True) x := fun _ _ => trivial

theorem yields_bind {f : α → Option β} (first : Yields P x) (rest : ∀ a, P a → Yields Q (f a)) :
    Yields Q (x.bind f) := by
  intro b ran
  obtain ⟨a, found, next⟩ := Option.bind_eq_some_iff.mp ran
  exact rest a (first a found) b next

theorem yields_map {f : α → β} (rest : ∀ a, Q (f a)) : Yields Q (x.map f) := by
  intro b ran
  obtain ⟨a, _, rfl⟩ := Option.map_eq_some_iff.mp ran
  exact rest a

theorem yields_foldlM {f : β → α → Option β} (step : ∀ b a, Q b → Yields Q (f b a)) (line : List α) {b : β}
    (holds : Q b) : Yields Q (line.foldlM f b) := by
  induction line generalizing b with
  | nil => exact yields_some holds
  | cons a rest ih =>
    rw [List.foldlM_cons]
    exact yields_bind (step b a holds) fun b holds => ih holds

theorem yields_less {x : Option (Editing code)} (more : Yields (Preserved (low + 1)) x) : Yields (Preserved low) x :=
  fun s ran => ⟨(more s ran).wellFormed, (more s ran).own, Nat.le_of_succ_le (more s ran).client⟩

variable {merges : Nat → Nat → Bool} {position right : RelativePosition} {text : JsString} {count : Nat}

theorem insertAt_yields (kept : Preserved (low + 1) s) :
    Yields (Preserved (low + 1)) (s.insertAt merges position text) := yields_map fun _ => preserved_insert kept

theorem deleteAt_yields (kept : Preserved low s) : Yields (Preserved low) (s.deleteAt position count) :=
  yields_map fun _ => preserved_delete kept

theorem deleteBetween_yields (kept : Preserved low s) : Yields (Preserved low) (s.deleteBetween position right) :=
  yields_bind yields_any fun _ _ => yields_map fun _ => preserved_delete kept

variable (t : Transpiler) (forceSync : Bool)

theorem insertEnergyCheck_yields {version : VersionVector} {startIndex endIndex : Nat} {wraps : Bool}
    (kept : Preserved (low + 1) s) :
    Yields (Preserved (low + 1)) (t.insertEnergyCheck version startIndex endIndex text wraps s) := by
  have opened : Yields (Preserved (low + 1))
      (if wraps then s.insertAt t.merges (s.before version startIndex) [123] else some s) := by
    split
    · exact insertAt_yields kept
    · exact yields_some kept
  refine yields_bind opened fun opened kept => yields_bind (insertAt_yields kept) fun checked kept => ?_
  split
  · exact insertAt_yields kept
  · exact yields_some kept

theorem removeKeyword_yields {start : Nat} (kept : Preserved low s) :
    Yields (Preserved low) (Transpiler.removeKeyword start s) := yields_less (deleteAt_yields (preserved_next kept))

theorem enter_yields {parent : Option NodeData} {data : NodeData} {children : Children} (kept : Preserved low s) :
    Yields (Preserved low) (t.enter forceSync parent data children s) := by
  have checked : ∀ statement, Yields (Preserved low) (t.insertEnergyCheckIntoStatement statement s) := by
    intro statement
    rw [Transpiler.insertEnergyCheckIntoStatement]
    generalize statement.type = type
    cases type <;> exact yields_less (insertEnergyCheck_yields t (preserved_next kept))
  rw [Transpiler.enter]
  split_ifs
  · exact yields_bind yields_any fun body _ => checked body.data
  · exact removeKeyword_yields kept
  · exact removeKeyword_yields kept
  · refine yields_bind yields_any fun parent _ => ?_
    split <;> exact removeKeyword_yields kept
  · exact removeKeyword_yields kept
  · exact yields_some kept

theorem insertElementName_yields {data : NodeData} {openingElement : OpeningElement} (kept : Preserved (low + 1) s) :
    Yields (fun named => Preserved (low + 1) named.1) (t.insertElementName data openingElement s) := by
  refine yields_bind (insertAt_yields kept) fun opened kept => ?_
  split
  · refine yields_bind (insertAt_yields kept) fun quoted kept => yields_map fun index => ?_
    exact @preserved_insert _ quoted low t.merges index [34, 44] kept
  · refine yields_map fun index => ?_
    exact @preserved_insert _ opened low t.merges index [44] kept

theorem removeTag_yields {openElement : Span} {closeElement : Option Span} {attributes : Attributes}
    (kept : Preserved low s) :
    Yields (Preserved low) (Transpiler.removeTag openElement closeElement attributes s) := by
  refine yields_less (yields_bind (yields_foldlM (fun _ _ => deleteBetween_yields) _ (preserved_next kept)) ?_)
  refine fun s kept => yields_bind (deleteAt_yields kept) fun s kept => ?_
  refine yields_bind (deleteAt_yields kept) fun s kept => ?_
  cases closeElement with
  | none => exact yields_some kept
  | some span => exact deleteBetween_yields kept

/-- The closing parenthesis and the tags of an element whose children are done. -/
theorem finish_yields {stop : RelativePosition} {openElement : Span} {closeElement : Option Span}
    {attributes : Attributes} (kept : Preserved (low + 1) s) :
    Yields (Preserved (low + 1)) ((s.absolute stop).bind fun index =>
      Transpiler.removeTag openElement closeElement attributes (s.nextClient.insert t.merges index [41])) :=
  yields_bind yields_any fun _ _ => removeTag_yields (preserved_insert
    ⟨kept.wellFormed, kept.own, Nat.le_succ_of_le kept.client⟩)

mutual

/-- An empty expression is the only edit that may not be of a new client. -/
theorem replace_yields (node : Node) {parent : Option NodeData} {low : Nat} {s : Editing code}
    (kept : Preserved low s) (closed : 0 < low ∨ node.closed = true) :
    Yields (Preserved low) (t.replace forceSync parent node s) := by
  rw [Transpiler.replace.eq_def]
  cases node with
  | node data children =>
    exact yields_bind (enter_yields t forceSync kept) fun s kept =>
      yields_foldlM (fun _ _ kept => replaceField_yields children kept closed) _ kept
  | jsxElement data openingElement closingElement attributes children =>
    refine yields_less (yields_bind (insertElementName_yields t (preserved_next kept)) ?_)
    rintro ⟨named, currentIndex⟩ kept
    refine yields_bind ?_ fun s kept =>
      yields_bind (replaceJSXChildren_yields children kept) fun s kept => finish_yields t kept
    split
    · exact yields_some (preserved_insert kept)
    · exact yields_bind (replaceAttributes_yields attributes kept) fun s kept =>
        yields_bind (insertAt_yields kept) fun s kept => insertAt_yields kept
  | jsxFragment data openingFragment closingFragment children =>
    have named : Yields (fun named => Preserved (low + 1) named.1) (t.insertFragmentName data s.nextClient) :=
      yields_map fun _ => preserved_insert (preserved_insert (preserved_next kept))
    refine yields_less (yields_bind named ?_)
    rintro ⟨named, currentIndex⟩ kept
    exact yields_bind (replaceJSXChildren_yields children (preserved_insert kept)) fun s kept => finish_yields t kept
  | jsxText data =>
    exact yields_less (yields_bind (insertAt_yields (preserved_next kept)) fun s kept => insertAt_yields kept)
  | jsxExpressionContainer data expression =>
    refine yields_bind ?_ fun s kept => replace_yields expression kept closed
    exact yields_bind (deleteAt_yields kept) fun s kept => deleteAt_yields kept
  | jsxEmptyExpression data =>
    obtain ⟨client, rfl⟩ := Nat.exists_eq_succ_of_ne_zero (Nat.ne_of_gt (closed.resolve_right Bool.false_ne_true))
    exact yields_bind yields_any fun first _ => yields_map fun last => preserved_insert (preserved_delete kept)

theorem replaceField_yields (children : Children) {parent : NodeData} {key : Field} {low : Nat} {s : Editing code}
    (kept : Preserved low s) (closed : 0 < low ∨ children.closed = true) :
    Yields (Preserved low) (t.replaceField forceSync parent key children s) := by
  cases children with
  | nil => exact yields_some kept
  | cons field child rest =>
    rw [Transpiler.replaceField]
    obtain ⟨first, later⟩ : (0 < low ∨ child.closed = true) ∧ (0 < low ∨ rest.closed = true) :=
      or_and_left.mp (closed.imp_right Bool.and_eq_true_iff.mp)
    refine yields_bind ?_ fun s kept => replaceField_yields rest kept later
    split
    · exact replace_yields child kept first
    · exact yields_some kept

theorem replaceAttributes_yields (attributes : Attributes) {first : Bool} {starts : List RelativePosition} {low : Nat}
    {s : Editing code} (kept : Preserved (low + 1) s) :
    Yields (Preserved (low + 1)) (t.replaceAttributes forceSync first attributes starts s) := by
  have named : ∀ text, Yields (Preserved (low + 1)) (starts.head?.bind fun start => s.insertAt t.merges start text) :=
    fun text => yields_bind yields_any fun start _ => insertAt_yields kept
  rw [Transpiler.replaceAttributes.eq_def]
  cases attributes with
  | nil => exact yields_some kept
  | flag span nameSpan name rest => exact yields_bind (named _) fun s kept => replaceAttributes_yields rest kept
  | valued span nameSpan name value rest =>
    refine yields_bind (named _) fun s kept => yields_bind (replace_yields value kept ?_) fun s kept => ?_
    · exact .inl (Nat.succ_pos low)
    · exact replaceAttributes_yields rest kept
  | spread span argument rest =>
    refine yields_bind (named _) fun s kept => yields_bind (replace_yields argument kept ?_) fun s kept => ?_
    · exact .inl (Nat.succ_pos low)
    · exact replaceAttributes_yields rest kept

theorem replaceJSXChildren_yields (children : Children) {version : VersionVector} {low : Nat} {s : Editing code}
    (kept : Preserved (low + 1) s) :
    Yields (Preserved (low + 1)) (t.replaceJSXChildren forceSync version children s) := by
  cases children with
  | nil => exact yields_some kept
  | cons field child rest =>
    rw [Transpiler.replaceJSXChildren]
    refine yields_bind (replace_yields child kept (.inl (Nat.succ_pos low))) fun s kept => ?_
    refine yields_bind ?_ fun s kept => replaceJSXChildren_yields rest kept
    exact insertAt_yields ⟨kept.wellFormed, kept.own, Nat.le_succ_of_le kept.client⟩

end

end Edits

/-! ### Back and forth -/

section Locations

variable {code : JsString} {s : Editing code} {before : List Item} {u : Item} {index offset : Nat}

/-- A character of the code in an item is the one of the code that its clock says. -/
theorem own_at (kept : Preserved 0 s) (found : At s.doc.items index before u offset) (own : u.client = 0) :
    u.clock = (before.flatMap ownCharacters).length ∧ u.clock + offset < code.length ∧
      code[u.clock + offset]? = u.content[offset]? := by
  obtain ⟨⟨after, line⟩, _, inside, _⟩ := found
  have all : before.flatMap ownCharacters ++ (u.content.zipIdx u.clock ++ after.flatMap ownCharacters) =
      code.zipIdx := by
    rw [← kept.own, line, List.flatMap_append, flatMap_cons, ownCharacters, if_pos own]
  have there : code.zipIdx[(before.flatMap ownCharacters).length + offset]? =
      some (u.content[offset], u.clock + offset) := by
    rw [← all, List.getElem?_append_right (Nat.le_add_right _ _), Nat.add_sub_cancel_left,
      List.getElem?_append_left (by rwa [List.length_zipIdx]), List.getElem?_zipIdx,
      List.getElem?_eq_getElem inside, Option.map_some]
  rw [List.getElem?_zipIdx, Nat.zero_add] at there
  obtain ⟨c, held, same⟩ := Option.map_eq_some_iff.mp there
  obtain ⟨unit, place⟩ := Prod.mk.inj same
  have clock : u.clock = (before.flatMap ownCharacters).length := by omega
  rw [← clock] at held
  exact ⟨clock, (List.getElem?_eq_some_iff.mp held).1, by rw [held, unit, List.getElem?_eq_getElem inside]⟩

theorem length_at (found : At s.doc.items index before u offset) : index < (visible s.doc.items).length := by
  obtain ⟨⟨after, line⟩, present, inside, same⟩ := found
  rw [line, visible_append, visible_cons, shown_present (by simp [present]), List.length_append, List.length_append]
  omega

theorem index_at (found : At s.doc.items index before u offset) : calculateIndexFromLocation (visible s.doc.items)
    (calculateLocationFromIndex (visible s.doc.items) index) = index := by
  rw [index_location, Nat.min_eq_left (Nat.le_of_lt (length_at found))]

/-- The location of a character of the code is found just when none of the code is deleted before it. -/
theorem final_at (kept : Preserved 0 s) (found : At s.doc.items index before u offset) (own : u.client = 0) :
    calculateFinalLineLocation s (calculateLocationFromIndex code (u.clock + offset)) =
        some (calculateLocationFromIndex (visible s.doc.items) index) ↔
      ∀ v ∈ before, v.client = 0 → v.deleted = false := by
  obtain ⟨clock, inside, _⟩ := own_at kept found own
  obtain ⟨after, line⟩ := found.line
  obtain ⟨_, counts⟩ := @ownShown_le before fun v member => kept.wellFormed.filled v (by
    rw [line]
    exact List.mem_append_left _ member)
  have lands := landing_at (fun _ => knows_iff kept.wellFormed) found own (u.clock + offset)
  have low := length_at found
  rw [calculateFinalLineLocation, index_location, Nat.min_eq_left (Nat.le_of_lt inside),
    finalPosition_eq s.version kept.wellFormed.distinct, Option.map_some, Option.some_inj, ← counts, ← clock]
  constructor
  · intro same
    have again := congrArg (calculateIndexFromLocation (visible s.doc.items)) same
    rw [index_location, index_at found] at again
    have := lands.mp (by omega)
    omega
  · intro none
    rw [lands.mpr (by omega)]

theorem original_at (found : At s.doc.items index before u offset) (own : u.client = 0) :
    calculateOriginalLineLocation s (calculateLocationFromIndex (visible s.doc.items) index) =
      some (calculateLocationFromIndex code (u.clock + offset)) := by
  rw [calculateOriginalLineLocation, index_at found, relative_at found, Option.bind_some, if_pos own]

theorem original_some (kept : Preserved 0 s) (location : CodeLocation) :
    (calculateOriginalLineLocation s location).isSome ↔
      HasLeft s.doc.items (calculateIndexFromLocation (visible s.doc.items) location) := by
  have known : ∀ before u offset, At s.doc.items (calculateIndexFromLocation (visible s.doc.items) location)
      before u offset → ((calculateOriginalLineLocation s location).isSome ↔ ∃ v ∈ u :: before, v.client = 0) := by
    intro before u offset found
    rw [calculateOriginalLineLocation, relative_at found, Option.bind_some]
    by_cases own : u.client = 0
    · simp [own]
    · rw [if_neg own, leftFrom_at kept.wellFormed.distinct found]
      simp
  constructor
  · intro given
    by_cases inside : calculateIndexFromLocation (visible s.doc.items) location < (visible s.doc.items).length
    · obtain ⟨before, u, offset, found⟩ := exists_at inside
      exact ⟨before, u, offset, found, (known before u offset found).mp given⟩
    · rw [calculateOriginalLineLocation, relative_end (Nat.le_of_not_lt inside)] at given
      cases given
  · rintro ⟨before, u, offset, found, some_own⟩
    exact (known before u offset found).mpr some_own

/-- The location of a character leads to it and back just when none of the code is deleted before it, and each location
leads back just when a character of the code is there or to the left, which the end is not. -/
theorem locations_map_back (t : Transpiler) (forceSync : Bool) {code : JsString} {s : Editing code}
    (closed : ∀ node, t.parse (replaceMacros code) = some node → node.closed = true)
    (made : t.edited forceSync code = some (some s)) :
    (∀ location, (calculateOriginalLineLocation s location).isSome ↔
      HasLeft s.doc.items (calculateIndexFromLocation (visible s.doc.items) location)) ∧
    (¬ HasLeft s.doc.items (visible s.doc.items).length) ∧
    ∀ index before u offset, At s.doc.items index before u offset → u.client = 0 →
      code[u.clock + offset]? = u.content[offset]? ∧
      calculateOriginalLineLocation s (calculateLocationFromIndex (visible s.doc.items) index) =
        some (calculateLocationFromIndex code (u.clock + offset)) ∧
      (calculateFinalLineLocation s (calculateLocationFromIndex code (u.clock + offset)) =
          some (calculateLocationFromIndex (visible s.doc.items) index) ↔
        ∀ v ∈ before, v.client = 0 → v.deleted = false) := by
  rw [Transpiler.edited] at made
  obtain ⟨node, parsed, ran⟩ := Option.map_eq_some_iff.mp made
  have kept := replace_yields t forceSync node (preserved_start code) (.inr (closed node parsed)) s ran
  refine ⟨original_some kept, ?_, fun index before u offset found own => ?_⟩
  · rintro ⟨before, u, offset, found, _⟩
    exact absurd (length_at found) (Nat.lt_irrefl _)
  · exact ⟨(own_at kept found own).2.2, original_at found own, final_at kept found own⟩

theorem closed_arrow (node : Node) (parsed : arrowTranspiler.parse (replaceMacros arrowCode) = some node) :
    node.closed = true := by
  obtain rfl := Option.some.inj parsed
  rfl

theorem arrow_maps_back : ∃ s, arrowTranspiler.edited true arrowCode = some (some s) ∧
    ¬ HasLeft s.doc.items (visible s.doc.items).length :=
  ⟨_, rfl, (locations_map_back arrowTranspiler true closed_arrow rfl).2.1⟩

/-- The first character behind the deleted keyword is taken to the end, from which nothing leads back. -/
theorem arrow_location_lost : replaceMacros arrowCode = arrowCode ∧ ∃ s,
    arrowTranspiler.edited true arrowCode = some (some s) ∧
      visible s.doc.items = JsString.lit ['a', '=', '>', 'a'] ∧
      calculateFinalLineLocation s ⟨0, 6⟩ = some ⟨0, 4⟩ ∧ calculateOriginalLineLocation s ⟨0, 4⟩ = none ∧
      calculateOriginalLineLocation s ⟨0, 0⟩ = some ⟨0, 6⟩ :=
  ⟨by decide, _, rfl, by decide, by decide, by decide, by decide⟩

theorem ownShown_sublist (items : List Item) :
    (ownShown items).Sublist ((items.flatMap ownCharacters).map Prod.fst) := by
  induction items with
  | nil => exact .slnil
  | cons t rest ih =>
    rw [ownShown, flatMap_cons, flatMap_cons, List.map_append, ← ownShown]
    refine List.Sublist.append ?_ ih
    rw [ownCharacters]
    split
    · rw [List.zipIdx_map_fst, Item.shown]
      split
      · exact List.nil_sublist _
      · exact List.Sublist.refl _
    · exact .slnil

end Locations

end CasualOS.TranspiledCode
