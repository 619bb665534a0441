import CasualOS.YjsText

/-! When a local edit of a shared text does what the edit says. -/

namespace CasualOS.YjsText

open TagEdit
open List (append_assoc append_nil cons_append foldl_cons length_drop length_replicate length_take length_take_of_le
  mem_append_left mem_append_right mem_map)
open Option (getD_some)
open Function (update_of_ne update_self)
open JsString (lit)

/-! ### Conditions -/

/-- Each character has its own id, which its client has counted. -/
structure WellFormed (d : TextDoc) : Prop where
  filled : Filled d.items
  distinct : (ids d.items).Nodup
  below : ∀ id ∈ ids d.items, ∃ clock, d.clocks id.1 = some clock ∧ id.2 < clock

/-- The operations of a list stay inside a text, of which `rest` characters are still ahead. -/
def InsideOps : Nat → List TagEditOp → Prop
  | _, [] => True
  | rest, .preserve count :: ops => count ≤ rest ∧ InsideOps (rest - count) ops
  | rest, .insert _ :: ops => InsideOps rest ops
  | rest, .delete count :: ops => count ≤ rest ∧ InsideOps (rest - count) ops

def Inside : JsString → List (List TagEditOp) → Prop
  | _, [] => True
  | text, ops :: rest => InsideOps text.length ops ∧ Inside (applyOps text ops) rest

/-- What is right behind an index: nothing that the list has inserted yet, its last insert, or neither. -/
inductive Behind where
  | start
  | touching (covered : Bool)
  | apart
  deriving DecidableEq

/-- How a list of operations stands: its index, the characters ahead, those of its inserts that the
version does not cover, and the clock of the client. -/
structure Standing where
  index : Nat
  rest : Nat
  uncovered : Nat
  behind : Behind
  clock : Option Nat
  deriving DecidableEq

namespace Standing

def start (clock : Option Nat) (size : Nat) : Standing := ⟨0, size, 0, .start, clock⟩

variable (merges : Nat → Bool) (s : Standing)

/-- Whether the version covers what is inserted now: the first insert of a list, if the client had a
clock, and one that is merged into a covered insert. -/
def covers : Bool :=
  match s.behind with
  | .start => s.clock.isSome
  | .touching covered => merges (s.clock.getD 0) && covered
  | .apart => false

def pass : Behind → Behind
  | .start => .start
  | _ => .apart

def step : TagEditOp → Standing
  | .preserve count =>
    if count = 0 then s
    else { s with index := s.index + count, rest := s.rest - count, behind := pass s.behind }
  | .insert text =>
    if text.length = 0 then s
    else
      { index := s.index + text.length
        rest := s.rest
        uncovered := s.uncovered + if s.covers merges then 0 else text.length
        behind := .touching (s.covers merges)
        clock := some (s.clock.getD 0 + text.length) }
  | .delete count =>
    if count = 0 then s else { s with rest := s.rest - count, behind := pass s.behind }

/-- An operation that changes something has no uncovered insert before it, or stands at the end. -/
def Lands : TagEditOp → Prop
  | .preserve _ => True
  | .insert text => text.length = 0 ∨ s.uncovered = 0 ∨ s.rest = 0
  | .delete count => count = 0 ∨ s.uncovered = 0 ∨ s.rest = 0

instance (s : Standing) (op : TagEditOp) : Decidable (s.Lands op) :=
  match op with
  | .preserve _ => isTrue trivial
  | .insert text => inferInstanceAs (Decidable (text.length = 0 ∨ s.uncovered = 0 ∨ s.rest = 0))
  | .delete count => inferInstanceAs (Decidable (count = 0 ∨ s.uncovered = 0 ∨ s.rest = 0))

def run (ops : List TagEditOp) : Standing := ops.foldl (step merges) s

def AllLand (s : Standing) : List TagEditOp → Prop
  | [] => True
  | op :: rest => s.Lands op ∧ AllLand (s.step merges op) rest

end Standing

/-- All operations of an edit land where they say, in a text of the size by a client with the clock. -/
def Reaches (merges : Nat → Bool) : Option Nat → Nat → List (List TagEditOp) → Prop
  | _, _, [] => True
  | clock, size, ops :: rest =>
    (Standing.start clock size).AllLand merges ops ∧
      Reaches merges ((Standing.start clock size).run merges ops).clock
        (((Standing.start clock size).run merges ops).index +
          ((Standing.start clock size).run merges ops).rest) rest

def after (merges : Nat → Bool) : Option Nat → Nat → List (List TagEditOp) → Option Nat × Nat
  | clock, size, [] => (clock, size)
  | clock, size, ops :: rest =>
    after merges ((Standing.start clock size).run merges ops).clock
      (((Standing.start clock size).run merges ops).index +
        ((Standing.start clock size).run merges ops).rest) rest

theorem reaches_append (merges : Nat → Bool) (clock : Option Nat) (size : Nat) (lists more : List (List TagEditOp)) :
    Reaches merges clock size (lists ++ more) ↔ Reaches merges clock size lists ∧
      Reaches merges (after merges clock size lists).1 (after merges clock size lists).2 more := by
  induction lists generalizing clock size with
  | nil => exact (and_iff_right trivial).symm
  | cons ops rest ih =>
    rw [cons_append, Reaches, Reaches, ih, and_assoc]
    rfl

/-! ### A document in the middle of a list of operations -/

section Tracks

variable {merges : Nat → Bool} {me : Nat} {version : VersionVector} {d : TextDoc} {s : Standing}

/-- The clock has gone past what the version has of the client. -/
def Past (me : Nat) (version : VersionVector) (clock : Option Nat) : Prop :=
  ∃ now, clock = some now ∧ ∀ clientVersion, version me = some clientVersion → clientVersion < now

/-- The character goes on with what the client inserts next. -/
def GoesOn (me : Nat) (clock : Option Nat) (cell : Cell) : Prop :=
  cell.client = me ∧ clock = some (cell.clock + 1) ∧ cell.deleted = false

def Left (me : Nat) (version : VersionVector) (clock : Option Nat) (left : List Cell) : Behind → Prop
  | .start => version me = clock ∧ ∀ cell ∈ left, old version cell
  | .touching covered => Past me version clock ∧
      ∃ cell, left.getLast? = some cell ∧ GoesOn me clock cell ∧ cell.known = covered
  | .apart => Past me version clock ∧ ∀ cell, left.getLast? = some cell → ¬ GoesOn me clock cell

/-- The characters before and after the index. What is after it was there before the edit. -/
structure Parts (me : Nat) (version : VersionVector) (d : TextDoc) (s : Standing)
    (left right : List Cell) : Prop where
  wellFormed : WellFormed d
  line : cells version d.items = left ++ right
  index : (shown left).length = s.index
  shows : Open right
  has : ∀ cell ∈ right, old version cell
  rest : (shown right).length = s.rest
  uncovered : hidden left = s.uncovered
  clock : d.clocks me = s.clock
  others : ∀ client, client ≠ me → d.clocks client = version client
  behind : Left me version s.clock left s.behind

def Tracks (me : Nat) (version : VersionVector) (d : TextDoc) (s : Standing) : Prop :=
  ∃ left right, Parts me version d s left right

theorem size_of_tracks (tracks : Tracks me version d s) : (visible d.items).length = s.index + s.rest := by
  obtain ⟨left, right, parts⟩ := tracks
  rw [← shown_cells version, parts.line, shown_append, List.length_append, parts.index, parts.rest]

theorem finalPosition_of_tracks (tracks : Tracks me version d s) :
    finalPosition version d.items s.index = some (s.index + min s.uncovered s.rest) := by
  obtain ⟨left, right, parts⟩ := tracks
  have known : ∀ cell ∈ right, cell.known = true := by
    intro cell member
    have inside : cell ∈ cells version d.items := by
      rw [parts.line]
      exact mem_append_right _ member
    exact known_of_old version inside (parts.has cell member)
  have lands := landing_append left right 0
  rw [Nat.add_zero, Nat.zero_add, landing_known known, parts.index, parts.uncovered, parts.rest] at lands
  rw [finalPosition_eq version parts.wellFormed.distinct, parts.line, lands]

theorem newKnown_eq {left right : List Cell} (parts : Parts me version d s left right) :
    newKnown merges version me (s.clock.getD 0) left = s.covers merges := by
  have behind := parts.behind
  have unknown : Past me version s.clock → knows version me (s.clock.getD 0) = false := by
    rintro ⟨now, clock, less⟩
    rw [clock, getD_some, knows]
    cases found : version me with
    | none => rfl
    | some clientVersion =>
      have before := less clientVersion found
      exact decide_eq_false (by omega)
  rw [Standing.covers]
  cases was : s.behind with
  | start =>
    rw [was] at behind
    obtain ⟨same, all⟩ := behind
    have new : knows version me (s.clock.getD 0) = s.clock.isSome := by
      rw [knows, same]
      cases s.clock <;> simp
    rw [newKnown]
    cases last : left.getLast? with
    | none => exact new
    | some cell =>
      simp only
      split
      · rename_i joined
        have member := List.mem_of_getLast? last
        have had := all cell member
        obtain ⟨clientVersion, found, _⟩ := id had
        rw [joined.1, same] at found
        rw [found, known_of_old version (by rw [parts.line]; exact mem_append_left _ member) had]
        rfl
      · exact new
  | touching covered =>
    rw [was] at behind
    obtain ⟨past, cell, last, ⟨client, clock, present⟩, known⟩ := behind
    rw [newKnown, last]
    simp only [client, present, clock, getD_some, true_and, known]
    have later := unknown past
    rw [clock, getD_some] at later
    rw [later]
    cases merges (cell.clock + 1) <;> simp
  | apart =>
    rw [was] at behind
    obtain ⟨past, ends⟩ := behind
    rw [newKnown]
    cases last : left.getLast? with
    | none => exact unknown past
    | some cell =>
      simp only
      split
      · rename_i joined
        obtain ⟨now, clock, _⟩ := past
        rw [clock, getD_some] at joined
        exact absurd ⟨joined.1, by rw [clock, joined.2.1], joined.2.2.1⟩ (ends cell last)
      · exact unknown past

/-! ### One operation -/

theorem hidden_append (left right : List Cell) : hidden (left ++ right) = hidden left + hidden right :=
  List.countP_append

theorem hidden_known {line : List Cell} (known : ∀ cell ∈ line, cell.deleted = false → cell.known = true) :
    hidden line = 0 := by
  refine List.countP_eq_zero.mpr (fun cell member => ?_)
  cases gone : cell.deleted with
  | true => simp
  | false => simp [known cell member gone]

theorem left_pass {clock : Option Nat} {left ahead : List Cell} {behind : Behind}
    (was : Left me version clock left behind) (has : ∀ cell ∈ ahead, old version cell)
    (some_ahead : ahead ≠ []) : Left me version clock (left ++ ahead) (Standing.pass behind) := by
  have ends : Past me version clock → ∀ cell, (left ++ ahead).getLast? = some cell → ¬ GoesOn me clock cell := by
    rintro ⟨now, same, less⟩ cell last ⟨client, next, _⟩
    rw [List.getLast?_append_of_ne_nil _ some_ahead] at last
    obtain ⟨clientVersion, found, before⟩ := has cell (List.mem_of_getLast? last)
    rw [client] at found
    have past := less clientVersion found
    have now_next : now = cell.clock + 1 := Option.some.inj (same.symm.trans next)
    omega
  cases behind with
  | start =>
    refine ⟨was.1, fun cell member => ?_⟩
    rcases List.mem_append.mp member with inLeft | inAhead
    · exact was.2 cell inLeft
    · exact has cell inAhead
  | touching covered => exact ⟨was.1, ends was.1⟩
  | apart => exact ⟨was.1, ends was.1⟩

variable {count : Nat}

theorem ne_nil_of_shown {line : List Cell} (size : (shown line).length = count)
    (some_count : count ≠ 0) : line ≠ [] := by
  rintro rfl
  exact some_count size.symm

theorem preserve_tracks (tracks : Tracks me version d s) (some_count : count ≠ 0)
    (inside : count ≤ s.rest) : Tracks me version d (s.step merges (.preserve count)) := by
  obtain ⟨left, right, parts⟩ := tracks
  obtain ⟨ahead, right', rfl, size, shows⟩ := exists_cut right count (by rw [parts.rest]; exact inside)
  have rest := parts.rest
  rw [shown_append, List.length_append, size] at rest
  have known : ∀ cell ∈ ahead, cell.deleted = false → cell.known = true := by
    intro cell member _
    have inLine : cell ∈ cells version d.items := by
      rw [parts.line]
      exact mem_append_right _ (mem_append_left _ member)
    exact known_of_old version inLine (parts.has cell (mem_append_left _ member))
  rw [Standing.step, if_neg some_count]
  refine ⟨left ++ ahead, right', ?_⟩
  exact
    { wellFormed := parts.wellFormed
      line := by rw [parts.line, append_assoc]
      index := by rw [shown_append, List.length_append, parts.index, size]
      shows := shows
      has := fun cell member => parts.has cell (mem_append_right _ member)
      rest := (Nat.sub_eq_of_eq_add (by omega)).symm
      uncovered := by rw [hidden_append, hidden_known known, parts.uncovered, Nat.add_zero]
      clock := parts.clock
      others := parts.others
      behind := left_pass parts.behind (fun cell member => parts.has cell (mem_append_left _ member))
        (ne_nil_of_shown size some_count) }

theorem ids_halves (t : Item) {n : Nat} (inside : n ≤ t.content.length) :
    (t.front n).ids ++ (t.back n).ids = t.ids := by
  have sizes : n + (t.content.length - n) = t.content.length := Nat.add_sub_cancel' inside
  rw [Item.ids, Item.ids, Item.ids, Item.front, Item.back, length_take_of_le inside, length_drop,
    ← List.map_append, List.range'_append_1, sizes]

theorem ids_append (left right : List Item) : ids (left ++ right) = ids left ++ ids right := List.flatMap_append

theorem ids_cutAt (items : List Item) (index : Nat) :
    ids (cutAt items index).1 ++ ids (cutAt items index).2 = ids items :=
  flatMap_cutAt (fun t _ => ids_halves t) items index

theorem wellFormed_deleted (wellFormed : WellFormed d) (index count : Nat) : WellFormed (d.delete index count) := by
  have same : ids (d.delete index count).items = ids d.items := by
    have gone : ids (deleteFrom (cutAt d.items index).2 count) = ids (cutAt d.items index).2 :=
      flatMap_deleteFrom (fun t _ => ids_halves t) (fun _ => rfl) _ count
    rw [TextDoc.delete, ids_append, gone, ids_cutAt]
  obtain ⟨left, right⟩ := filled_cutAt wellFormed.filled index
  exact
    { filled := List.forall_mem_append.mpr ⟨left, filled_deleteFrom right count⟩
      distinct := by rw [same]; exact wellFormed.distinct
      below := by rw [same]; exact wellFormed.below }

theorem delete_tracks (tracks : Tracks me version d s) (some_count : count ≠ 0) (inside : count ≤ s.rest) :
    Tracks me version (d.delete s.index count) (s.step merges (.delete count)) := by
  obtain ⟨left, right, parts⟩ := tracks
  obtain ⟨ahead, right', rfl, size, shows⟩ := exists_cut right count (by rw [parts.rest]; exact inside)
  have rest := parts.rest
  rw [shown_append, List.length_append, size] at rest
  obtain ⟨cutLeft, cutRight⟩ := cells_cutAt version parts.wellFormed.filled parts.line parts.shows parts.has
  rw [parts.index] at cutLeft cutRight
  have line : cells version (d.delete s.index count).items = left ++ ahead.map Cell.gone ++ right' := by
    have gone := deleteCells_append ahead right' 0
    rw [size, Nat.add_zero, deleteCells_zero] at gone
    rw [TextDoc.delete, cells_append, cutLeft, cells_deleteFrom version count (cutRight ▸ parts.has), cutRight,
      gone, append_assoc]
  have goneAll : ∀ cell ∈ ahead.map Cell.gone, cell.deleted = true := by
    intro cell member
    obtain ⟨other, _, rfl⟩ := mem_map.mp member
    rfl
  have nothing : shown (ahead.map Cell.gone) = [] := by
    rw [shown, List.filter_eq_nil_iff.mpr (fun cell member => by simp [goneAll cell member])]
    rfl
  have hasGone : ∀ cell ∈ ahead.map Cell.gone, old version cell := by
    intro cell member
    obtain ⟨other, inside, rfl⟩ := mem_map.mp member
    exact parts.has other (mem_append_left _ inside)
  rw [Standing.step, if_neg some_count]
  refine ⟨left ++ ahead.map Cell.gone, right', ?_⟩
  exact
    { wellFormed := wellFormed_deleted parts.wellFormed s.index count
      line := line
      index := by rw [shown_append, nothing, append_nil, parts.index]
      shows := shows
      has := fun cell member => parts.has cell (mem_append_right _ member)
      rest := (Nat.sub_eq_of_eq_add (by omega)).symm
      uncovered := by
        rw [hidden_append, parts.uncovered, hidden_known (fun cell member present => ?_), Nat.add_zero]
        rw [goneAll cell member] at present
        cases present
      clock := parts.clock
      others := parts.others
      behind := left_pass parts.behind hasGone
        (fun none => ne_nil_of_shown size some_count (List.map_eq_nil_iff.mp none)) }

theorem new_ids (wellFormed : WellFormed d) (me : Nat) (size : Nat) :
    (((List.range' ((d.clocks me).getD 0) size).map (fun clock => (me, clock))) ++ ids d.items).Nodup := by
  refine List.nodup_append.mpr ⟨?_, wellFormed.distinct, ?_⟩
  · exact List.Nodup.map (fun first second same => (Prod.mk.inj same).2) List.nodup_range'
  · rintro id new other held rfl
    obtain ⟨clock, inside, rfl⟩ := mem_map.mp new
    obtain ⟨now, found, before⟩ := wellFormed.below _ held
    have low := (List.mem_range'_1.mp inside).1
    simp only at found before
    rw [found, getD_some] at low
    omega

theorem ids_attach (merges : Nat → Bool) (left : List Item) (new : Item) :
    ids (attach merges left new) = ids left ++ new.ids := by
  refine flatMap_attach merges left new fun t client ends _ => ?_
  rw [Item.ids, Item.ids, Item.ids, List.length_append, ← List.range'_append_1, List.map_append, ends, client]

theorem wellFormed_inserted (wellFormed : WellFormed d) (merges : Nat → Bool) (me index : Nat) {text : JsString}
    (filled : text ≠ []) : WellFormed (d.insert merges me index text) := by
  have perm : (ids (d.insert merges me index text).items).Perm
      (((List.range' ((d.clocks me).getD 0) text.length).map (fun clock => (me, clock))) ++ ids d.items) := by
    rw [TextDoc.insert, ids_append, ids_attach, ← ids_cutAt d.items index, append_assoc]
    exact List.perm_append_comm_assoc _ _ _
  obtain ⟨filledLeft, filledRight⟩ := filled_cutAt wellFormed.filled index
  refine
    { filled := List.forall_mem_append.mpr ⟨filled_attach merges filledLeft filled, filledRight⟩
      distinct := perm.nodup_iff.mpr (new_ids wellFormed me text.length)
      below := ?_ }
  intro id member
  rcases List.mem_append.mp (perm.mem_iff.mp member) with inside | before
  · obtain ⟨clock, range, rfl⟩ := mem_map.mp inside
    exact ⟨_, update_self _ _ _, (List.mem_range'_1.mp range).2⟩
  · obtain ⟨clock, found, less⟩ := wellFormed.below id before
    by_cases own : id.1 = me
    · refine ⟨_, by rw [own]; exact update_self _ _ _, ?_⟩
      rw [own] at found
      rw [found, getD_some]
      omega
    · exact ⟨clock, (update_of_ne own _ _).trans found, less⟩

section Insert

variable {left right : List Cell} {text : JsString}

theorem cells_insert (parts : Parts me version d s left right) (text : JsString) :
    cells version (d.insert merges me s.index text).items =
      left ++ itemCells (s.covers merges) false me (s.clock.getD 0) text ++ right := by
  have ⟨cutLeft, cutRight⟩ := cells_cutAt version parts.wellFormed.filled parts.line parts.shows parts.has
  have ⟨filledLeft, _⟩ := filled_cutAt parts.wellFormed.filled s.index
  rw [parts.index] at cutLeft cutRight
  rw [TextDoc.insert, cells_append, cells_attach version merges me _ text filledLeft, cutLeft, cutRight,
    parts.clock, newKnown_eq parts]

theorem hidden_new (known : Bool) (client clock : Nat) (text : JsString) :
    hidden (itemCells known false client clock text) = if known then 0 else text.length := by
  cases known with
  | true =>
    refine hidden_known (fun cell member _ => ?_)
    exact (mem_itemCells _ _ _ _ _ member).2.2.2.2
  | false =>
    have all : hidden (itemCells false false client clock text) = (itemCells false false client clock text).length := by
      refine List.countP_eq_length.mpr (fun cell member => ?_)
      have ⟨_, _, _, gone, known⟩ := mem_itemCells _ _ _ _ _ member
      rw [gone, known]
      rfl
    rw [all, length_itemCells]
    rfl

theorem past_insert (parts : Parts me version d s left right) (some_text : text.length ≠ 0) :
    Past me version (some (s.clock.getD 0 + text.length)) := by
  refine ⟨_, rfl, fun clientVersion found => ?_⟩
  have behind := parts.behind
  have later : Past me version s.clock → clientVersion < s.clock.getD 0 + text.length := by
    rintro ⟨now, clock, less⟩
    have before := less clientVersion found
    rw [clock, getD_some]
    omega
  cases was : s.behind with
  | start =>
    rw [was] at behind
    rw [← behind.1, found, getD_some]
    omega
  | touching covered =>
    rw [was] at behind
    exact later behind.1
  | apart =>
    rw [was] at behind
    exact later behind.1

theorem ends_insert (left : List Cell) (known : Bool) (me clock : Nat) (filled : text ≠ []) :
    ∃ cell, (left ++ itemCells known false me clock text).getLast? = some cell ∧
      GoesOn me (some (clock + text.length)) cell ∧ cell.known = known := by
  rcases List.eq_nil_or_concat text with none | ⟨init, c, same⟩
  · exact absurd none filled
  · rw [List.concat_eq_append] at same
    refine ⟨⟨me, clock + init.length, c, false, known⟩, ?_, ⟨rfl, ?_, rfl⟩, rfl⟩
    · rw [same, itemCells_append, ← append_assoc]
      exact List.getLast?_concat
    · rw [same, List.length_append]
      rfl

theorem insert_tracks (tracks : Tracks me version d s) (some_text : text.length ≠ 0) :
    Tracks me version (d.insert merges me s.index text) (s.step merges (.insert text)) := by
  obtain ⟨left, right, parts⟩ := tracks
  have filled : text ≠ [] := fun none => some_text (congrArg List.length none)
  have size : (shown (itemCells (s.covers merges) false me (s.clock.getD 0) text)).length = text.length := by
    rw [shown_itemCells]
    rfl
  rw [Standing.step, if_neg some_text]
  refine ⟨left ++ itemCells (s.covers merges) false me (s.clock.getD 0) text, right, ?_⟩
  exact
    { wellFormed := wellFormed_inserted parts.wellFormed _ _ _ filled
      line := cells_insert parts text
      index := by rw [shown_append, List.length_append, parts.index, size]
      shows := parts.shows
      has := parts.has
      rest := parts.rest
      uncovered := by rw [hidden_append, parts.uncovered, hidden_new]
      clock := (update_self _ _ _).trans (by rw [parts.clock])
      others := fun client other => (update_of_ne other _ _).trans (parts.others client other)
      behind := ⟨past_insert parts some_text, ends_insert left _ me _ filled⟩ }

end Insert

/-- An operation that lands does what it says, and the next one stands where it should. -/
theorem op_tracks (tracks : Tracks me version d s) {op : TagEditOp} {ops : List TagEditOp}
    (inside : InsideOps s.rest (op :: ops)) (lands : s.Lands op) :
    ∃ d', editOp merges me version (d, s.index) op = some (d', (s.step merges op).index) ∧
      Tracks me version d' (s.step merges op) ∧
      (visible d'.items, (s.step merges op).index) = applyOp (visible d.items, s.index) op ∧
      InsideOps (s.step merges op).rest ops := by
  have position := finalPosition_of_tracks tracks
  have here : s.uncovered = 0 ∨ s.rest = 0 → finalPosition version d.items s.index = some s.index := by
    intro either
    have none : min s.uncovered s.rest = 0 := by omega
    rw [position, none, Nat.add_zero]
  cases op with
  | preserve count =>
    by_cases some_count : count = 0
    · have same : s.step merges (.preserve count) = s := by rw [Standing.step, if_pos some_count]
      rw [same]
      refine ⟨d, ?_, tracks, ?_, by simpa [some_count] using inside.2⟩
      · rw [editOp, some_count, Nat.add_zero]
      · rw [applyOp, some_count, Nat.add_zero]
    · refine ⟨d, ?_, preserve_tracks tracks some_count inside.1, ?_, ?_⟩
      · rw [editOp, Standing.step, if_neg some_count]
      · rw [applyOp, Standing.step, if_neg some_count]
      · rw [Standing.step, if_neg some_count]
        exact inside.2
  | insert text =>
    by_cases some_text : text.length = 0
    · have same : s.step merges (.insert text) = s := by rw [Standing.step, if_pos some_text]
      rw [same]
      refine ⟨d, ?_, tracks, ?_, inside⟩
      · rw [editOp, if_pos (by omega)]
      · rw [applyOp, List.length_eq_zero_iff.mp some_text, splice]
        simp
    · refine ⟨d.insert merges me s.index text, ?_, insert_tracks tracks some_text, ?_, ?_⟩
      · rw [editOp, if_neg (by omega), here (lands.resolve_left some_text), Standing.step,
          if_neg some_text]
        rfl
      · rw [applyOp, visible_insert, Standing.step, if_neg some_text]
      · rw [Standing.step, if_neg some_text]
        exact inside
  | delete count =>
    by_cases some_count : count = 0
    · have same : s.step merges (.delete count) = s := by rw [Standing.step, if_pos some_count]
      rw [same]
      refine ⟨d, ?_, tracks, ?_, by simpa [some_count] using inside.2⟩
      · rw [editOp, if_pos (by omega)]
      · rw [applyOp, some_count, splice]
        simp
    · refine ⟨d.delete s.index count, ?_, delete_tracks tracks some_count inside.1, ?_, ?_⟩
      · rw [editOp, if_neg (by omega), here (lands.resolve_left some_count), Standing.step,
          if_neg some_count]
        rfl
      · rw [applyOp, visible_delete, Standing.step, if_neg some_count]
      · rw [Standing.step, if_neg some_count]
        exact inside.2

theorem ops_tracks {ops : List TagEditOp} (tracks : Tracks me version d s)
    (inside : InsideOps s.rest ops) (lands : s.AllLand merges ops) :
    ∃ d', editOps merges me version (d, s.index) ops = some (d', (s.run merges ops).index) ∧
      Tracks me version d' (s.run merges ops) ∧
      (visible d'.items, (s.run merges ops).index) = ops.foldl applyOp (visible d.items, s.index) := by
  induction ops generalizing d s with
  | nil => exact ⟨d, rfl, tracks, rfl⟩
  | cons op rest ih =>
    obtain ⟨d', ran, after, same, insideRest⟩ := op_tracks tracks inside lands.1
    obtain ⟨final, rest_ran, tracksFinal, all⟩ := ih after insideRest lands.2
    refine ⟨final, ?_, tracksFinal, ?_⟩
    · rw [editOps, ran]
      exact rest_ran
    · rw [foldl_cons, ← same]
      exact all

theorem start_tracks (wellFormed : WellFormed d) (me : Nat) :
    Tracks me d.clocks d (Standing.start (d.clocks me) (visible d.items).length) := by
  obtain ⟨left, right, line, none, shows⟩ := exists_cut (cells d.clocks d.items) 0 (Nat.zero_le _)
  have all : ∀ cell ∈ cells d.clocks d.items, old d.clocks cell := by
    intro cell member
    refine wellFormed.below cell.id ?_
    rw [← id_cells d.clocks]
    exact List.mem_map_of_mem member
  rw [line] at all
  have nothing : shown left = [] := List.length_eq_zero_iff.mp none
  have size : (visible d.items).length = (shown right).length := by
    rw [← shown_cells d.clocks, line, shown_append, nothing, List.nil_append]
  refine ⟨left, right, ?_⟩
  exact
    { wellFormed := wellFormed
      line := line
      index := none
      shows := shows
      has := fun cell member => all cell (mem_append_right _ member)
      rest := size.symm
      uncovered := by
        refine hidden_known (fun cell member _ => ?_)
        have inLine : cell ∈ cells d.clocks d.items := by
          rw [line]
          exact mem_append_left _ member
        exact known_of_old d.clocks inLine (all cell (mem_append_left _ member))
      clock := rfl
      others := fun _ _ => rfl
      behind := ⟨rfl, fun cell member => all cell (mem_append_left _ member)⟩ }

theorem refreshed (tracks : Tracks me version d s) :
    Function.update version me (d.clocks me) = d.clocks ∧ WellFormed d ∧ d.clocks me = s.clock := by
  obtain ⟨left, right, parts⟩ := tracks
  refine ⟨?_, parts.wellFormed, parts.clock⟩
  funext client
  by_cases own : client = me
  · rw [own, update_self]
  · rw [update_of_ne own]
    exact (parts.others client own).symm

end Tracks

theorem lists_reach (merges : Nat → Bool) (me : Nat) {d : TextDoc} {lists : List (List TagEditOp)}
    (wellFormed : WellFormed d) (inside : Inside (visible d.items) lists)
    (reaches : Reaches merges (d.clocks me) (visible d.items).length lists) :
    ∃ d', WellFormed d' ∧ visible d'.items = lists.foldl applyOps (visible d.items) ∧
      after merges (d.clocks me) (visible d.items).length lists =
        (d'.clocks me, (visible d'.items).length) ∧
      ∀ more, editLists merges me d.clocks d (lists ++ more) = editLists merges me d'.clocks d' more := by
  induction lists generalizing d with
  | nil => exact ⟨d, wellFormed, rfl, rfl, fun _ => rfl⟩
  | cons ops rest ih =>
    obtain ⟨d', ran, tracks, same⟩ := ops_tracks (start_tracks wellFormed me) inside.1 reaches.1
    have ⟨version, wellFormed', clock⟩ := refreshed tracks
    have text : visible d'.items = applyOps (visible d.items) ops := congrArg Prod.fst same
    have size := size_of_tracks tracks
    obtain ⟨final, wellFormedFinal, all, ends, rest_ran⟩ :=
      ih wellFormed' (text ▸ inside.2) (by rw [clock, size]; exact reaches.2)
    refine ⟨final, wellFormedFinal, by rw [all, text, foldl_cons], ?_, fun more => ?_⟩
    · rw [clock, size] at ends
      exact ends
    · have first : editOps merges me d.clocks (d, 0) ops = some (d', _) := ran
      rw [cons_append, editLists, first, Option.bind_some, version]
      exact rest_ran more

/-! ### Other characters -/

/-- The same operation, maybe of another text of the length. -/
inductive Alike : TagEditOp → TagEditOp → Prop where
  | preserve (count : Nat) : Alike (.preserve count) (.preserve count)
  | insert {text other : JsString} : text.length = other.length → Alike (.insert text) (.insert other)
  | delete (count : Nat) : Alike (.delete count) (.delete count)

abbrev AlikeLists : List (List TagEditOp) → List (List TagEditOp) → Prop :=
  List.Forall₂ (List.Forall₂ Alike)

structure AlikeItem (t u : Item) : Prop where
  client : t.client = u.client
  clock : t.clock = u.clock
  length : t.content.length = u.content.length
  deleted : t.deleted = u.deleted

/-- The same document but for the characters. -/
structure AlikeDoc (d e : TextDoc) : Prop where
  items : List.Forall₂ AlikeItem d.items e.items
  clocks : d.clocks = e.clocks

/-- An edit that goes as far as a part of the other one, maybe with other characters. -/
def Begins (lists whole : List (List TagEditOp)) : Prop :=
  ∃ front ops more rest, whole = front ++ (ops ++ more) :: rest ∧ AlikeLists lists (front ++ [ops])

section Alike

variable {merges : Nat → Bool}

theorem step_alike {op other : TagEditOp} (alike : Alike op other) (s : Standing) :
    s.step merges op = s.step merges other ∧ (s.Lands op ↔ s.Lands other) := by
  cases alike with
  | preserve count => exact ⟨rfl, Iff.rfl⟩
  | delete count => exact ⟨rfl, Iff.rfl⟩
  | insert same => simp only [Standing.step, Standing.Lands, same, and_self]

variable {ops others : List TagEditOp} {lists : List (List TagEditOp)} {index : Nat}

theorem allLand_alike (alike : List.Forall₂ Alike ops others) (s : Standing) : s.run merges ops = s.run merges others ∧
      (s.AllLand merges ops ↔ s.AllLand merges others) := by
  induction alike generalizing s with
  | nil => exact ⟨rfl, Iff.rfl⟩
  | @cons op other ops others first rest ih =>
    have ⟨same, lands⟩ := @step_alike merges _ _ first s
    have ⟨run, all⟩ := ih (s.step merges op)
    refine ⟨?_, ?_⟩
    · rw [Standing.run, foldl_cons, ← Standing.run, run, same]
      rfl
    · rw [Standing.AllLand, Standing.AllLand, all, same, lands]

theorem reaches_alike {others : List (List TagEditOp)} (alike : AlikeLists lists others)
    (clock : Option Nat) (size : Nat) :
    Reaches merges clock size lists ↔ Reaches merges clock size others := by
  induction alike generalizing clock size with
  | nil => rfl
  | cons first rest ih =>
    have ⟨run, all⟩ := @allLand_alike merges _ _ first (Standing.start clock size)
    rw [Reaches, Reaches, run, all, ih]

theorem after_alike {others : List (List TagEditOp)} (alike : AlikeLists lists others)
    (clock : Option Nat) (size : Nat) : after merges clock size lists = after merges clock size others := by
  induction alike generalizing clock size with
  | nil => rfl
  | cons first rest ih =>
    have ⟨run, _⟩ := @allLand_alike merges _ _ first (Standing.start clock size)
    rw [after, after, run, ih]

theorem length_splice (text : JsString) (index count : Nat) (inserted : JsString) :
    (splice text index count inserted).length =
      min index text.length + inserted.length + (text.length - (index + count)) := by
  rw [splice, List.length_append, List.length_append, length_take, length_drop]

theorem length_applyOps_alike (alike : List.Forall₂ Alike ops others)
    {text other : JsString} (same : text.length = other.length) (index : Nat) :
    (ops.foldl applyOp (text, index)).1.length = (others.foldl applyOp (other, index)).1.length := by
  induction alike generalizing text other index with
  | nil => exact same
  | cons first rest ih =>
    rw [foldl_cons, foldl_cons]
    cases first with
    | preserve count => exact ih same _
    | insert equal =>
      rw [applyOp, applyOp, equal]
      exact ih (by rw [length_splice, length_splice, same, equal]) _
    | delete count => exact ih (by rw [length_splice, length_splice, same]) _

theorem insideOps_alike (alike : List.Forall₂ Alike ops others)
    (rest : Nat) : InsideOps rest ops ↔ InsideOps rest others := by
  induction alike generalizing rest with
  | nil => rfl
  | cons first _ ih =>
    cases first with
    | preserve count => exact and_congr_right (fun _ => ih _)
    | insert same => exact ih _
    | delete count => exact and_congr_right (fun _ => ih _)

theorem inside_alike {others : List (List TagEditOp)} (alike : AlikeLists lists others)
    {text other : JsString} (same : text.length = other.length) :
    Inside text lists ↔ Inside other others := by
  induction alike generalizing text other with
  | nil => rfl
  | cons first rest ih =>
    have grown := length_applyOps_alike first same 0
    rw [Inside, Inside, same, insideOps_alike first]
    exact and_congr_right (fun _ => ih grown)

theorem items_alike {items others : List Item} (alike : List.Forall₂ AlikeItem items others) :
    ids items = ids others ∧ (visible items).length = (visible others).length ∧
      (Filled items ↔ Filled others) := by
  induction alike with
  | nil => exact ⟨rfl, rfl, Iff.rfl⟩
  | @cons t u _ _ first _ ih =>
    have ⟨sameIds, sameLength, filled⟩ := ih
    refine ⟨?_, ?_, ?_⟩
    · have own : t.ids = u.ids := by rw [Item.ids, Item.ids, first.clock, first.length, first.client]
      rw [ids, List.flatMap_cons, own, ← ids, sameIds]
      rfl
    · have own : t.shown.length = u.shown.length := by
        rw [Item.shown, Item.shown, first.deleted]
        split
        · rfl
        · exact first.length
      rw [visible_cons, visible_cons, List.length_append, List.length_append, own, sameLength]
    · have own : t.content ≠ [] ↔ u.content ≠ [] := by
        rw [← List.length_pos_iff, ← List.length_pos_iff, first.length]
      rw [Filled, Filled, List.forall_mem_cons, List.forall_mem_cons, own]
      exact and_congr_right (fun _ => filled)

theorem wellFormed_alike {d e : TextDoc} (alike : AlikeDoc d e) (wellFormed : WellFormed e) : WellFormed d where
  filled := (items_alike alike.items).2.2.mpr wellFormed.filled
  distinct := by
    rw [(items_alike alike.items).1]
    exact wellFormed.distinct
  below := by
    rw [(items_alike alike.items).1, alike.clocks]
    exact wellFormed.below

/-! ### Any text can be the outcome -/

theorem op_onto (op : TagEditOp) (text : JsString) (index rest : Nat) (size : text.length = index + rest)
    (ops : List TagEditOp) (inside : InsideOps rest (op :: ops)) (outcome : JsString)
    (same : outcome.length = (applyOp (text, index) op).1.length) :
    ∃ text' op', text'.length = text.length ∧ Alike op' op ∧
      applyOp (text', index) op' = (outcome, (applyOp (text, index) op).2) := by
  cases op with
  | preserve count => exact ⟨outcome, _, same, .preserve count, rfl⟩
  | insert inserted =>
    rw [applyOp, length_splice] at same
    refine ⟨outcome.take index ++ outcome.drop (index + inserted.length),
      .insert ((outcome.drop index).take inserted.length), ?_, .insert ?_, ?_⟩
    · rw [List.length_append, length_take, length_drop]
      omega
    · rw [length_take, length_drop]
      omega
    · have front : (outcome.take index).length = index := length_take_of_le (by omega)
      have mid : ((outcome.drop index).take inserted.length).length = inserted.length :=
        length_take_of_le (by rw [length_drop]; omega)
      rw [applyOp, splice, Nat.add_zero, List.take_left' front, List.drop_left' front, mid, applyOp,
        append_assoc, ← List.drop_drop, List.take_append_drop, List.take_append_drop]
  | delete count =>
    have ahead : count ≤ rest := inside.1
    rw [applyOp, length_splice, List.length_nil] at same
    refine ⟨outcome.take index ++ (List.replicate count 0 ++ outcome.drop index), _, ?_, .delete count, ?_⟩
    · rw [List.length_append, List.length_append, length_take, length_replicate, length_drop]
      omega
    · have front : (outcome.take index).length = index := length_take_of_le (by omega)
      have both : (outcome.take index ++ List.replicate count 0).length = index + count := by
        rw [List.length_append, front, length_replicate]
      rw [applyOp, splice, List.take_left' front, ← append_assoc, List.drop_left' both,
        append_nil, List.take_append_drop]
      rfl

theorem inside_op {op : TagEditOp} {text : JsString} {rest : Nat}
    (size : text.length = index + rest) (inside : InsideOps rest (op :: ops)) :
    ∃ rest', (applyOp (text, index) op).1.length = (applyOp (text, index) op).2 + rest' ∧ InsideOps rest' ops := by
  cases op with
  | preserve count =>
    have ahead : count ≤ rest := inside.1
    refine ⟨rest - count, ?_, inside.2⟩
    change text.length = index + count + (rest - count)
    omega
  | insert inserted => exact ⟨rest, by rw [applyOp, length_splice]; omega, inside⟩
  | delete count =>
    have ahead : count ≤ rest := inside.1
    exact ⟨rest - count, by rw [applyOp, length_splice, List.length_nil]; omega, inside.2⟩

theorem ops_onto (ops : List TagEditOp) (text : JsString) (index rest : Nat)
    (size : text.length = index + rest) (inside : InsideOps rest ops) (outcome : JsString)
    (same : outcome.length = (ops.foldl applyOp (text, index)).1.length) :
    ∃ text' ops', text'.length = text.length ∧ List.Forall₂ Alike ops' ops ∧
      (ops'.foldl applyOp (text', index)).1 = outcome := by
  induction ops generalizing text index rest with
  | nil => exact ⟨outcome, [], same, .nil, rfl⟩
  | cons op ops ih =>
    obtain ⟨rest', size', insideRest⟩ := inside_op size inside
    obtain ⟨middle, ops', length, alike, reached⟩ :=
      ih (applyOp (text, index) op).1 (applyOp (text, index) op).2 rest' size' insideRest same
    obtain ⟨text', op', length', alike', first⟩ := op_onto op text index rest size ops inside middle length
    refine ⟨text', op' :: ops', length', .cons alike' alike, ?_⟩
    rw [foldl_cons, first]
    exact reached

theorem lists_onto (lists : List (List TagEditOp)) (text : JsString) (inside : Inside text lists)
    (outcome : JsString) (same : outcome.length = (lists.foldl applyOps text).length) :
    ∃ text' lists', text'.length = text.length ∧ AlikeLists lists' lists ∧ lists'.foldl applyOps text' = outcome := by
  induction lists generalizing text with
  | nil => exact ⟨outcome, [], same, .nil, rfl⟩
  | cons ops rest ih =>
    obtain ⟨middle, rest', length, alike, reached⟩ := ih (applyOps text ops) inside.2 same
    obtain ⟨text', ops', length', alike', first⟩ :=
      ops_onto ops text 0 text.length (by omega) inside.1 middle length
    refine ⟨text', ops' :: rest', length', .cons alike' alike, ?_⟩
    rw [foldl_cons, applyOps, first]
    exact reached

theorem items_onto (items : List Item) (text : JsString) (same : text.length = (visible items).length) :
    ∃ items', List.Forall₂ AlikeItem items' items ∧ visible items' = text := by
  induction items generalizing text with
  | nil => exact ⟨[], .nil, (List.length_eq_zero_iff.mp same).symm⟩
  | cons t rest ih =>
    rw [visible_cons, List.length_append] at same
    by_cases gone : t.deleted = true
    · rw [shown_deleted gone] at same
      obtain ⟨items', alike, reached⟩ := ih text (by simpa using same)
      refine ⟨t :: items', .cons ⟨rfl, rfl, rfl, rfl⟩ alike, ?_⟩
      rw [visible_cons, shown_deleted gone, reached]
      rfl
    · rw [shown_present gone] at same
      obtain ⟨items', alike, reached⟩ := ih (text.drop t.content.length) (by rw [length_drop]; omega)
      have own : (text.take t.content.length).length = t.content.length :=
        length_take_of_le (by omega)
      refine ⟨{ t with content := text.take t.content.length } :: items',
        .cons ⟨rfl, rfl, own, rfl⟩ alike, ?_⟩
      have first : Item.shown { t with content := text.take t.content.length } =
          text.take t.content.length := shown_present gone
      rw [visible_cons, first, reached, List.take_append_drop]

theorem doc_onto (d : TextDoc) (text : JsString) (same : text.length = (visible d.items).length) :
    ∃ d', AlikeDoc d' d ∧ visible d'.items = text := by
  obtain ⟨items', alike, reached⟩ := items_onto d.items text same
  exact ⟨⟨items', d.clocks⟩, ⟨alike, rfl⟩, reached⟩

/-! ### An operation that does not land -/

theorem insert_apart {size other : Nat} {count : Nat} (before : index < other)
    (inside : other ≤ size) (some_count : count ≠ 0) :
    splice (List.replicate size 0) other 0 (List.replicate count (1 : CodeUnit)) ≠
      splice (List.replicate size 0) index 0 (List.replicate count (1 : CodeUnit)) := by
  intro same
  have at_index := congrArg (fun text : JsString => text[index]?) same
  have front : (splice (List.replicate size 0) other 0 (List.replicate count (1 : CodeUnit)))[index]? = some 0 := by
    rw [splice, append_assoc, List.getElem?_append_left (by simp; omega)]
    rw [List.take_replicate, List.getElem?_replicate, if_pos (by omega)]
  have moved : (splice (List.replicate size 0) index 0 (List.replicate count (1 : CodeUnit)))[index]? = some 1 := by
    rw [splice, append_assoc, List.getElem?_append_right (by simp), List.take_replicate,
      length_replicate, List.getElem?_append_left (by simp; omega), List.getElem?_replicate,
      if_pos (by omega)]
  have equal := front.symm.trans (at_index.trans moved)
  exact absurd (Option.some.inj equal) (by decide)

theorem delete_apart {rest other count : Nat} (before : index < other) (some_count : count ≠ 0) :
    splice (List.replicate index 0 ++ (1 : CodeUnit) :: List.replicate rest 0) other count [] ≠
      splice (List.replicate index 0 ++ (1 : CodeUnit) :: List.replicate rest 0) index count [] := by
  intro same
  have kept : (1 : CodeUnit) ∈
      splice (List.replicate index 0 ++ (1 : CodeUnit) :: List.replicate rest 0) other count [] := by
    rw [splice]
    refine mem_append_left _ (mem_append_left _ ?_)
    have size : other = (List.replicate index (0 : CodeUnit)).length + (other - index) := by simp; omega
    obtain ⟨more, next⟩ : ∃ more, other - index = more + 1 := ⟨other - index - 1, by omega⟩
    rw [size, List.take_length_add_append, next, List.take_succ_cons]
    exact mem_append_right _ List.mem_cons_self
  rw [same, splice, append_nil] at kept
  have size : index + count = (List.replicate index (0 : CodeUnit)).length + count := by simp
  obtain ⟨more, next⟩ : ∃ more, count = more + 1 := ⟨count - 1, by omega⟩
  rw [List.take_left' (by simp), size, List.drop_length_add_append, next, List.drop_succ_cons,
    List.drop_replicate] at kept
  have zero : (1 : CodeUnit) = 0 := by
    rcases List.mem_append.mp kept with front | back
    · exact List.eq_of_mem_replicate front
    · exact List.eq_of_mem_replicate back
  exact absurd zero (by decide)

end Alike

/-! ### Exactly the edits that reach -/

section Exact

variable (merges : Nat → Bool) (me : Nat)

theorem editOps_append (version : VersionVector) (s : TextDoc × Nat) (ops more : List TagEditOp) :
    editOps merges me version s (ops ++ more) =
      (editOps merges me version s ops).bind (fun s' => editOps merges me version s' more) := by
  induction ops generalizing s with
  | nil => rfl
  | cons op rest ih =>
    rw [cons_append, editOps, editOps, Option.bind_assoc]
    congr 1
    funext s'
    exact ih s'

theorem allLand_append (s : Standing) (ops more : List TagEditOp) :
    s.AllLand merges (ops ++ more) ↔ s.AllLand merges ops ∧ (s.run merges ops).AllLand merges more := by
  induction ops generalizing s with
  | nil => exact (and_iff_right trivial).symm
  | cons op rest ih =>
    rw [cons_append, Standing.AllLand, Standing.AllLand, ih, and_assoc]
    rfl

variable {clock : Option Nat} {size : Nat} {front lists : List (List TagEditOp)} {ops : List TagEditOp}
  {op : TagEditOp}

theorem reaches_begin {more : List TagEditOp} {rest : List (List TagEditOp)}
    (reaches : Reaches merges clock size (front ++ (ops ++ more) :: rest)) :
    Reaches merges clock size (front ++ [ops]) := by
  induction front generalizing clock size with
  | nil => exact ⟨((allLand_append merges _ ops more).mp reaches.1).1, trivial⟩
  | cons first later ih => exact ⟨reaches.1, ih reaches.2⟩

theorem inside_begin {text : JsString} {more : List TagEditOp}
    {rest : List (List TagEditOp)} (inside : Inside text (front ++ (ops ++ more) :: rest)) :
    Inside text (front ++ [ops]) := by
  have ofOps : ∀ (ops : List TagEditOp) (ahead : Nat), InsideOps ahead (ops ++ more) → InsideOps ahead ops := by
    intro ops
    induction ops with
    | nil => exact fun _ _ => trivial
    | cons op rest ih =>
      intro ahead all
      cases op with
      | preserve count => exact ⟨all.1, ih _ all.2⟩
      | insert inserted => exact ih _ all
      | delete count => exact ⟨all.1, ih _ all.2⟩
  induction front generalizing text with
  | nil => exact ⟨ofOps ops _ inside.1, trivial⟩
  | cons first later ih => exact ⟨inside.1, ih inside.2⟩

theorem exists_stray (stray : ¬ Reaches merges clock size lists) :
    ∃ front ops op more rest, lists = front ++ (ops ++ op :: more) :: rest ∧
      Reaches merges clock size (front ++ [ops]) ∧ ¬ Reaches merges clock size (front ++ [ops ++ [op]]) := by
  have ofOps : ∀ (ops : List TagEditOp) (s : Standing), ¬ s.AllLand merges ops →
      ∃ before op more, ops = before ++ op :: more ∧ s.AllLand merges before ∧ ¬ s.AllLand merges (before ++ [op]) := by
    intro ops
    induction ops with
    | nil => exact fun s none => absurd trivial none
    | cons op rest ih =>
      intro s some_stray
      by_cases lands : s.Lands op
      · obtain ⟨before, other, more, rfl, all, fails⟩ :=
          ih (s.step merges op) (fun all => some_stray ⟨lands, all⟩)
        exact ⟨op :: before, other, more, rfl, ⟨lands, all⟩, fun both => fails both.2⟩
      · exact ⟨[], op, rest, rfl, trivial, fun both => lands both.1⟩
  induction lists generalizing clock size with
  | nil => exact absurd trivial stray
  | cons ops rest ih =>
    by_cases all : (Standing.start clock size).AllLand merges ops
    · obtain ⟨front, before, op, more, later, rfl, reaches, fails⟩ := ih (fun tail => stray ⟨all, tail⟩)
      exact ⟨ops :: front, before, op, more, later, rfl, ⟨all, reaches⟩, fun both => fails both.2⟩
    · obtain ⟨before, op, more, rfl, lands, fails⟩ := ofOps ops _ all
      exact ⟨[], before, op, more, rest, rfl, ⟨lands, trivial⟩, fun both => fails both.1⟩

def outcome (d : TextDoc) (lists : List (List TagEditOp)) : Option JsString :=
  (updateValueInMap merges me d.clocks d lists).map (fun after => visible after.items)

theorem outcome_of_reaches {d : TextDoc} (wellFormed : WellFormed d) (inside : Inside (visible d.items) lists)
    (reaches : Reaches merges (d.clocks me) (visible d.items).length lists) :
    outcome merges me d lists = some (applyEdit (some (.string (visible d.items))) lists) := by
  obtain ⟨d', _, same, _, ran⟩ := lists_reach merges me wellFormed inside reaches
  have all := ran []
  rw [append_nil] at all
  rw [outcome, updateValueInMap, Function.update_eq_self, all, editLists, Option.map_some, same]
  rfl

/-- Some characters show that an operation does not land. -/
theorem exists_contents {s : Standing} (stray : ¬ s.Lands op) :
    ∃ text op', text.length = s.index + s.rest ∧ Alike op' op ∧
      ∀ version d, Tracks me version d s → visible d.items = text →
        ∃ d' index, editOp merges me version (d, s.index) op' = some (d', index) ∧
          visible d'.items ≠ (applyOp (text, s.index) op').1 := by
  cases op with
  | preserve count => exact absurd trivial stray
  | insert inserted =>
    have ⟨some_text, others⟩ := not_or.mp stray
    have ⟨some_uncovered, some_rest⟩ := not_or.mp others
    have size : (List.replicate inserted.length (1 : CodeUnit)).length = inserted.length :=
      length_replicate
    refine ⟨List.replicate (s.index + s.rest) 0, .insert (List.replicate inserted.length 1),
      length_replicate, .insert size, ?_⟩
    intro version d tracks same
    refine ⟨d.insert merges me (s.index + min s.uncovered s.rest) (List.replicate inserted.length 1),
      s.index + (List.replicate inserted.length (1 : CodeUnit)).length, ?_, ?_⟩
    · rw [editOp, if_neg (by rw [size]; omega), finalPosition_of_tracks tracks]
      rfl
    · rw [visible_insert, same]
      exact insert_apart (by omega) (by omega) some_text
  | delete count =>
    have ⟨some_count, others⟩ := not_or.mp stray
    have ⟨some_uncovered, some_rest⟩ := not_or.mp others
    refine ⟨List.replicate s.index 0 ++ 1 :: List.replicate (s.rest - 1) 0, .delete count, ?_, .delete count, ?_⟩
    · rw [List.length_append, List.length_cons, length_replicate, length_replicate]
      omega
    · intro version d tracks same
      refine ⟨d.delete (s.index + min s.uncovered s.rest) count, s.index, ?_, ?_⟩
      · rw [editOp, if_neg (by omega), finalPosition_of_tracks tracks]
        rfl
      · rw [visible_delete, same]
        exact delete_apart (by omega) some_count

theorem inside_append {text : JsString} {more : List (List TagEditOp)} :
    Inside text (lists ++ more) ↔ Inside text lists ∧ Inside (lists.foldl applyOps text) more := by
  induction lists generalizing text with
  | nil => exact (and_iff_right trivial).symm
  | cons ops rest ih =>
    rw [cons_append, Inside, Inside, ih, and_assoc]
    rfl

def standing (clock : Option Nat) (size : Nat) (front : List (List TagEditOp)) (ops : List TagEditOp) :
    Standing :=
  (Standing.start (after merges clock size front).1 (after merges clock size front).2).run merges ops

theorem standing_alike {others : List (List TagEditOp)} {other : List TagEditOp}
    (alikeFront : AlikeLists front others) (alike : List.Forall₂ Alike ops other) (clock : Option Nat)
    (size : Nat) : standing merges clock size front ops = standing merges clock size others other := by
  rw [standing, standing, after_alike alikeFront]
  exact (allLand_alike alike _).1

theorem lands_last (reaches : Reaches merges clock size (front ++ [ops]))
    (stray : ¬ Reaches merges clock size (front ++ [ops ++ [op]])) :
    ¬ (standing merges clock size front ops).Lands op := by
  intro lands
  have ⟨reachesFront, all, _⟩ := (reaches_append merges _ _ front [ops]).mp reaches
  have both := (allLand_append merges _ ops [op]).mpr ⟨all, lands, trivial⟩
  exact stray ((reaches_append merges _ _ front _).mpr ⟨reachesFront, both, trivial⟩)

/-- An edit that lands up to its last operation does what that one does. -/
theorem last_op {d : TextDoc} (wellFormed : WellFormed d) (inside : Inside (visible d.items) (front ++ [ops]))
    (reaches : Reaches merges (d.clocks me) (visible d.items).length (front ++ [ops])) :
    ∃ version e, Tracks me version e (standing merges (d.clocks me) (visible d.items).length front ops) ∧
      visible e.items = (front ++ [ops]).foldl applyOps (visible d.items) ∧
      ∀ op, outcome merges me d (front ++ [ops ++ [op]]) = (editOp merges me version
            (e, (standing merges (d.clocks me) (visible d.items).length front ops).index) op).map
            (fun s => visible s.1.items) ∧
        applyEdit (some (.string (visible d.items))) (front ++ [ops ++ [op]]) =
          (applyOp (visible e.items,
            (standing merges (d.clocks me) (visible d.items).length front ops).index) op).1 := by
  have ⟨insideFront, insideOps⟩ := inside_append.mp inside
  have ⟨reachesFront, reachesOps⟩ := (reaches_append merges _ _ front [ops]).mp reaches
  obtain ⟨d₁, wellFormed₁, same₁, after₁, ran₁⟩ := lists_reach merges me wellFormed insideFront reachesFront
  rw [after₁] at reachesOps
  rw [← same₁] at insideOps
  obtain ⟨e, ran, tracks, same⟩ := ops_tracks (start_tracks wellFormed₁ me) insideOps.1 reachesOps.1
  rw [standing, after₁]
  have zero : editOps merges me d₁.clocks (d₁, 0) ops = some (e, _) := ran
  have reached : ops.foldl applyOp (visible d₁.items, 0) = (visible e.items, _) := same.symm
  refine ⟨d₁.clocks, e, tracks, ?_, fun op => ⟨?_, ?_⟩⟩
  · rw [List.foldl_append, ← same₁]
    exact (congrArg Prod.fst reached).symm
  · rw [outcome, updateValueInMap, Function.update_eq_self, ran₁, editLists, editOps_append, zero,
      Option.bind_some, editOps]
    cases editOp merges me d₁.clocks (e, _) op with
    | none => rfl
    | some s => rfl
  · rw [applyEdit, List.foldl_append]
    change (List.foldl applyOp (List.foldl applyOps (visible d.items) front, 0) (ops ++ [op])).1 = _
    rw [← same₁, List.foldl_append, reached]
    rfl

theorem alike_begin (alike : AlikeLists lists (front ++ [ops])) :
    ∃ front' ops', lists = front' ++ [ops'] ∧ AlikeLists front' front ∧ List.Forall₂ Alike ops' ops := by
  induction front generalizing lists with
  | nil =>
    cases alike with
    | cons first rest =>
      cases rest
      exact ⟨[], _, rfl, .nil, first⟩
  | cons other rest ih =>
    cases alike with
    | cons first later =>
      obtain ⟨front', ops', rfl, alikeFront, alikeOps⟩ := ih later
      exact ⟨_ :: front', ops', rfl, .cons first alikeFront, alikeOps⟩

theorem exists_apart {d : TextDoc} (wellFormed : WellFormed d) (inside : Inside (visible d.items) (front ++ [ops]))
    (reaches : Reaches merges (d.clocks me) (visible d.items).length (front ++ [ops]))
    (stray : ¬ Reaches merges (d.clocks me) (visible d.items).length (front ++ [ops ++ [op]])) :
    ∃ d' lists', AlikeDoc d' d ∧ AlikeLists lists' (front ++ [ops ++ [op]]) ∧
      outcome merges me d' lists' ≠ some (applyEdit (some (.string (visible d'.items))) lists') := by
  obtain ⟨_, e, tracks, reached, _⟩ := last_op merges me wellFormed inside reaches
  -- The characters before the operation, and then those that lead to them.
  obtain ⟨text, op', size, alikeOp, shows⟩ := exists_contents merges me (lands_last merges reaches stray)
  obtain ⟨text', lists', length, alike, sameText⟩ :=
    lists_onto (front ++ [ops]) (visible d.items) inside text
      (by rw [size, ← size_of_tracks tracks, reached])
  obtain ⟨d', alikeDoc, shown⟩ := doc_onto d text' length
  obtain ⟨front', ops', rfl, alikeFront, alikeOps⟩ := alike_begin alike
  have alikeAll : AlikeLists (front' ++ [ops' ++ [op']]) (front ++ [ops ++ [op]]) :=
    List.rel_append alikeFront (.cons (List.rel_append alikeOps (.cons alikeOp .nil)) .nil)
  refine ⟨d', front' ++ [ops' ++ [op']], alikeDoc, alikeAll, ?_⟩
  have inside' := (inside_alike alike length).mpr inside
  have reaches' := (reaches_alike alike _ _).mpr reaches
  rw [← shown] at inside' length
  rw [← length, ← alikeDoc.clocks] at reaches'
  obtain ⟨version, e', tracks', reached', last⟩ :=
    last_op merges me (wellFormed_alike alikeDoc wellFormed) inside' reaches'
  rw [alikeDoc.clocks, length, standing_alike merges alikeFront alikeOps] at tracks' last
  have there : visible e'.items = text := by rw [reached', shown, sameText]
  obtain ⟨final, index, ran, apart⟩ := shows version e' tracks' there
  have ⟨whole, wanted⟩ := last op'
  rw [whole, ran, Option.map_some, wanted, there]
  exact fun same => apart (Option.some.inj same)

/-- An edit and all its beginnings do what they say, with any characters, just when all operations land. -/
theorem edit_exact_iff (d : TextDoc) (lists : List (List TagEditOp)) (wellFormed : WellFormed d)
    (inside : Inside (visible d.items) lists) :
    (∀ d' lists', AlikeDoc d' d → Begins lists' lists →
      outcome merges me d' lists' = some (applyEdit (some (.string (visible d'.items))) lists')) ↔
    Reaches merges (d.clocks me) (visible d.items).length lists := by
  constructor
  · intro all
    by_contra stray
    obtain ⟨front, ops, op, more, rest, rfl, reaches, fails⟩ := exists_stray merges stray
    have begun : front ++ (ops ++ op :: more) :: rest = front ++ ((ops ++ [op]) ++ more) :: rest := by
      rw [append_assoc, List.singleton_append]
    obtain ⟨d', lists', alikeDoc, alike, apart⟩ :=
      exists_apart merges me wellFormed (inside_begin inside) reaches fails
    exact apart (all d' lists' alikeDoc ⟨front, ops ++ [op], more, rest, begun, alike⟩)
  · rintro reaches d' lists' alikeDoc ⟨front, ops, more, rest, rfl, alike⟩
    have size := (items_alike alikeDoc.items).2.1
    apply outcome_of_reaches merges me (wellFormed_alike alikeDoc wellFormed)
    · exact (inside_alike alike size).mpr (inside_begin inside)
    · rw [alikeDoc.clocks, size]
      exact (reaches_alike alike _ _).mpr (reaches_begin merges reaches)

end Exact

/-! ### Three inserts -/

def sharedText : TextDoc where
  items := [⟨1, 0, lit ['x', 'y', 'z'], false⟩]
  clocks client := if client = 1 then some 3 else none

theorem sharedText_wellFormed : WellFormed sharedText where
  filled := List.forall_mem_singleton.mpr (by decide)
  distinct := by decide
  below := by
    intro id member
    have first : id.1 = 1 ∧ id.2 < 3 := by
      have all : ∀ id ∈ ids sharedText.items, id.1 = 1 ∧ id.2 < 3 := by decide
      exact all id member
    exact ⟨3, if_pos first.1, first.2⟩

def twoInserts : List TagEditOp :=
  [.insert (lit ['a']), .preserve 1, .insert (lit ['b'])]

def threeInserts : List TagEditOp := twoInserts ++ [.preserve 1, .insert (lit ['c'])]

theorem two_inserts_land : outcome (fun _ => false) 1 sharedText [twoInserts] =
    some (applyEdit (some (.string (visible sharedText.items))) [twoInserts]) := by
  apply (edit_exact_iff (fun _ => false) 1 sharedText [twoInserts] sharedText_wellFormed
    ⟨⟨by decide, trivial⟩, trivial⟩).mpr
  · exact ⟨⟨.inr (.inl rfl), trivial, .inr (.inl rfl), trivial⟩, trivial⟩
  · exact ⟨.cons ⟨rfl, rfl, rfl, rfl⟩ .nil, rfl⟩
  · exact ⟨[], twoInserts, [], [], rfl, .cons (.cons (.insert rfl) (.cons (.preserve 1)
      (.cons (.insert rfl) .nil))) .nil⟩

/-- The third insert lands behind the last character instead of before it. -/
theorem third_insert_strays :
    WellFormed sharedText ∧ Inside (visible sharedText.items) [threeInserts] ∧
      applyEdit (some (.string (visible sharedText.items))) [threeInserts] =
        lit ['a', 'x', 'b', 'y', 'c', 'z'] ∧
      outcome (fun _ => false) 1 sharedText [threeInserts] =
        some (lit ['a', 'x', 'b', 'y', 'z', 'c']) := by
  refine ⟨sharedText_wellFormed, ⟨⟨by decide, by decide, trivial⟩, trivial⟩, by decide, by decide⟩

/-! ### What every edit keeps -/

section Grows

variable {merges : Nat → Bool} {me : Nat} {start d : TextDoc}

/-- The characters, deleted or not, with their ids. -/
def Item.characters (t : Item) : List ((Nat × Nat) × CodeUnit) := t.ids.zip t.content

/-- Since the start characters have only been added, and only by the client `me`. -/
structure Grows (me : Nat) (start d : TextDoc) : Prop where
  wellFormed : WellFormed d
  kept : (start.items.flatMap Item.characters).Sublist (d.items.flatMap Item.characters)
  others : ∀ client, client ≠ me → d.clocks client = start.clocks client

theorem length_ids (t : Item) : t.ids.length = t.content.length := by simp [Item.ids]

theorem characters_halves (t : Item) (n : Nat) (inside : n ≤ t.content.length) :
    (t.front n).characters ++ (t.back n).characters = t.characters := by
  rw [Item.characters, Item.characters, ← List.zip_append (length_ids _), ids_halves t inside, Item.front, Item.back,
    List.take_append_drop, Item.characters]

namespace Grows

theorem delete (grows : Grows me start d) (index count : Nat) : Grows me start (d.delete index count) where
  wellFormed := wellFormed_deleted grows.wellFormed index count
  kept := by
    rw [TextDoc.delete, List.flatMap_append, flatMap_deleteFrom characters_halves (fun _ => rfl),
      flatMap_cutAt characters_halves]
    exact grows.kept
  others := grows.others

theorem insert (grows : Grows me start d) (index : Nat) {text : JsString} (filled : text ≠ []) :
    Grows me start (d.insert merges me index text) where
  wellFormed := wellFormed_inserted grows.wellFormed merges me index filled
  kept := by
    refine grows.kept.trans ?_
    rw [TextDoc.insert, List.flatMap_append, flatMap_attach, append_assoc,
      ← flatMap_cutAt characters_halves d.items index]
    · exact List.Sublist.append (.refl _) (List.sublist_append_right _ _)
    · intro t client ends _
      rw [Item.characters, Item.characters, Item.characters, ← List.zip_append (length_ids t), Item.ids, Item.ids,
        Item.ids, List.length_append, ← List.range'_append_1, List.map_append, ends, client]
  others client apart := (update_of_ne apart _ _).trans (grows.others client apart)

variable {version : VersionVector} {s s' : TextDoc × Nat}

theorem op (grows : Grows me start s.1) (op : TagEditOp) (ran : editOp merges me version s op = some s') :
    Grows me start s'.1 := by
  obtain ⟨d, index⟩ := s
  cases op with
  | preserve count =>
    rw [← Option.some.inj ran]
    exact grows
  | insert text =>
    rw [editOp] at ran
    split at ran
    · rw [← Option.some.inj ran]
      exact grows
    · next filled =>
        obtain ⟨position, _, rfl⟩ := Option.map_eq_some_iff.mp ran
        exact grows.insert position (fun empty => filled (by simp [empty]))
  | delete count =>
    rw [editOp] at ran
    split at ran
    · rw [← Option.some.inj ran]
      exact grows
    · obtain ⟨position, _, rfl⟩ := Option.map_eq_some_iff.mp ran
      exact grows.delete position count

theorem ops (grows : Grows me start s.1) (ops : List TagEditOp) (ran : editOps merges me version s ops = some s') :
    Grows me start s'.1 := by
  induction ops generalizing s with
  | nil => exact Option.some.inj ran ▸ grows
  | cons op rest ih =>
    obtain ⟨next, did, later⟩ := Option.bind_eq_some_iff.mp ran
    exact ih (grows.op op did) later

theorem lists {d' : TextDoc} (grows : Grows me start d) (lists : List (List TagEditOp))
    (ran : editLists merges me version d lists = some d') : Grows me start d' := by
  induction lists generalizing d version with
  | nil => exact Option.some.inj ran ▸ grows
  | cons ops rest ih =>
    obtain ⟨next, did, later⟩ := Option.bind_eq_some_iff.mp ran
    exact ih (@Grows.ops _ _ _ _ (d, 0) _ grows ops did) later

end Grows

end Grows

end CasualOS.YjsText
