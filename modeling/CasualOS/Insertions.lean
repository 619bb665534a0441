import CasualOS.TextEdits
import CasualOS.TranspiledCode

/-! What stands in an edited code, by the indexes of the code that it was inserted at. -/

namespace CasualOS.TranspiledCode

open TagEdit YjsText
open List (append_nil cons_append length_cons map_append map_cons take_append_drop)

/-! ### Marks -/

/-- A character, and whether the code has it. -/
structure Mark where
  own : Bool
  unit : CodeUnit
  deriving DecidableEq

def inserted (text : JsString) : List Mark := text.map fun c => ⟨false, c⟩

def itemMarks (t : Item) : List Mark := t.content.map fun c => ⟨decide (t.client = 0), c⟩

def marks (items : List Item) : List Mark := items.flatMap itemMarks

/-- Each character of a code with what was inserted behind it. -/
def woven (gaps : Nat → JsString) : Nat → JsString → List Mark
  | _, [] => []
  | offset, c :: rest => ⟨true, c⟩ :: (inserted (gaps (offset + 1)) ++ woven gaps (offset + 1) rest)

def spread (gaps : Nat → JsString) : Nat → JsString → JsString
  | _, [] => []
  | offset, c :: rest => c :: (gaps (offset + 1) ++ spread gaps (offset + 1) rest)

/-- The marks before the character of the code that an index finds. -/
def land : List Mark → Nat → Nat
  | [], _ => 0
  | mark :: rest, index =>
    if mark.own then if index = 0 then 0 else land rest (index - 1) + 1
    else land rest index + 1

/-- An edited code to which nothing was done but insertions behind its characters. -/
structure Woven {code : JsString} (gaps : Nat → JsString) (s : Editing code) : Prop where
  wellFormed : YjsText.WellFormed s.doc
  size : s.doc.clocks 0 = (Editing.start code).doc.clocks 0
  present : ∀ t ∈ s.doc.items, t.deleted = false
  line : marks s.doc.items = woven gaps 0 code

/-! ### Texts with insertions -/

section Woven

variable (gaps : Nat → JsString)

theorem unit_inserted (text : JsString) : (inserted text).map Mark.unit = text := by
  rw [inserted, List.map_map]
  exact List.map_id text

theorem unit_woven (offset : Nat) (text : JsString) :
    (woven gaps offset text).map Mark.unit = spread gaps offset text := by
  induction text generalizing offset with
  | nil => rfl
  | cons c rest ih => rw [woven, map_cons, map_append, unit_inserted, ih, spread]

theorem woven_append (offset : Nat) (first second : JsString) : woven gaps offset (first ++ second) =
    woven gaps offset first ++ woven gaps (offset + first.length) second := by
  induction first generalizing offset with
  | nil => rfl
  | cons c rest ih =>
    have sizes : offset + 1 + rest.length = offset + (rest.length + 1) := by omega
    rw [cons_append, woven, ih, woven, length_cons, sizes, cons_append, List.append_assoc]

theorem spread_append (offset : Nat) (first second : JsString) : spread gaps offset (first ++ second) =
    spread gaps offset first ++ spread gaps (offset + first.length) second := by
  rw [← unit_woven, woven_append, map_append, unit_woven, unit_woven]

variable {gaps}

variable {gaps' : Nat → JsString} {offset : Nat} {text : JsString}

theorem woven_congr (same : ∀ p, offset < p → p ≤ offset + text.length → gaps p = gaps' p) :
    woven gaps offset text = woven gaps' offset text := by
  induction text generalizing offset with
  | nil => rfl
  | cons c rest ih =>
    rw [length_cons] at same
    rw [woven, woven, same (offset + 1) (by omega) (by omega), ih fun p low high => same p (by omega) (by omega)]

theorem spread_congr (same : ∀ p, offset < p → p ≤ offset + text.length → gaps p = gaps' p) :
    spread gaps offset text = spread gaps' offset text := by
  rw [← unit_woven, woven_congr same, unit_woven]

theorem spread_nothing
    (nothing : ∀ p, offset < p → p ≤ offset + text.length → gaps p = []) : spread gaps offset text = text := by
  induction text generalizing offset with
  | nil => rfl
  | cons c rest ih =>
    rw [length_cons] at nothing
    rw [spread, nothing (offset + 1) (by omega) (by omega), ih fun p low high => nothing p (by omega) (by omega),
      List.nil_append]

theorem woven_last {more : JsString} (filled : text ≠ [])
    (same : ∀ p, offset < p → p < offset + text.length → gaps p = gaps' p)
    (last : gaps (offset + text.length) = gaps' (offset + text.length) ++ more) :
    woven gaps offset text = woven gaps' offset text ++ inserted more := by
  induction text generalizing offset with
  | nil => exact absurd rfl filled
  | cons c rest ih =>
    rw [length_cons] at same last
    rw [woven, woven]
    rcases eq_or_ne rest [] with rfl | further
    · rw [List.length_nil, Nat.zero_add] at last
      rw [woven, woven, append_nil, append_nil, last, cons_append, inserted, inserted, inserted, map_append]
    · have some_rest := List.length_pos_iff.mpr further
      have sizes : offset + 1 + rest.length = offset + (rest.length + 1) := by omega
      rw [same (offset + 1) (by omega) (by omega), ih further (fun p low high => same p (by omega) (by omega))
        (by rw [sizes]; exact last), cons_append, List.append_assoc]

theorem spread_last {more : JsString} (filled : text ≠ [])
    (same : ∀ p, offset < p → p < offset + text.length → gaps p = gaps' p)
    (last : gaps (offset + text.length) = gaps' (offset + text.length) ++ more) :
    spread gaps offset text = spread gaps' offset text ++ more := by
  rw [← unit_woven, woven_last filled same last, map_append, unit_woven, unit_inserted]

end Woven

/-! ### Where an index of the code is -/

section Land

theorem land_inserted (text : JsString) (rest : List Mark) (index : Nat) :
    land (inserted text ++ rest) index = text.length + land rest index := by
  induction text with
  | nil => exact (Nat.zero_add _).symm
  | cons c more ih =>
    have step : land (inserted (c :: more) ++ rest) index = land (inserted more ++ rest) index + 1 := rfl
    rw [step, ih, length_cons]
    omega

/-- An index of the code is behind everything that was inserted there. -/
theorem land_woven (gaps : Nat → JsString) (offset : Nat) (first second : JsString) :
    land (woven gaps offset (first ++ second)) first.length = (woven gaps offset first).length := by
  induction first generalizing offset with
  | nil => cases second <;> rfl
  | cons c rest ih =>
    have step : land (woven gaps offset (c :: rest ++ second)) (c :: rest).length =
        land (inserted (gaps (offset + 1)) ++ woven gaps (offset + 1) (rest ++ second)) rest.length + 1 := rfl
    rw [step, land_inserted, ih, woven, length_cons, List.length_append, inserted, List.length_map]

theorem landing_eq (line : List Cell) (present : ∀ cell ∈ line, cell.deleted = false) (index : Nat) :
    landing line index = land (line.map fun cell => ⟨cell.known, cell.unit⟩) index := by
  induction line generalizing index with
  | nil => rfl
  | cons cell rest ih =>
    obtain ⟨own, others⟩ := List.forall_mem_cons.mp present
    rw [landing, map_cons, land, if_neg (by simp [own]), ih others, ih others]

theorem marks_itemCells (known deleted : Bool) (client clock : Nat) (text : JsString) :
    (itemCells known deleted client clock text).map (fun cell => (⟨cell.known, cell.unit⟩ : Mark)) =
      text.map fun c => ⟨known, c⟩ := by
  induction text generalizing clock with
  | nil => rfl
  | cons c rest ih => rw [itemCells, map_cons, ih, map_cons]

theorem marks_cells {version : VersionVector} {items : List Item}
    (same : ∀ t ∈ items, knows version t.client t.clock = decide (t.client = 0)) :
    (cells version items).map (fun cell => (⟨cell.known, cell.unit⟩ : Mark)) = marks items := by
  induction items with
  | nil => rfl
  | cons t rest ih =>
    obtain ⟨own, others⟩ := List.forall_mem_cons.mp same
    rw [cells_cons, map_append, ih others, Item.cells, marks_itemCells, own]
    rfl

theorem relativeAt_eq {version : VersionVector} {items : List Item} (present : ∀ t ∈ items, t.deleted = false)
    (index : Nat) : relativeAt version items index = createRelativePositionFromStateVector version items index := by
  induction items generalizing index with
  | nil => rfl
  | cons t rest ih =>
    obtain ⟨own, others⟩ := List.forall_mem_cons.mp present
    simp only [relativeAt, createRelativePositionFromStateVector, own, and_true, ih others]

theorem indexAt_eq (items : List Item) (id : Nat × Nat) : indexAt false items id = indexOfId items id := by
  induction items with
  | nil => rfl
  | cons t rest ih => rw [indexAt, indexOfId, ih, if_neg Bool.false_ne_true, Nat.add_zero]

end Land

/-! ### Insertions -/

section Items

variable {items : List Item}

theorem marks_cons (t : Item) (rest : List Item) : marks (t :: rest) = itemMarks t ++ marks rest :=
  List.flatMap_cons

theorem marks_append (left right : List Item) : marks (left ++ right) = marks left ++ marks right :=
  List.flatMap_append

theorem visible_marks (present : ∀ t ∈ items, t.deleted = false) : visible items = (marks items).map Mark.unit := by
  induction items with
  | nil => rfl
  | cons t rest ih =>
    obtain ⟨own, others⟩ := List.forall_mem_cons.mp present
    have units : (itemMarks t).map Mark.unit = t.content := by
      rw [itemMarks, List.map_map]
      exact List.map_id t.content
    rw [visible_cons, shown_present (by simp [own]), ih others, marks_cons, map_append, units]

theorem present_cutAt (present : ∀ t ∈ items, t.deleted = false) (index : Nat) :
    (∀ t ∈ (cutAt items index).1, t.deleted = false) ∧ ∀ t ∈ (cutAt items index).2, t.deleted = false :=
  forall_cutAt (fun _ _ _ _ own => ⟨own, own⟩) present index

theorem marks_cutAt (present : ∀ t ∈ items, t.deleted = false) (index : Nat) :
    marks (cutAt items index).1 = (marks items).take index ∧
      marks (cutAt items index).2 = (marks items).drop index := by
  have whole : marks (cutAt items index).1 ++ marks (cutAt items index).2 = marks items := by
    refine flatMap_cutAt (fun t n _ => ?_) items index
    exact map_append.symm.trans (congrArg (List.map _) (take_append_drop n t.content))
  have size : (marks (cutAt items index).1).length = min index (marks items).length := by
    have left := (visible_cutAt items index).1
    rw [visible_marks (present_cutAt present index).1, visible_marks present, ← List.map_take] at left
    simpa using congrArg List.length left
  have front : marks (cutAt items index).1 = (marks items).take index := by
    have taken : (marks items).take (marks (cutAt items index).1).length = marks (cutAt items index).1 := by
      rw [← whole, List.take_left]
    rw [← taken, size, ← List.take_eq_take_min]
  refine ⟨front, List.append_cancel_left (whole.trans ?_)⟩
  rw [front, take_append_drop]

theorem marks_attach (merges : Nat → Bool) (left : List Item) (new : Item) :
    marks (attach merges left new) = marks left ++ itemMarks new := by
  refine flatMap_attach merges left new fun t client _ _ => ?_
  rw [itemMarks, itemMarks, itemMarks, map_append, client]

end Items

section Insertions

variable {code : JsString} {gaps : Nat → JsString} {s : Editing code}

/-- The version of the code knows its characters and no others. -/
theorem knows_iff (wellFormed : YjsText.WellFormed s.doc) {t : Item} (member : t ∈ s.doc.items) :
    knows s.version t.client t.clock = decide (t.client = 0) := by
  have filled := List.length_pos_iff.mpr (wellFormed.filled t member)
  have held : (t.client, t.clock) ∈ ids s.doc.items :=
    List.mem_flatMap.mpr
      ⟨t, member, List.mem_map.mpr ⟨t.clock, List.mem_range'_1.mpr ⟨Nat.le_refl _, by omega⟩, rfl⟩⟩
  obtain ⟨clock, found, less⟩ := wellFormed.below _ held
  simp only at found less
  by_cases first : t.client = 0
  · rw [first] at found ⊢
    rw [knows, Editing.version, if_pos rfl, found]
    simpa using Nat.le_of_lt less
  · rw [knows, Editing.version, if_neg first, decide_eq_false first]

theorem absolute_before (woven : Woven gaps s) (index : Nat) :
    s.absolute (s.before s.version index) = some (land (marks s.doc.items) index) := by
  have cells_present : ∀ cell ∈ cells s.version s.doc.items, cell.deleted = false := by
    intro cell member
    obtain ⟨t, held, inside⟩ := List.mem_flatMap.mp member
    rw [(mem_itemCells _ _ _ _ _ inside).2.2.2.1]
    exact woven.present t held
  have final := finalPosition_eq s.version woven.wellFormed.distinct index
  rw [landing_eq _ cells_present, marks_cells fun t => knows_iff woven.wellFormed] at final
  rw [← final, finalPosition, ← relativeAt_eq woven.present, Editing.absolute, Editing.before]
  cases relativeAt s.version s.doc.items index with
  | none => rfl
  | some id => exact indexAt_eq s.doc.items id

/-- What an insertion adds to the gaps. -/
def putAt (p : Nat) (text : JsString) (q : Nat) : JsString := if q = p then text else []

theorem marks_inserted (woven' : Woven gaps s) {p : Nat} (low : 0 < p) (high : p ≤ code.length)
    (merges : Nat → Bool) (other : s.clientID ≠ 0) (text : JsString) :
    marks (s.doc.insert merges s.clientID (land (marks s.doc.items) p) text).items =
      woven (fun q => gaps q ++ putAt p text q) 0 code := by
  have size : (code.take p).length = p := List.length_take_of_le high
  have line : marks s.doc.items = woven gaps 0 (code.take p) ++ woven gaps p (code.drop p) := by
    have halves := woven_append gaps 0 (code.take p) (code.drop p)
    rw [take_append_drop, size, Nat.zero_add] at halves
    rw [woven'.line, halves]
  have lands : land (marks s.doc.items) p = (woven gaps 0 (code.take p)).length := by
    have place := land_woven gaps 0 (code.take p) (code.drop p)
    rw [take_append_drop, size] at place
    rw [woven'.line, place]
  obtain ⟨left, right⟩ := marks_cutAt woven'.present (land (marks s.doc.items) p)
  have new : itemMarks ⟨s.clientID, (s.doc.clocks s.clientID).getD 0, text, false⟩ = inserted text := by
    rw [itemMarks, inserted, decide_eq_false other]
  have before : woven (fun q => gaps q ++ putAt p text q) 0 (code.take p) =
      woven gaps 0 (code.take p) ++ inserted text := by
    refine woven_last (List.ne_nil_of_length_pos (by omega)) (fun q _ less => ?_) ?_
    · rw [putAt, if_neg (by omega), append_nil]
    · rw [size, Nat.zero_add, putAt, if_pos rfl]
  have behind : woven (fun q => gaps q ++ putAt p text q) p (code.drop p) = woven gaps p (code.drop p) := by
    refine woven_congr fun q greater _ => ?_
    rw [putAt, if_neg (by omega), append_nil]
  have halves := woven_append (fun q => gaps q ++ putAt p text q) 0 (code.take p) (code.drop p)
  rw [take_append_drop, size, Nat.zero_add, before, behind] at halves
  rw [TextDoc.insert, marks_append, marks_attach, left, right, new, lands, line, List.take_left, List.drop_left, halves]

/-- A text that is inserted at an index of the code stands behind what was inserted there before. -/
theorem insertAt_woven (woven : Woven gaps s) {p : Nat} (low : 0 < p) (high : p ≤ code.length)
    (merges : Nat → Nat → Bool) (other : s.clientID ≠ 0) {text : JsString} (filled : text ≠ []) :
    ∃ s', s.insertAt merges (s.before s.version p) text = some s' ∧ s'.clientID = s.clientID ∧
      s'.version = s.version ∧ Woven (fun q => gaps q ++ putAt p text q) s' := by
  have some_text : text.isEmpty = false := by simpa using filled
  have clock : (s.insert merges (land (marks s.doc.items) p) text).doc.clocks 0 = s.doc.clocks 0 := by
    rw [Editing.insert, if_neg (by simp [some_text])]
    exact Function.update_of_ne (Ne.symm other) _ _
  obtain ⟨leftPresent, rightPresent⟩ := present_cutAt woven.present (land (marks s.doc.items) p)
  refine ⟨s.insert merges (land (marks s.doc.items) p) text, ?_, ?_, ?_, ?_⟩
  · rw [Editing.insertAt, absolute_before woven]
    rfl
  · rw [Editing.insert]
    split <;> rfl
  · funext client
    simp only [Editing.version, clock]
  · refine { wellFormed := ?_, size := clock.trans woven.size, present := ?_, line := ?_ }
    · rw [Editing.insert, if_neg (by simp [some_text])]
      exact wellFormed_inserted woven.wellFormed _ _ _ filled
    · rw [Editing.insert, if_neg (by simp [some_text])]
      exact List.forall_mem_append.mpr ⟨forall_attach _ leftPresent rfl fun _ own => own, rightPresent⟩
    · rw [Editing.insert, if_neg (by simp [some_text])]
      exact marks_inserted woven low high (merges s.clientID) other text

end Insertions

theorem woven_nothing (offset : Nat) (text : JsString) :
    woven (fun _ => []) offset text = text.map fun c => ⟨true, c⟩ := by
  induction text generalizing offset with
  | nil => rfl
  | cons c rest ih => exact congrArg (⟨true, c⟩ :: ·) (ih _)

theorem start_woven (code : JsString) : Woven (fun _ => []) (Editing.start code) := by
  cases code with
  | nil =>
    refine ⟨⟨List.forall_mem_nil _, List.nodup_nil, List.forall_mem_nil _⟩, rfl, ?_, rfl⟩
    exact List.forall_mem_nil _
  | cons c rest =>
    have all : ids (Editing.start (c :: rest)).doc.items =
        (List.range' 0 (c :: rest).length).map fun clock => (0, clock) := append_nil _
    have filled : Filled (Editing.start (c :: rest)).doc.items :=
      List.forall_mem_singleton.mpr (List.cons_ne_nil c rest)
    refine ⟨⟨filled, ?_, ?_⟩, rfl, List.forall_mem_singleton.mpr rfl, ?_⟩
    · rw [all]
      exact List.Nodup.map (fun first second same => (Prod.mk.inj same).2) List.nodup_range'
    · rw [all]
      intro id member
      obtain ⟨clock, inside, rfl⟩ := List.mem_map.mp member
      exact ⟨_, rfl, by simpa using (List.mem_range'_1.mp inside).2⟩
    · rw [woven_nothing]
      exact append_nil _

end CasualOS.TranspiledCode
