import CasualOS.TextEdits

/-! Positions in a shared text that were made for an earlier version of it. -/

namespace CasualOS.YjsText

def getStateVector (clients : Nat → List Item) : VersionVector := fun client =>
  (clients client).getLast?.map fun struct => struct.clock + struct.content.length

/-- The character was in the text of the version. -/
def isOld (version : VersionVector) (cell : Cell) : Bool :=
  match version cell.client with
  | some clientVersion => cell.clock < clientVersion
  | none => false

/-- The position has that many characters of the version to its left. -/
def Resolves (version : VersionVector) (items : List Item) (index : Nat) : Prop :=
  ∃ position, finalPosition version items index = some position ∧
    ((cells version items).take position).countP (isOld version) = index

/-- The first characters of the items that are counted, which begin at the version or before it, are old. -/
def BeginsOld (version : VersionVector) (items : List Item) (index : Nat) : Prop :=
  ∀ cell ∈ ((cells version items).filter Cell.known).take index, isOld version cell = true

section Positions

variable {version : VersionVector}

theorem known_of_isOld {items : List Item} {cell : Cell} (member : cell ∈ cells version items)
    (has : isOld version cell = true) : cell.known = true := by
  refine known_of_old version member ?_
  rw [isOld] at has
  split at has
  · next clientVersion found => exact ⟨clientVersion, found, of_decide_eq_true has⟩
  · cases has

/-- Before the place where an index lands, the old characters are those among the characters that are counted. -/
theorem old_before_landing {line : List Cell} (present : ∀ cell ∈ line, cell.deleted = false)
    (known : ∀ cell ∈ line, isOld version cell = true → cell.known = true) (index : Nat) :
    (line.take (landing line index)).countP (isOld version) =
      ((line.filter Cell.known).take index).countP (isOld version) := by
  induction line generalizing index with
  | nil => simp
  | cons cell rest ih =>
    have later := ih (fun other member => present other (List.mem_cons_of_mem _ member))
      (fun other member => known other (List.mem_cons_of_mem _ member))
    rw [landing, present cell List.mem_cons_self, if_neg Bool.false_ne_true]
    cases counted : cell.known with
    | true =>
      rw [if_pos rfl, List.filter_cons_of_pos counted]
      cases index with
      | zero => simp
      | succ index =>
        rw [if_neg (Nat.succ_ne_zero index), Nat.add_sub_cancel, List.take_succ_cons, List.take_succ_cons,
          List.countP_cons, List.countP_cons, later]
    | false =>
      have new : ¬ isOld version cell = true := by
        intro has
        rw [known cell List.mem_cons_self has] at counted
        cases counted
      rw [if_neg Bool.false_ne_true, List.filter_cons_of_neg (by simp [counted]), List.take_succ_cons,
        List.countP_cons_of_neg new, later]

theorem present_cells {items : List Item} (present : ∀ t ∈ items, t.deleted = false) :
    ∀ cell ∈ cells version items, cell.deleted = false := by
  intro cell member
  obtain ⟨t, inside, isCell⟩ := List.mem_flatMap.mp member
  rw [(mem_itemCells _ _ _ _ _ isCell).2.2.2.1]
  exact present t inside

def sharedStore (client : Nat) : List Item := if client = 1 then sharedText.items else []

def writtenOn : TextDoc := sharedText.insert (fun _ => false) 1 0 (JsString.lit ['w'])

end Positions

end CasualOS.YjsText
