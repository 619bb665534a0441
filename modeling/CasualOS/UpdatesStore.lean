import Mathlib.Algebra.BigOperators.Group.List.Basic
import Mathlib.Algebra.Ring.Int.Defs
import Mathlib.Algebra.Ring.Nat
import Mathlib.Data.List.Basic
import CasualOS.JsString
import CasualOS.Lib.OrderedMap

/-! `MemoryUpdatesStore`: the updates of each branch, under a limit on their size. -/

namespace CasualOS

open OrderedMap

structure StoredUpdates where
  updates : List JsString
  timestamps : List Nat
  deriving DecidableEq, Repr

/-- What the store keeps for a branch. -/
structure BranchUpdates extends StoredUpdates where
  instSizeInBytes : Int
  deriving DecidableEq, Repr

structure MaxSizeReachedFailure where
  branch : JsString
  maxBranchSizeInBytes : Option Int
  neededBranchSizeInBytes : Int
  deriving DecidableEq, Repr

abbrev AddUpdatesResult := Except MaxSizeReachedFailure Unit

/-- Without a `maxAllowedInstSize` (`Infinity`) every size is allowed. -/
structure MemoryUpdatesStore where
  branches : List (JsString × BranchUpdates)
  maxAllowedInstSize : Option Int
  deriving DecidableEq, Repr

namespace BranchUpdates

def empty : BranchUpdates := { updates := [], timestamps := [], instSizeInBytes := 0 }

/-- Takes out the first occurrence of an update, with its timestamp. -/
def removeUpdate (stored : BranchUpdates) (update : JsString) : BranchUpdates :=
  match stored.updates.idxOf? update with
  | none => stored
  | some i =>
    { updates := stored.updates.eraseIdx i
      timestamps := stored.timestamps.eraseIdx i
      instSizeInBytes := stored.instSizeInBytes - update.length }

def removeAll (stored : BranchUpdates) (updates : List JsString) : BranchUpdates :=
  updates.foldl removeUpdate stored

end BranchUpdates

namespace MemoryUpdatesStore

def new (maxAllowedInstSize : Option Int) : MemoryUpdatesStore :=
  { branches := [], maxAllowedInstSize := maxAllowedInstSize }

def get (s : MemoryUpdatesStore) (branch : JsString) : BranchUpdates :=
  (lookup branch s.branches).getD .empty

def put (s : MemoryUpdatesStore) (branch : JsString) (stored : BranchUpdates) : MemoryUpdatesStore :=
  { s with branches := assign branch stored s.branches }

def exceeds (s : MemoryUpdatesStore) (size : Int) : Bool := s.maxAllowedInstSize.any (· < size)

/-- The size with the updates, or the first size on the way that is over the limit. -/
def sizeWith (s : MemoryUpdatesStore) : Int → List JsString → Except Int Int
  | size, [] => .ok size
  | size, update :: rest =>
    let newSize := size + update.length
    if s.exceeds newSize then .error newSize else s.sizeWith newSize rest

def getUpdates (s : MemoryUpdatesStore) (branch : JsString) : StoredUpdates :=
  (s.get branch).toStoredUpdates

def addUpdates (s : MemoryUpdatesStore) (branch : JsString) (updates : List JsString) (now : Nat) :
    MemoryUpdatesStore × AddUpdatesResult :=
  let stored := s.get branch
  match s.sizeWith stored.instSizeInBytes updates with
  | .error needed =>
    (s.put branch stored,
      .error
        { branch := branch
          maxBranchSizeInBytes := s.maxAllowedInstSize
          neededBranchSizeInBytes := needed })
  | .ok newSize =>
    (s.put branch
      { updates := stored.updates ++ updates
        timestamps := stored.timestamps ++ updates.map (fun _ => now)
        instSizeInBytes := newSize }, .ok ())

def replaceUpdates (s : MemoryUpdatesStore) (branch : JsString) (updatesToRemove : StoredUpdates)
    (updatesToAdd : List JsString) (now : Nat) : MemoryUpdatesStore × AddUpdatesResult :=
  (s.put branch ((s.get branch).removeAll updatesToRemove.updates)).addUpdates branch updatesToAdd now

def clearUpdates (s : MemoryUpdatesStore) (branch : JsString) : MemoryUpdatesStore :=
  { s with branches := remove branch s.branches }

end MemoryUpdatesStore

/-! ### The sizes that the store keeps -/

section Sizes

def totalLength (updates : List JsString) : Int := (updates.map (fun u => (u.length : Int))).sum

theorem totalLength_append (first second : List JsString) :
    totalLength (first ++ second) = totalLength first + totalLength second := by
  simp [totalLength]

theorem totalLength_erase (update : JsString) (updates : List JsString) (member : update ∈ updates) :
    totalLength (updates.erase update) = totalLength updates - update.length := by
  have moved := List.perm_cons_erase member
  have sums := (moved.map (fun u : JsString => (u.length : Int))).sum_eq
  simp only [totalLength, List.map_cons, List.sum_cons] at sums ⊢
  omega

namespace BranchUpdates

/-- The size is that of the updates. -/
def Sized (stored : BranchUpdates) : Prop := stored.instSizeInBytes = totalLength stored.updates

theorem removeUpdate_updates (stored : BranchUpdates) (update : JsString) :
    (stored.removeUpdate update).updates = stored.updates.erase update := by
  rw [List.erase_eq_eraseIdx, removeUpdate]
  cases stored.updates.idxOf? update <;> rfl

theorem removeUpdate_sized (stored : BranchUpdates) (update : JsString) (sized : stored.Sized) :
    (stored.removeUpdate update).Sized := by
  unfold Sized at sized ⊢
  rw [removeUpdate_updates, removeUpdate]
  cases found : stored.updates.idxOf? update with
  | none =>
    rw [List.erase_of_not_mem (List.idxOf?_eq_none_iff.mp found)]
    exact sized
  | some i =>
    have member : update ∈ stored.updates := by
      by_contra absent
      rw [List.idxOf?_eq_none_iff.mpr absent] at found
      cases found
    rw [totalLength_erase update stored.updates member]
    exact congrArg (· - (update.length : Int)) sized

theorem removeAll_updates (stored : BranchUpdates) (updates : List JsString) :
    (stored.removeAll updates).updates = stored.updates.diff updates := by
  induction updates generalizing stored with
  | nil => rfl
  | cons update rest ih =>
    have later := ih (stored.removeUpdate update)
    rw [removeUpdate_updates] at later
    rw [List.diff_cons]
    exact later

theorem removeAll_sized (stored : BranchUpdates) (updates : List JsString) (sized : stored.Sized) :
    (stored.removeAll updates).Sized := by
  induction updates generalizing stored with
  | nil => exact sized
  | cons update rest ih => exact ih _ (removeUpdate_sized stored update sized)

/-- The size is that of the updates and within the limit, and each update has a timestamp. -/
structure Bounded (limit : Option Int) (stored : BranchUpdates) : Prop where
  sized : stored.Sized
  stamped : stored.timestamps.length = stored.updates.length
  within : ∀ most, limit = some most → stored.instSizeInBytes ≤ max most 0

theorem Bounded.empty (limit : Option Int) : Bounded limit .empty := ⟨rfl, rfl, fun most _ => le_max_right most 0⟩

theorem removeUpdate_bounded (limit : Option Int) (stored : BranchUpdates) (update : JsString)
    (bounded : Bounded limit stored) : Bounded limit (stored.removeUpdate update) := by
  refine ⟨removeUpdate_sized stored update bounded.sized, ?_, fun most given => ?_⟩
  · rw [removeUpdate]
    split
    · exact bounded.stamped
    · simp only [List.length_eraseIdx, bounded.stamped]
  · have before := bounded.within most given
    rw [removeUpdate]
    split
    · exact before
    · simp only
      omega

theorem removeAll_bounded (limit : Option Int) (stored : BranchUpdates) (updates : List JsString)
    (bounded : Bounded limit stored) : Bounded limit (stored.removeAll updates) := by
  induction updates generalizing stored with
  | nil => exact bounded
  | cons update rest ih => exact ih _ (removeUpdate_bounded limit stored update bounded)

end BranchUpdates

namespace MemoryUpdatesStore

def Bounded (limit : Option Int) (s : MemoryUpdatesStore) : Prop :=
  s.maxAllowedInstSize = limit ∧ ∀ branch, (s.get branch).Bounded limit

theorem get_put (s : MemoryUpdatesStore) (branch other : JsString) (stored : BranchUpdates) :
    (s.put branch stored).get other = if other = branch then stored else s.get other := by
  unfold get put
  rw [lookup_assign]
  by_cases same : other = branch <;> simp [same]

theorem get_clearUpdates (s : MemoryUpdatesStore) (branch other : JsString) :
    (s.clearUpdates branch).get other = if other = branch then .empty else s.get other := by
  unfold get clearUpdates
  rw [lookup_remove]
  by_cases same : other = branch <;> simp [same]

theorem sizeWith_ok (s : MemoryUpdatesStore) (size : Int) (updates : List JsString) (newSize : Int)
    (fits : s.sizeWith size updates = .ok newSize) : newSize = size + totalLength updates := by
  induction updates generalizing size with
  | nil =>
    have same : size = newSize := Except.ok.inj fits
    simp [totalLength, same]
  | cons update rest ih =>
    simp only [sizeWith] at fits
    split at fits
    · cases fits
    · have later := ih _ fits
      simp only [totalLength, List.map_cons, List.sum_cons] at later ⊢
      omega

theorem addUpdates_stored (s next : MemoryUpdatesStore) (branch : JsString) (updates : List JsString)
    (now : Nat) (ran : s.addUpdates branch updates now = (next, .ok ())) :
    (∀ other, other ≠ branch → next.get other = s.get other) ∧
      (next.get branch).updates = (s.get branch).updates ++ updates ∧
      (next.get branch).instSizeInBytes = (s.get branch).instSizeInBytes + totalLength updates := by
  simp only [addUpdates] at ran
  cases sized : s.sizeWith (s.get branch).instSizeInBytes updates with
  | error needed => simp [sized] at ran
  | ok newSize =>
    simp only [sized, Prod.mk.injEq, and_true] at ran
    subst ran
    simp only [get_put, if_true, true_and]
    exact ⟨fun other apart => if_neg apart, sizeWith_ok s _ updates newSize sized⟩

theorem addUpdates_refused (s next : MemoryUpdatesStore) (branch : JsString) (updates : List JsString)
    (now : Nat) (failure : MaxSizeReachedFailure)
    (ran : s.addUpdates branch updates now = (next, .error failure)) (other : JsString) :
    next.get other = s.get other := by
  simp only [addUpdates] at ran
  cases sized : s.sizeWith (s.get branch).instSizeInBytes updates with
  | ok newSize => simp [sized] at ran
  | error needed =>
    simp only [sized, Prod.mk.injEq] at ran
    rw [← ran.1, get_put]
    split
    · next same => rw [same]
    · rfl

theorem addUpdates_single (s : MemoryUpdatesStore) (branch update : JsString) (now : Nat) :
    (s.addUpdates branch [update] now).2.isOk =
      !s.exceeds ((s.get branch).instSizeInBytes + update.length) := by
  simp only [addUpdates, sizeWith]
  cases beyond : s.exceeds ((s.get branch).instSizeInBytes + update.length) <;> rfl

theorem sizeWith_within (s : MemoryUpdatesStore) (most size newSize : Int) (updates : List JsString)
    (limit : s.maxAllowedInstSize = some most) (low : size ≤ max most 0)
    (fits : s.sizeWith size updates = .ok newSize) : newSize ≤ max most 0 := by
  induction updates generalizing size with
  | nil => exact Except.ok.inj fits ▸ low
  | cons update rest ih =>
    simp only [sizeWith] at fits
    split at fits
    · cases fits
    · next room =>
        simp only [exceeds, limit, Option.any_some, decide_eq_true_eq] at room
        exact ih _ (by omega) fits

variable {limit : Option Int} {s : MemoryUpdatesStore}

theorem put_bounded (bounded : s.Bounded limit) (branch : JsString) (stored : BranchUpdates)
    (here : stored.Bounded limit) : (s.put branch stored).Bounded limit := by
  refine ⟨bounded.1, fun other => ?_⟩
  rw [get_put]
  split
  · exact here
  · exact bounded.2 other

theorem addUpdates_bounded (bounded : s.Bounded limit) (branch : JsString) (updates : List JsString) (now : Nat) :
    (s.addUpdates branch updates now).1.Bounded limit := by
  have here := bounded.2 branch
  simp only [addUpdates]
  cases sized : s.sizeWith (s.get branch).instSizeInBytes updates with
  | error needed => exact put_bounded bounded branch _ here
  | ok newSize =>
    refine put_bounded bounded branch _ ⟨?_, by simp [here.stamped], fun most given => ?_⟩
    · rw [BranchUpdates.Sized, sizeWith_ok s _ updates newSize sized, here.sized, totalLength_append]
    · exact sizeWith_within s most _ newSize updates (bounded.1.trans given) (here.within most given) sized

theorem replaceUpdates_bounded (bounded : s.Bounded limit) (branch : JsString) (removed : StoredUpdates)
    (added : List JsString) (now : Nat) : (s.replaceUpdates branch removed added now).1.Bounded limit :=
  addUpdates_bounded (put_bounded bounded branch _
    (BranchUpdates.removeAll_bounded limit _ removed.updates (bounded.2 branch))) branch added now

theorem clearUpdates_bounded (bounded : s.Bounded limit) (branch : JsString) :
    (s.clearUpdates branch).Bounded limit := by
  refine ⟨bounded.1, fun other => ?_⟩
  rw [get_clearUpdates]
  split
  · exact .empty limit
  · exact bounded.2 other

end MemoryUpdatesStore

end Sizes

end CasualOS
