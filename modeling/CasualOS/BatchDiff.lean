import CasualOS.AtomIndex
import CasualOS.CheckedWeave
import CasualOS.Lib.Run

/-! The difference that a run of calls on a weave is summarised by. -/

namespace CasualOS.BatchDiff

open CheckedWeave
open Dll (Ref)
open List (map_cons mem_map)

variable {T : Type}

/-! ### The loop over the results -/

/-- `added` and `deleted`. -/
structure Changes (T : Type) where
  added : List (Atom T)
  deleted : AtomHashList

def noChanges : Changes T where
  added := []
  deleted := OrderedMap.empty

/-- One round of the loop of `removeRef`. -/
def removeAtom (changes : Changes T) (removed : Atom T) : Changes T :=
  match changes.added.findIdx? (fun a => a.hash = removed.hash) with
  | some idx => { changes with added := changes.added.eraseIdx idx }
  | none => { changes with deleted := changes.deleted.set removed.hash (atomIdToString removed.id) }

/-- The nodes are read as they are when the batch is over. -/
def removeRef (w : Weave T) (changes : Changes T) (ref : Ref) : Option (Changes T) :=
  (w.atomsFrom ref).map (fun removed => removed.foldl removeAtom changes)

def addResult (w : Weave T) (changes : Changes T) : WeaveResult T → Option (Changes T)
  | .atomAdded atom => some { changes with added := changes.added ++ [atom] }
  | .conflict winner _ loserRef =>
    let changes := { changes with added := changes.added ++ [winner] }
    match loserRef with
    | some ref => removeRef w changes ref
    | none => some changes
  | .atomRemoved ref => removeRef w changes ref
  | _ => some changes

def uniqBy {α : Type} (key : α → JsString) : List α → List α
  | [] => []
  | a :: rest => a :: (uniqBy key rest).filter (fun b => key b ≠ key a)

def batchDiff (w : Weave T) (results : List (WeaveResult T)) : Option (AtomIndexFullDiff T) :=
  (results.foldlM (addResult w) noChanges).map (fun changes =>
    { additions := uniqBy Atom.hash changes.added
      deletions := changes.deleted })

/-! ### Batches -/

inductive Call (T : Type) where
  | insert (atom : Atom T)
  | remove (atom : Atom T)
  | removeSiblingsBefore (atom : Atom T)

/-- `start` is the weave before the first call. -/
structure Batch (T : Type) where
  start : Weave T
  weave : Weave T
  results : List (WeaveResult T)

variable (getHash : AtomHashInput T → JsString)

def perform (w : Weave T) : Call T → Except Failure (Weave T × WeaveResult T)
  | .insert atom => w.insert getHash atom
  | .remove atom => w.remove atom
  | .removeSiblingsBefore atom => w.removeSiblingsBefore atom

def step (b : Batch T) (call : Call T) : Option (Batch T) :=
  match perform getHash b.weave call with
  | .ok (w, result) => some { b with weave := w, results := b.results ++ [result] }
  | .error _ => none

def hashes (w : Weave T) : List JsString := (w.getAtoms.getD []).map Atom.hash

/-- The additions are not doubled nor among the deletions, and what was listed less the deletions and with
the additions is listed. -/
def Exact (b : Batch T) : Prop :=
  ∃ diff, batchDiff b.weave b.results = some diff ∧ (diff.additions.map Atom.hash).Nodup ∧
    (∀ a ∈ diff.additions, diff.deletions.get a.hash = none) ∧
    ∀ hash, hash ∈ hashes b.weave ↔
      (hash ∈ hashes b.start ∧ diff.deletions.get hash = none) ∨ hash ∈ diff.additions.map Atom.hash

/-! ### The steps after which a batch is summarised -/

/-- The atoms that a call has put into the weave, as far as its answer tells them one by one. -/
def entered : WeaveResult T → List (Atom T)
  | .atomAdded atom => [atom]
  | .conflict winner _ (some _) => [winner]
  | _ => []

def stood (results : List (WeaveResult T)) : List JsString :=
  results.filterMap (fun result =>
    match result with
    | .conflict winner _ none => some winner.hash
    | _ => none)

def isReleased : WeaveResult T → Bool
  | .atomsAdded _ => true
  | _ => false

/-- No waiting atoms are released, the atom that is put in was not listed at the start, and no atom goes that
has won a conflict as the listed one. -/
def AllowedOutcome (b : Batch T) : Except Failure (Weave T × WeaveResult T) → Prop
  | .ok (w, result) => isReleased result = false ∧ (∀ a ∈ entered result, a.hash ∉ hashes b.start) ∧
      ∀ hash ∈ stood b.results, hash ∈ hashes w
  | .error _ => True

instance (b : Batch T) : (outcome : Except Failure (Weave T × WeaveResult T)) →
    Decidable (AllowedOutcome b outcome)
  | .ok (w, result) => inferInstanceAs (Decidable (isReleased result = false ∧
      (∀ a ∈ entered result, a.hash ∉ hashes b.start) ∧ ∀ hash ∈ stood b.results, hash ∈ hashes w))
  | .error _ => .isTrue trivial

def Allowed (b : Batch T) (call : Call T) : Prop := AllowedOutcome b (perform getHash b.weave call)

instance (b : Batch T) (call : Call T) : Decidable (Allowed getHash b call) :=
  inferInstanceAs (Decidable (AllowedOutcome b (perform getHash b.weave call)))

/-- An insertion lists no atom that has not been checked. -/
def SafeCall (w : Weave T) : Call T → Prop
  | .insert atom => Safe getHash w atom
  | _ => True

/-- The weaves that calls lead to. -/
inductive Reached : Weave T → Prop where
  | new (size : Option Int) : Reached (Weave.new size)
  | call {w w' : Weave T} {result : WeaveResult T} (call : Call T) (reached : Reached w)
      (safe : SafeCall getHash w call) (ran : perform getHash w call = .ok (w', result)) : Reached w'

/-! ### The loop, one hash at a time -/

variable {w : Weave T} {changes : Changes T}

/-- How often the hash is among the additions before these are made unique. -/
def Changes.count (changes : Changes T) (hash : JsString) : Nat := (changes.added.map Atom.hash).count hash

def Changes.Deletes (changes : Changes T) (hash : JsString) : Prop := changes.deleted.get hash ≠ none

def Changes.push (changes : Changes T) (new : List (Atom T)) : Changes T :=
  { changes with added := changes.added ++ new }

theorem mem_added (changes : Changes T) (hash : JsString) :
    hash ∈ changes.added.map Atom.hash ↔ 0 < changes.count hash := List.count_pos_iff.symm

theorem count_push (changes : Changes T) (new : List (Atom T)) (hash : JsString) :
    (changes.push new).count hash = changes.count hash + (new.map Atom.hash).count hash := by
  rw [Changes.count, Changes.push, List.map_append, List.count_append]
  rfl

theorem removeAtom_added (changes : Changes T) (removed : Atom T) :
    (removeAtom changes removed).added.map Atom.hash = (changes.added.map Atom.hash).erase removed.hash := by
  have test : ((fun hash => hash == removed.hash) ∘ Atom.hash) = fun a : Atom T => decide (a.hash = removed.hash) :=
    funext (fun a => beq_eq_decide a.hash removed.hash)
  have erased := @List.eraseP_eq_eraseIdx _ changes.added (fun a => a.hash = removed.hash)
  rw [List.erase_eq_eraseP', List.eraseP_map, test, erased]
  unfold removeAtom
  cases changes.added.findIdx? (fun a => a.hash = removed.hash) <;> rfl

theorem removeAtom_deletes (changes : Changes T) (removed : Atom T) (hash : JsString) :
    (removeAtom changes removed).Deletes hash ↔
      changes.Deletes hash ∨ hash = removed.hash ∧ changes.count hash = 0 := by
  unfold removeAtom
  split
  · next idx found =>
      have some := Option.isSome_of_eq_some found
      rw [List.findIdx?_isSome, List.any_eq_true] at some
      obtain ⟨a, inside, same⟩ := some
      have positive : 0 < changes.count removed.hash := by
        rw [← mem_added]
        exact mem_map.mpr ⟨a, inside, of_decide_eq_true same⟩
      refine ⟨.inl, fun either => either.elim id (fun removing => ?_)⟩
      rw [removing.1] at removing
      omega
  · next absent =>
      have zero : changes.count removed.hash = 0 := by
        refine List.count_eq_zero.mpr (fun member => ?_)
        obtain ⟨a, inside, same⟩ := mem_map.mp member
        exact of_decide_eq_false (List.findIdx?_eq_none_iff.mp absent a inside) same
      simp only [Changes.Deletes, OrderedMap.get_set]
      by_cases same : hash = removed.hash
      · subst same
        simp [zero]
      · simp [same]

theorem foldl_removeAtom (gone : List (Atom T)) (distinct : (gone.map Atom.hash).Nodup) (changes : Changes T)
    (hash : JsString) :
    (gone.foldl removeAtom changes).count hash =
        (if hash ∈ gone.map Atom.hash then changes.count hash - 1 else changes.count hash) ∧
      ((gone.foldl removeAtom changes).Deletes hash ↔
        changes.Deletes hash ∨ hash ∈ gone.map Atom.hash ∧ changes.count hash = 0) := by
  induction gone generalizing changes with
  | nil => simp
  | cons a rest ih =>
    rw [map_cons, List.nodup_cons] at distinct
    have one : (removeAtom changes a).count hash =
        if hash = a.hash then changes.count hash - 1 else changes.count hash := by
      rw [Changes.count, removeAtom_added, List.count_erase]
      by_cases same : hash = a.hash
      · subst same
        simp [Changes.count]
      · simp [same, Ne.symm same, Changes.count]
    have later := ih distinct.2 (removeAtom changes a)
    rw [one, removeAtom_deletes] at later
    rw [List.foldl_cons, later.1, later.2]
    by_cases same : hash = a.hash
    · subst same
      simp [distinct.1]
    · simp [same]

theorem mem_uniqBy {α : Type} (key : α → JsString) (l : List α) (k : JsString) :
    k ∈ (uniqBy key l).map key ↔ k ∈ l.map key := by
  induction l with
  | nil => rfl
  | cons a rest ih =>
    rw [uniqBy, map_cons, map_cons, List.mem_cons, List.mem_cons, ← ih]
    by_cases same : k = key a
    · simp [same]
    · simp only [same, false_or, mem_map, List.mem_filter, decide_eq_true_eq]
      constructor
      · rintro ⟨b, ⟨inside, _⟩, rfl⟩
        exact ⟨b, inside, rfl⟩
      · rintro ⟨b, inside, rfl⟩
        exact ⟨b, ⟨inside, same⟩, rfl⟩

theorem uniqBy_nodup {α : Type} (key : α → JsString) (l : List α) : ((uniqBy key l).map key).Nodup := by
  induction l with
  | nil => exact List.nodup_nil
  | cons a rest ih =>
    rw [uniqBy, map_cons, List.nodup_cons]
    refine ⟨fun member => ?_, ih.sublist (List.filter_sublist.map key)⟩
    obtain ⟨b, inside, same⟩ := mem_map.mp member
    exact of_decide_eq_true (List.mem_filter.mp inside).2 same

/-- The difference is exact when this holds of each hash: `first` says that it was listed at the start, `now`
that it is, `deleted` and `count` what the loop has made of it. -/
def ExactAt (first now deleted : Prop) (count : Nat) : Prop :=
  (0 < count → ¬ deleted) ∧ (now ↔ (first ∧ ¬ deleted) ∨ 0 < count)

theorem exact_iff (b : Batch T) : Exact b ↔ ∃ changes, b.results.foldlM (addResult b.weave) noChanges = some changes ∧
      ∀ hash, ExactAt (hash ∈ hashes b.start) (hash ∈ hashes b.weave) (changes.Deletes hash) (changes.count hash) := by
  have unique : ∀ (changes : Changes T) (hash : JsString),
      hash ∈ (uniqBy Atom.hash changes.added).map Atom.hash ↔ 0 < changes.count hash := fun changes hash =>
    (mem_uniqBy _ _ _).trans (mem_added changes hash)
  constructor
  · rintro ⟨diff, made, _, apart, listed⟩
    obtain ⟨changes, folded, rfl⟩ := Option.map_eq_some_iff.mp made
    refine ⟨changes, folded, fun hash => ⟨fun positive deleted => ?_, ?_⟩⟩
    · obtain ⟨a, inside, rfl⟩ := mem_map.mp ((unique changes hash).mpr positive)
      exact deleted (apart a inside)
    · rw [listed hash, unique, Changes.Deletes, not_not]
  · rintro ⟨changes, folded, exact⟩
    refine ⟨_, Option.map_eq_some_iff.mpr ⟨changes, folded, rfl⟩, uniqBy_nodup _ _, fun a inside => ?_, fun hash => ?_⟩
    · have positive := (unique changes a.hash).mp (List.mem_map_of_mem inside)
      exact not_not.mp ((exact a.hash).1 positive)
    · have same := (exact hash).2
      rwa [Changes.Deletes, not_not, ← unique] at same

/-! ### What is known of a hash -/

/-- `stands` says that its atom has won a conflict as the listed one. -/
structure Ledger (first now deleted stands : Prop) (count : Nat) : Prop where
  exact : ExactAt first now deleted count
  known : deleted → first
  listed : stands → now
  doubled : stands → ¬ first → 1 < count
  repeated : stands → first → 0 < count
  single : ¬ stands → count ≤ 1
  unnamed : ¬ stands → first → count = 0

section Ledger

variable {first now deleted stands : Prop} {count : Nat}

theorem ledger_start (first : Prop) : Ledger first first False False 0 where
  exact := by simp [ExactAt]
  known := False.elim
  listed := False.elim
  doubled := False.elim
  repeated := False.elim
  single _ := Nat.zero_le 1
  unnamed _ _ := rfl

theorem Ledger.stand (ledger : Ledger first now deleted stands count) (here : now) :
    Ledger first now deleted True (count + 1) where
  exact := by
    refine ⟨fun _ gone => ?_, fun _ => .inr (Nat.succ_pos _), fun _ => here⟩
    rcases ledger.exact.2.mp here with ⟨_, kept⟩ | positive
    · exact kept gone
    · exact ledger.exact.1 positive gone
  known := ledger.known
  listed _ := here
  doubled _ new := by
    rcases ledger.exact.2.mp here with ⟨old, _⟩ | positive
    · exact absurd old new
    · exact Nat.succ_lt_succ positive
  repeated _ _ := Nat.succ_pos _
  single low := absurd trivial low
  unnamed low := absurd trivial low

theorem Ledger.absent (ledger : Ledger first now deleted stands count) (out : ¬ now) :
    count = 0 ∧ ¬ stands ∧ (first → deleted) := by
  refine ⟨Nat.eq_zero_of_not_pos (fun positive => out (ledger.exact.2.mpr (.inr positive))),
    fun won => out (ledger.listed won), fun old => ?_⟩
  by_contra kept
  exact out (ledger.exact.2.mpr (.inl ⟨old, kept⟩))

theorem Ledger.enter (ledger : Ledger first now deleted stands count) (out : ¬ now) (new : ¬ first) :
    Ledger first True deleted stands (count + 1) := by
  obtain ⟨zero, low, _⟩ := ledger.absent out
  exact
    { exact := ⟨fun _ gone => new (ledger.known gone), fun _ => .inr (Nat.succ_pos _), fun _ => trivial⟩
      known := ledger.known
      listed := fun _ => trivial
      doubled := fun won => absurd won low
      repeated := fun won => absurd won low
      single := fun _ => by omega
      unnamed := fun _ old => absurd old new }

theorem Ledger.enter_needs (ledger : Ledger first now deleted stands count) (out : ¬ now)
    (exact : ExactAt first True deleted (count + 1)) : ¬ first := fun old =>
  exact.1 (Nat.succ_pos _) ((ledger.absent out).2.2 old)

theorem Ledger.leave (ledger : Ledger first now deleted stands count) (here : now) (low : ¬ stands) :
    Ledger first False (deleted ∨ count = 0) stands (count - 1) := by
  have bound := ledger.single low
  have none : ¬ 0 < count - 1 := by omega
  exact
    { exact := by
        refine ⟨fun positive => absurd positive none, False.elim, ?_⟩
        rintro (⟨old, kept⟩ | positive)
        · exact kept (.inr (ledger.unnamed low old))
        · exact none positive
      known := by
        rintro (gone | zero)
        · exact ledger.known gone
        · rcases ledger.exact.2.mp here with ⟨old, _⟩ | positive
          · exact old
          · omega
      listed := fun won => absurd won low
      doubled := fun won => absurd won low
      repeated := fun won => absurd won low
      single := fun _ => by omega
      unnamed := fun _ _ => by omega }

theorem Ledger.leave_needs (ledger : Ledger first now deleted stands count)
    (exact : ExactAt first False (deleted ∨ count = 0) (count - 1)) : ¬ stands := by
  intro won
  apply exact.2.mpr
  by_cases old : first
  · have positive := ledger.repeated won old
    refine .inl ⟨old, ?_⟩
    rintro (gone | zero)
    · exact ledger.exact.1 positive gone
    · omega
  · have more := ledger.doubled won old
    exact .inr (by omega)

theorem Ledger.congr {now' deleted' stands' : Prop} {count' : Nat} (ledger : Ledger first now deleted stands count)
    (sameNow : now' ↔ now) (sameDeleted : deleted' ↔ deleted) (sameStands : stands' ↔ stands)
    (sameCount : count' = count) : Ledger first now' deleted' stands' count' := by
  rw [propext sameNow, propext sameDeleted, propext sameStands, sameCount]
  exact ledger

/-- What a call and its result do to one hash. -/
inductive Moves (now now' deleted deleted' : Prop) (count count' : Nat) : Prop where
  | entered (out : ¬ now) (here : now') (deletes : deleted' ↔ deleted) (counts : count' = count + 1)
  | left (here : now) (out : ¬ now') (deletes : deleted' ↔ deleted ∨ count = 0) (counts : count' = count - 1)
  | kept (same : now' ↔ now) (deletes : deleted' ↔ deleted) (counts : count' = count)

variable {now' deleted' : Prop} {count' : Nat}

theorem Ledger.move (ledger : Ledger first now deleted stands count)
    (moves : Moves now now' deleted deleted' count count') (enters : ¬ now → now' → ¬ first)
    (leaves : now → ¬ now' → ¬ stands) : Ledger first now' deleted' stands count' := by
  cases moves with
  | entered out here deletes counts =>
    exact (ledger.enter out (enters out here)).congr (iff_true_intro here) deletes Iff.rfl counts
  | left here out deletes counts =>
    exact (ledger.leave here (leaves here out)).congr (iff_false_intro out) deletes Iff.rfl counts
  | kept same deletes counts => exact ledger.congr same deletes Iff.rfl counts

theorem Ledger.move_needs (ledger : Ledger first now deleted stands count)
    (moves : Moves now now' deleted deleted' count count') (exact : ExactAt first now' deleted' count') :
    (¬ now → now' → ¬ first) ∧ (now → ¬ now' → ¬ stands) := by
  cases moves with
  | entered out here deletes counts =>
    rw [propext (iff_true_intro here), propext deletes, counts] at exact
    exact ⟨fun _ _ => ledger.enter_needs out exact, fun listed => absurd listed out⟩
  | left here out deletes counts =>
    rw [propext (iff_false_intro out), propext deletes, counts] at exact
    exact ⟨fun _ listed => absurd listed out, fun _ _ => ledger.leave_needs exact⟩
  | kept same deletes counts =>
    exact ⟨fun out here => absurd (same.mp here) out, fun here out => absurd (same.mpr here) out⟩

end Ledger

end CasualOS.BatchDiff
