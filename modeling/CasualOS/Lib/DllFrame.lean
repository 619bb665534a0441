import CasualOS.Lib.Dll

/-! Which nodes of a heap a splice can change: those that are reached from where it is made. -/

namespace Dll

open Option (some)

variable {α : Type} {h h' h'' : Heap α} {L : Ref → Prop} {r pos start stop : Ref} {link : Option Ref}

/-- The node before this one, if there is any, is one of these. -/
def BackIn (h : Heap α) (L : Ref → Prop) (r : Ref) : Prop := ∀ p, prevAt h r = some p → L p

/-- `next` leads from these nodes only to these, and from there one step back does too. -/
def Within (h : Heap α) (L : Ref → Prop) : Prop :=
  ∀ r, L r → ∀ n, nextAt h r = some n → L n ∧ BackIn h L n

/-- Only these nodes have changed, and they still lead only to these. -/
structure Confined (L : Ref → Prop) (h h' : Heap α) : Prop where
  within : Within h' L
  same : ∀ r, ¬ L r → h'[r]? = h[r]?
  grown : h.length ≤ h'.length

theorem Confined.trans (first : Confined L h h') (second : Confined L h' h'') : Confined L h h'' where
  within := second.within
  same r outside := (second.same r outside).trans (first.same r outside)
  grown := Nat.le_trans first.grown second.grown

/-- A segment of unchanged nodes is a segment of the changed heap. -/
theorem Seg.unchanged {p q : Option Ref} {l : List Ref} (seg : Seg h p l q)
    (same : ∀ r ∈ l, h'[r]? = h[r]?) : Seg h' p l q := by
  induction l generalizing p with
  | nil => trivial
  | cons r rest ih =>
    obtain ⟨bound, before, next, later⟩ := seg
    have here := same r List.mem_cons_self
    refine ⟨?_, ?_, ?_, ih later (fun x member => same x (List.mem_cons_of_mem _ member))⟩
    · rw [List.getElem?_eq_getElem bound] at here
      exact (List.getElem?_eq_some_iff.mp here).1
    · rw [prevAt, here]
      exact before
    · rw [nextAt, here]
      exact next

/-! ### One link -/

theorem prevAt_setPrev_some {x p : Ref} (found : prevAt (setPrev h r link) x = some p) :
    link = some p ∨ x ≠ r ∧ prevAt h x = some p := by
  by_cases bound : r < h.length
  · rw [prevAt_setPrev h r x link bound] at found
    split at found
    · exact .inl found
    · next other => exact .inr ⟨other, found⟩
  · have unchanged : setPrev h r link = h := List.modify_eq_self (Nat.not_lt.mp bound)
    rw [unchanged] at found
    refine .inr ⟨fun same => ?_, found⟩
    rw [same, prevAt, List.getElem?_eq_none (Nat.not_lt.mp bound)] at found
    cases found

theorem nextAt_setNext_some {x n : Ref} (found : nextAt (setNext h r link) x = some n) :
    link = some n ∨ nextAt h x = some n := by
  by_cases bound : r < h.length
  · rw [nextAt_setNext h r x link bound] at found
    split at found
    · exact .inl found
    · exact .inr found
  · have unchanged : setNext h r link = h := List.modify_eq_self (Nat.not_lt.mp bound)
    rw [unchanged] at found
    exact .inr found

theorem BackIn.setPrev {x : Ref} (back : BackIn h L x) (inside : ∀ p, link = some p → L p) :
    BackIn (setPrev h r link) L x := fun p found =>
  (prevAt_setPrev_some found).elim (inside p) (fun old => back p old.2)

theorem backIn_setPrev_self (inside : ∀ p, link = some p → L p) : BackIn (setPrev h r link) L r :=
  fun p found => (prevAt_setPrev_some found).elim (inside p) (fun old => absurd rfl old.1)

theorem BackIn.setNext {x : Ref} (back : BackIn h L x) : BackIn (setNext h r link) L x := fun p found =>
  back p (by rwa [prevAt_setNext] at found)

theorem confined_setPrev (r : Ref) (link : Option Ref) (within : Within h L) (here : L r) (inside : ∀ p, link = some p → L p) :
    Confined L h (setPrev h r link) where
  within x inL n found := by
    rw [nextAt_setPrev] at found
    exact (within x inL n found).imp id (fun back => back.setPrev inside)
  same x outside := by
    have apart : r ≠ x := fun same => outside (same ▸ here)
    simp [setPrev, apart]
  grown := Nat.le_of_eq (length_setPrev ..).symm

theorem confined_setNext (r : Ref) (link : Option Ref) (within : Within h L) (here : L r)
    (inside : ∀ n, link = some n → L n ∧ BackIn h L n) : Confined L h (setNext h r link) where
  within x inL n found := by
    have led : L n ∧ BackIn h L n := (nextAt_setNext_some found).elim (inside n) (within x inL n)
    exact ⟨led.1, led.2.setNext⟩
  same x outside := by
    have apart : r ≠ x := fun same => outside (same ▸ here)
    simp [setNext, apart]
  grown := Nat.le_of_eq (length_setNext ..).symm

theorem setNext_setPrev (h : Heap α) (r x : Ref) (next prev : Option Ref) :
    setPrev (setNext h r next) x prev = setNext (setPrev h x prev) r next := by
  refine List.ext_getElem? fun i => ?_
  simp only [setPrev, setNext, List.getElem?_modify]
  cases h[i]? with
  | none => rfl
  | some n => by_cases first : x = i <;> by_cases second : r = i <;> simp [first, second]

/-! ### The splices -/

theorem confined_alloc (val : α) (next prev : Option Ref) (within : Within h L) (fresh : L h.length)
    (inside : ∀ n, next = some n → L n ∧ BackIn h L n) (inside' : ∀ p, prev = some p → L p) :
    Confined L h (alloc h val next prev).1 where
  within x inL n found := by
    have led : L n ∧ BackIn h L n := by
      rw [nextAt_alloc] at found
      split at found
      · exact inside n found
      · exact within x inL n found
    refine ⟨led.1, fun p before => ?_⟩
    rw [prevAt_alloc] at before
    split at before
    · exact inside' p before
    · exact led.2 p before
  same x outside := by
    have old : x ≠ h.length := fun same => outside (same ▸ fresh)
    rw [getElem_alloc, if_neg old]
  grown := by simp

theorem confined_insertBefore (val : α) (within : Within h L) (fresh : L h.length) (here : L pos)
    (back : BackIn h L pos) : Confined L h (insertBefore h pos val).1 := by
  have node : ∀ p, some h.length = some p → L p := fun p same => some.inj same ▸ fresh
  have first := confined_alloc val (some pos) (prevAt h pos) within fresh
    (fun n same => some.inj same ▸ ⟨here, back⟩) back
  have second := first.trans (confined_setPrev pos (some h.length) first.within here node)
  cases before : prevAt h pos with
  | none => simpa only [insertBefore, before, alloc_ref] using second
  | some p =>
    have own : BackIn (alloc h val (some pos) (prevAt h pos)).1 L h.length := fun q found =>
      back q (by rwa [prevAt_alloc, if_pos rfl] at found)
    have third := confined_setNext p (some h.length) second.within (back p before)
      (fun n same => some.inj same ▸ ⟨fresh, own.setPrev node⟩)
    simpa only [insertBefore, before, alloc_ref, setNext_setPrev] using second.trans third

theorem confined_insertAfter (val : α) (within : Within h L) (fresh : L h.length) (here : L pos) :
    Confined L h (insertAfter h pos val).1 := by
  have node : ∀ p, some h.length = some p → L p := fun p same => some.inj same ▸ fresh
  have before : ∀ p, some pos = some p → L p := fun p same => some.inj same ▸ here
  have first := confined_alloc val (nextAt h pos) (some pos) within fresh (within pos here) before
  have own : BackIn (alloc h val (nextAt h pos) (some pos)).1 L h.length := fun q found =>
    before q (by rwa [prevAt_alloc, if_pos rfl] at found)
  cases after : nextAt h pos with
  | none =>
    rw [after] at first own
    have second := confined_setNext pos (some h.length) first.within here (fun n same => some.inj same ▸ ⟨fresh, own⟩)
    simpa only [insertAfter, after, alloc_ref] using first.trans second
  | some n =>
    rw [after] at first own
    have second := first.trans (confined_setPrev n (some h.length) first.within (within pos here n after).1 node)
    have third := confined_setNext pos (some h.length) second.within here
      (fun n same => some.inj same ▸ ⟨fresh, own.setPrev node⟩)
    simpa only [insertAfter, after, alloc_ref] using second.trans third

theorem confined_spliceBefore (within : Within h L) (here : L pos) (back : BackIn h L pos)
    (first : L start) (last : L stop) : Confined L h (spliceBefore h pos start stop) := by
  have ends : ∀ p, some stop = some p → L p := fun p same => some.inj same ▸ last
  cases before : prevAt h pos with
  | none =>
    have one := confined_setPrev pos (some stop) within here ends
    have two := confined_setNext stop (some pos) one.within last
      (fun n same => some.inj same ▸ ⟨here, backIn_setPrev_self ends⟩)
    simpa only [spliceBefore, before, setNext_setPrev] using one.trans two
  | some q =>
    have known : ∀ p, some q = some p → L p := fun p same => some.inj same ▸ back q before
    have one := confined_setPrev start (some q) within first known
    have two := one.trans (confined_setPrev pos (some stop) one.within here ends)
    have three := two.trans (confined_setNext q (some start) two.within (back q before)
      (fun n same => some.inj same ▸ ⟨first, (backIn_setPrev_self known).setPrev ends⟩))
    have four := three.trans (confined_setNext stop (some pos) three.within last
      (fun n same => some.inj same ▸ ⟨here, (backIn_setPrev_self ends).setNext⟩))
    simpa only [spliceBefore, before, setNext_setPrev] using four

theorem confined_spliceAfter (within : Within h L) (here : L pos) (first : L start) (last : L stop) :
    Confined L h (spliceAfter h pos start stop) := by
  have ends : ∀ p, some stop = some p → L p := fun p same => some.inj same ▸ last
  have before : ∀ p, some pos = some p → L p := fun p same => some.inj same ▸ here
  cases after : nextAt h pos with
  | none =>
    have one := confined_setPrev start (some pos) within first before
    have two := one.trans (confined_setNext pos (some start) one.within here
      (fun n same => some.inj same ▸ ⟨first, backIn_setPrev_self before⟩))
    have three := two.trans (confined_setNext stop none two.within last (fun n same => by cases same))
    simpa only [spliceAfter, after, setNext_setPrev] using three
  | some n =>
    have found := within pos here n after
    have one := confined_setPrev n (some stop) within found.1 ends
    have two := one.trans (confined_setPrev start (some pos) one.within first before)
    have three := two.trans (confined_setNext pos (some start) two.within here
      (fun n same => some.inj same ▸ ⟨first, backIn_setPrev_self before⟩))
    have four := three.trans (confined_setNext stop (some n) three.within last (fun m same => some.inj same ▸
        ⟨found.1, ((backIn_setPrev_self ends).setPrev before).setNext⟩))
    simpa only [spliceAfter, after, setNext_setPrev] using four

theorem confined_cut (within : Within h L) (first : L start) (back : BackIn h L start) (last : L stop) :
    Confined L h (cut h start stop) := by
  have clear : ∀ p, (none : Option Ref) = some p → L p := fun p same => by cases same
  have closing : ∀ {g : Heap α}, Within g L → Confined L g (setNext (setPrev g start none) stop none) := by
    intro g inner
    have one := confined_setPrev start none inner first clear
    exact one.trans (confined_setNext stop none one.within last (fun n same => by cases same))
  cases after : nextAt h stop with
  | none =>
    cases before : prevAt h start with
    | none =>
      simp only [cut, after, before]
      exact closing within
    | some p =>
      have one := confined_setNext p none within (back p before) (fun n same => by cases same)
      simp only [cut, after, before]
      exact one.trans (closing one.within)
  | some n =>
    have found := within stop last n after
    cases before : prevAt h start with
    | none =>
      have one := confined_setPrev n none within found.1 clear
      simp only [cut, after, before]
      exact one.trans (closing one.within)
    | some p =>
      have known : ∀ q, some p = some q → L q := fun q same => some.inj same ▸ back p before
      have one := confined_setPrev n (some p) within found.1 known
      have two := one.trans (confined_setNext p (some n) one.within (back p before)
        (fun m same => some.inj same ▸ ⟨found.1, backIn_setPrev_self known⟩))
      simp only [cut, after, before]
      exact two.trans (closing two.within)

end Dll
