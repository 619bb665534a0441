import CasualOS.CausalRepo

/-! The atoms of a repository after many were added or removed. -/

namespace CasualOS.RepoContents

open CausalRepo

variable {T : Type}

def firstOn (hash : JsString) (atoms : List (Atom T)) : Option (Atom T) :=
  atoms.find? (fun a => a.hash = hash)

theorem firstOn_none (hash : JsString) (atoms : List (Atom T)) :
    firstOn hash atoms = none ↔ ∀ a ∈ atoms, a.hash ≠ hash := by
  simp [firstOn]

theorem firstOn_append (hash : JsString) (early late : List (Atom T)) :
    firstOn hash (early ++ late) = (firstOn hash early).or (firstOn hash late) := by
  simp only [firstOn, List.find?_append]

theorem addOne_get (repo : CausalRepo T) (atom : Atom T) (hash : JsString) :
    (repo.addOne atom).atoms.get hash = (repo.atoms.get hash).or (firstOn hash [atom]) := by
  cases present : repo.atoms.get atom.hash with
  | some existing =>
    simp only [addOne, present]
    by_cases same : atom.hash = hash
    · rw [← same, present, Option.some_or]
    · simp [firstOn, same]
  | none =>
    simp only [addOne, present, OrderedMap.get_set]
    by_cases same : hash = atom.hash
    · simp [firstOn, same, present]
    · simp [firstOn, same, Ne.symm same]

theorem addMany_get (repo : CausalRepo T) (atoms : List (Atom T)) (hash : JsString) :
    (repo.addMany atoms).1.atoms.get hash = (repo.atoms.get hash).or (firstOn hash atoms) := by
  induction atoms generalizing repo with
  | nil => simp [addMany, firstOn]
  | cons atom rest ih =>
    have whole : firstOn hash (atom :: rest) = (firstOn hash [atom]).or (firstOn hash rest) :=
      firstOn_append hash [atom] rest
    rw [addMany, ih, addOne_get, whole, Option.or_assoc]

/-- Exactly the atoms of absent hashes are reported as added. -/
theorem addMany_added (repo : CausalRepo T) (atoms : List (Atom T)) (hash : JsString) :
    firstOn hash (repo.addMany atoms).2 =
      if repo.atoms.get hash = none then firstOn hash atoms else none := by
  induction atoms generalizing repo with
  | nil => simp [addMany, firstOn]
  | cons atom rest ih =>
    have tail := ih (repo.addOne atom)
    rw [addOne_get] at tail
    have whole : firstOn hash (atom :: rest) = (firstOn hash [atom]).or (firstOn hash rest) :=
      firstOn_append hash [atom] rest
    simp only [addMany]
    by_cases same : atom.hash = hash
    · subst same
      cases present : repo.atoms.get atom.hash with
      | none => simp [firstOn]
      | some existing => simpa [present] using tail
    · have alone : firstOn hash [atom] = none := by simp [firstOn, same]
      rw [alone, Option.or_none] at tail
      rw [whole, alone, Option.none_or, ← tail]
      split
      · simp [firstOn, same]
      · rfl

theorem addMany_subset (repo : CausalRepo T) (atoms : List (Atom T)) (a : Atom T)
    (member : a ∈ (repo.addMany atoms).2) : a ∈ atoms := by
  induction atoms generalizing repo with
  | nil => cases member
  | cons atom rest ih =>
    simp only [addMany] at member
    split at member
    · rcases List.mem_cons.mp member with here | later
      · exact here ▸ List.mem_cons_self
      · exact List.mem_cons_of_mem _ (ih _ later)
    · exact List.mem_cons_of_mem _ (ih _ member)

theorem removeOne_get (repo : CausalRepo T) (removed hash : JsString) :
    (repo.removeOne removed).atoms.get hash = if hash = removed then none else repo.atoms.get hash := by
  cases present : repo.atoms.get removed with
  | none =>
    by_cases same : hash = removed
    · simp [removeOne, same, present]
    · simp [removeOne, same, present]
  | some existing => simp only [removeOne, present, OrderedMap.get_delete]

theorem removeMany_get (repo : CausalRepo T) (removed : List JsString) (hash : JsString) :
    (repo.removeMany removed).1.atoms.get hash =
      if hash ∈ removed then none else repo.atoms.get hash := by
  induction removed generalizing repo with
  | nil => simp [removeMany]
  | cons first rest ih =>
    rw [removeMany, ih, removeOne_get]
    by_cases later : hash ∈ rest
    · simp [later]
    · by_cases same : hash = first <;> simp [later, same]

/-- Every atom is kept under its own hash. -/
def Keyed (atoms : OrderedMap JsString (Atom T)) : Prop :=
  ∀ hash a, atoms.get hash = some a → a.hash = hash

theorem removeMany_removed (repo : CausalRepo T) (removed : List JsString)
    (keyed : Keyed repo.atoms) (hash : JsString) :
    (∃ a ∈ (repo.removeMany removed).2, a.hash = hash) ↔ hash ∈ removed ∧ repo.atoms.get hash ≠ none := by
  induction removed generalizing repo with
  | nil => simp [removeMany]
  | cons first rest ih =>
    have left : Keyed (repo.removeOne first).atoms := by
      intro h a found
      rw [removeOne_get] at found
      split at found
      · cases found
      · exact keyed h a found
    have tail := ih (repo.removeOne first) left
    rw [removeOne_get] at tail
    have split : (∃ a ∈ (repo.removeMany (first :: rest)).2, a.hash = hash) ↔
        (∃ a, repo.atoms.get first = some a ∧ a.hash = hash) ∨
          ∃ a ∈ ((repo.removeOne first).removeMany rest).2, a.hash = hash := by
      simp only [removeMany, List.mem_append, Option.mem_toList]
      constructor
      · intro ⟨a, member, named⟩
        rcases member with here | later
        · exact .inl ⟨a, here, named⟩
        · exact .inr ⟨a, later, named⟩
      · intro either
        rcases either with ⟨a, here, named⟩ | ⟨a, later, named⟩
        · exact ⟨a, .inl here, named⟩
        · exact ⟨a, .inr later, named⟩
    rw [split, tail]
    by_cases same : hash = first
    · subst same
      cases present : repo.atoms.get hash with
      | none => simp
      | some a => simp [keyed hash a present]
    · have other : ¬ ∃ a, repo.atoms.get first = some a ∧ a.hash = hash := by
        intro ⟨a, found, named⟩
        exact same (named.symm.trans (keyed first a found))
      simp [same, other]

theorem keyed_addMany (repo : CausalRepo T) (atoms : List (Atom T)) (keyed : Keyed repo.atoms) :
    Keyed (repo.addMany atoms).1.atoms := by
  intro hash a found
  rw [addMany_get] at found
  cases present : repo.atoms.get hash with
  | some existing =>
    rw [present, Option.some_or] at found
    exact keyed hash a (present.trans found)
  | none =>
    rw [present, Option.none_or, firstOn] at found
    simpa using List.find?_some found

theorem keyed_removeMany (repo : CausalRepo T) (removed : List JsString) (keyed : Keyed repo.atoms) :
    Keyed (repo.removeMany removed).1.atoms := by
  intro hash a found
  rw [removeMany_get] at found
  split at found
  · cases found
  · exact keyed hash a found

theorem keyed_atomMap (atoms : List (Atom T)) : Keyed (atomMap atoms) := by
  have all : ∀ (map : OrderedMap JsString (Atom T)), Keyed map →
      Keyed (atoms.foldl (fun map atom => map.set atom.hash atom) map) := by
    induction atoms with
    | nil => exact fun _ keyed => keyed
    | cons atom rest ih =>
      intro map keyed
      apply ih
      intro hash a found
      rw [OrderedMap.get_set] at found
      split at found
      · next same => rw [same, ← Option.some.inj found]
      · exact keyed hash a found
  exact all _ (fun hash a found => by cases found)

end CasualOS.RepoContents
