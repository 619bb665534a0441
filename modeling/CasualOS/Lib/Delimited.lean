import Mathlib.Data.List.Basic
import Mathlib.Data.List.Sort

/-! Texts that are put together from parts: with separators, in lines, unit by unit, and in sorted order.
What the parts are can be read off the text. -/

namespace Delimited

open List (flatMap_cons mem_cons_of_mem mem_cons_self)

/-! ### Separators -/

section Separators

variable {A : Type} {sep : A}

theorem append_sep_inj {front front' back back' : List A} (absent : sep ∉ front) (absent' : sep ∉ front')
    (same : front ++ sep :: back = front' ++ sep :: back') : front = front' ∧ back = back' := by
  induction front generalizing front' with
  | nil =>
    cases front' with
    | nil => exact ⟨rfl, (List.cons.inj same).2⟩
    | cons first rest => exact absurd ((List.cons.inj same).1 ▸ mem_cons_self) absent'
  | cons first rest ih =>
    cases front' with
    | nil => exact absurd ((List.cons.inj same).1 ▸ mem_cons_self) absent
    | cons first' rest' =>
      have ⟨heads, tails⟩ := List.cons.inj same
      have ⟨fronts, backs⟩ := ih (fun member => absent (mem_cons_of_mem _ member))
        (fun member => absent' (mem_cons_of_mem _ member)) tails
      exact ⟨by rw [heads, fronts], backs⟩

/-- A part between separators. -/
structure Part (sep : A) (text : List A) : Prop where
  filled : text ≠ []
  whole : sep ∉ text

def join (sep : A) : List (List A) → List A
  | [] => []
  | [part] => part
  | part :: next :: rest => part ++ sep :: join sep (next :: rest)

theorem join_ne_nil {part : List A} {rest : List (List A)} (filled : part ≠ []) : join sep (part :: rest) ≠ [] := by
  cases rest with
  | nil => exact filled
  | cons next rest => exact List.append_ne_nil_of_left_ne_nil filled _

theorem sep_mem_join (part next : List A) (rest : List (List A)) : sep ∈ join sep (part :: next :: rest) :=
  List.mem_append_right _ mem_cons_self

theorem mem_join {parts : List (List A)} {a : A} (member : a ∈ join sep parts) :
    a = sep ∨ ∃ part ∈ parts, a ∈ part := by
  induction parts with
  | nil => cases member
  | cons part rest ih =>
    cases rest with
    | nil => exact .inr ⟨part, mem_cons_self, member⟩
    | cons next rest =>
      rcases List.mem_append.mp member with front | back
      · exact .inr ⟨part, mem_cons_self, front⟩
      · rcases List.mem_cons.mp back with same | later
        · exact .inl same
        · rcases ih later with same | ⟨text, inside, there⟩
          · exact .inl same
          · exact .inr ⟨text, mem_cons_of_mem part inside, there⟩

theorem join_inj {parts parts' : List (List A)} (separate : ∀ part ∈ parts, Part sep part)
    (separate' : ∀ part ∈ parts', Part sep part) (same : join sep parts = join sep parts') : parts = parts' := by
  induction parts generalizing parts' with
  | nil =>
    cases parts' with
    | nil => rfl
    | cons part rest => exact absurd same.symm (join_ne_nil (separate' part mem_cons_self).filled)
  | cons part rest ih =>
    have first := separate part mem_cons_self
    cases parts' with
    | nil => exact absurd same (join_ne_nil first.filled)
    | cons part' rest' =>
      have first' := separate' part' mem_cons_self
      have later := fun text member => separate text (mem_cons_of_mem part member)
      have later' := fun text member => separate' text (mem_cons_of_mem part' member)
      cases rest with
      | nil =>
        cases rest' with
        | nil => exact congrArg (fun text => [text]) same
        | cons next' rest' =>
          have inside : sep ∈ join sep [part] := same ▸ sep_mem_join part' next' rest'
          exact absurd inside first.whole
      | cons next rest =>
        cases rest' with
        | nil =>
          have inside : sep ∈ join sep [part'] := same ▸ sep_mem_join part next rest
          exact absurd inside first'.whole
        | cons next' rest' =>
          have ⟨fronts, backs⟩ := append_sep_inj first.whole first'.whole same
          rw [fronts, ih later later' backs]

def lines (sep : A) (parts : List (List A)) : List A := parts.flatMap (fun part => part ++ [sep])

theorem lines_cons (part : List A) (rest : List (List A)) (back : List A) :
    lines sep (part :: rest) ++ back = part ++ sep :: (lines sep rest ++ back) := by
  simp [lines]

theorem lines_inj {parts parts' : List (List A)} {back back' : List A} (separate : ∀ part ∈ parts, Part sep part)
    (separate' : ∀ part ∈ parts', Part sep part)
    (same : lines sep parts ++ sep :: back = lines sep parts' ++ sep :: back') :
    parts = parts' ∧ back = back' := by
  induction parts generalizing parts' with
  | nil =>
    cases parts' with
    | nil => exact ⟨rfl, (List.cons.inj same).2⟩
    | cons part rest =>
      have first := separate' part mem_cons_self
      rw [lines_cons] at same
      exact absurd (append_sep_inj List.not_mem_nil first.whole same).1.symm first.filled
  | cons part rest ih =>
    have first := separate part mem_cons_self
    cases parts' with
    | nil =>
      rw [lines_cons] at same
      exact absurd (append_sep_inj first.whole List.not_mem_nil same).1 first.filled
    | cons part' rest' =>
      have first' := separate' part' mem_cons_self
      rw [lines_cons, lines_cons] at same
      have ⟨fronts, later⟩ := append_sep_inj first.whole first'.whole same
      have ⟨rests, backs⟩ := ih (fun text member => separate text (mem_cons_of_mem part member))
        (fun text member => separate' text (mem_cons_of_mem part' member)) later
      exact ⟨by rw [fronts, rests], backs⟩

end Separators

/-! ### Codes -/

section Codes

variable {A B C : Type}

/-- Lists that one reading cannot tell apart cannot be told apart by a coarser one. -/
theorem map_eq_of_map_eq {fine : A → B} {coarse : A → C} {first second : List A}
    (tells : ∀ a ∈ first, ∀ b ∈ second, fine a = fine b → coarse a = coarse b)
    (same : first.map fine = second.map fine) : first.map coarse = second.map coarse := by
  induction first generalizing second with
  | nil =>
    cases second with
    | nil => rfl
    | cons b rest => cases same
  | cons a rest ih =>
    cases second with
    | nil => cases same
    | cons b rest' =>
      have ⟨heads, tails⟩ := List.cons.inj same
      rw [List.map_cons, List.map_cons, tells a mem_cons_self b mem_cons_self heads]
      rw [ih (fun c member d member' =>
        tells c (mem_cons_of_mem a member) d (mem_cons_of_mem b member')) tails]

/-- Codes that can be read off the front of a text. -/
theorem flatMap_injective {code : B → List A} {read : List A → Option (B × List A)}
    (reads : ∀ b rest, read (code b ++ rest) = some (b, rest)) (empty : read [] = none) {first second : List B}
    (same : first.flatMap code = second.flatMap code) : first = second := by
  induction first generalizing second with
  | nil =>
    cases second with
    | nil => rfl
    | cons b rest =>
      have there := reads b (rest.flatMap code)
      rw [← flatMap_cons, ← same, List.flatMap_nil, empty] at there
      cases there
  | cons b rest ih =>
    cases second with
    | nil =>
      have there := reads b (rest.flatMap code)
      rw [← flatMap_cons, same, List.flatMap_nil, empty] at there
      cases there
    | cons b' rest' =>
      rw [flatMap_cons, flatMap_cons] at same
      have both := (reads b (rest.flatMap code)).symm.trans (same ▸ reads b' (rest'.flatMap code))
      have ⟨heads, tails⟩ := Prod.mk.inj (Option.some.inj both)
      rw [heads, ih tails]

end Codes

/-! ### Sorted order -/

section Sorting

variable {A K : Type} [LinearOrder K] (key : A → K)

def sortByKey (entries : List A) : List A := entries.insertionSort (fun first second => key first ≤ key second)

theorem perm_sortByKey (entries : List A) : (sortByKey key entries).Perm entries := List.perm_insertionSort _ _

variable {key}

/-- Entries of different keys come in one order only. -/
theorem sorted_strictly {entries : List A} (apart : (entries.map key).Nodup) :
    (sortByKey key entries).Pairwise (fun first second => key first < key second) := by
  have sorted : (sortByKey key entries).Pairwise (fun first second => key first ≤ key second) :=
    List.pairwise_insertionSort _ _
  have distinct : ((sortByKey key entries).map key).Nodup :=
    (((perm_sortByKey key entries).map key).nodup_iff).mpr apart
  exact (sorted.and (List.pairwise_map.mp distinct)).imp (fun both => lt_of_le_of_ne both.1 both.2)

theorem eq_of_perm_sorted {first second : List A} (sorted : first.Pairwise (fun left right => key left < key right))
    (sorted' : second.Pairwise (fun left right => key left < key right)) (same : first.Perm second) :
    first = second :=
  same.eq_of_pairwise (fun _ _ _ _ left right => absurd left (lt_asymm right)) sorted sorted'

end Sorting

end Delimited
