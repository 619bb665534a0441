import Mathlib.Data.List.Basic

/-! Lists in which every element has a parent before it. -/

namespace Supported

variable {α : Type} {parent : α → α → Prop}

/-- Each element of the list has a parent among `seen` or the elements before it. -/
def Covered (parent : α → α → Prop) : List α → List α → Prop
  | _, [] => True
  | seen, d :: l => (∃ p ∈ seen, parent p d) ∧ Covered parent (seen ++ [d]) l

variable {seen seen' l m front after s : List α} {c d start : α}

@[simp] theorem covered_nil : Covered parent seen [] := trivial

theorem covered_cons : Covered parent seen (d :: l) ↔
    (∃ p ∈ seen, parent p d) ∧ Covered parent (seen ++ [d]) l := Iff.rfl

theorem covered_append : Covered parent seen (l ++ m) ↔ Covered parent seen l ∧ Covered parent (seen ++ l) m := by
  induction l generalizing seen with
  | nil => simp
  | cons d l ih =>
    rw [List.cons_append, covered_cons, covered_cons, ih, and_assoc]
    simp

/-- Parents that no element needs can be left out. -/
theorem Covered.change (covered : Covered parent seen l)
    (enough : ∀ d ∈ l, ∀ p ∈ seen, parent p d → p ∈ seen') : Covered parent seen' l := by
  induction l generalizing seen seen' with
  | nil => trivial
  | cons d l ih =>
    have first := covered.1
    rcases first with ⟨p, inSeen, link⟩
    refine ⟨⟨p, enough d List.mem_cons_self p inSeen link, link⟩, ih covered.2 ?_⟩
    intro e member q inSeen' link'
    rcases List.mem_append.mp inSeen' with old | new
    · exact List.mem_append_left _ (enough e (List.mem_cons_of_mem _ member) q old link')
    · exact List.mem_append_right _ new

theorem Covered.mono (covered : Covered parent seen l) (more : ∀ p ∈ seen, p ∈ seen') : Covered parent seen' l :=
  covered.change (fun _ _ p member _ => more p member)

theorem Covered.at (covered : Covered parent seen (front ++ d :: after)) : ∃ p ∈ seen ++ front, parent p d :=
  (covered_append.mp covered).2.1

theorem Covered.parent_of (covered : Covered parent seen l) (member : d ∈ l) : ∃ p ∈ seen ++ l, parent p d := by
  rcases List.append_of_mem member with ⟨front, after, rfl⟩
  rcases covered.at with ⟨p, inside, link⟩
  refine ⟨p, ?_, link⟩
  rcases List.mem_append.mp inside with old | new
  · exact List.mem_append_left _ old
  · exact List.mem_append_right _ (List.mem_append_left _ new)

/-- One parent is enough for all. -/
theorem covered_of_root (root : α) (inSeen : root ∈ seen) (links : ∀ d ∈ l, parent root d) : Covered parent seen l := by
  induction l generalizing seen with
  | nil => trivial
  | cons d l ih =>
    refine ⟨⟨root, inSeen, links d List.mem_cons_self⟩, ?_⟩
    exact ih (List.mem_append_left _ inSeen) (fun e later => links e (List.mem_cons_of_mem _ later))

/-- A covered block goes in anywhere after the parent of its first element. -/
theorem Covered.graft (covered : Covered parent seen (front ++ after)) (block : Covered parent [start] s)
    (found : c ∈ seen ++ front) (link : parent c start) :
    Covered parent seen (front ++ (start :: s) ++ after) := by
  rw [covered_append] at covered
  rw [covered_append, covered_append]
  refine ⟨⟨covered.1, ⟨c, found, link⟩, block.mono ?_⟩, covered.2.mono ?_⟩
  · intro p member
    exact List.mem_append_right _ member
  · intro p member
    simp only [List.mem_append] at member ⊢
    exact member.imp_right .inl

/-- A part that is nobody's parent comes out. -/
theorem Covered.cut (covered : Covered parent seen (front ++ s ++ after))
    (unused : ∀ d ∈ after, ∀ p ∈ s, ¬ parent p d) : Covered parent seen (front ++ after) := by
  rw [covered_append, covered_append] at covered
  rw [covered_append]
  refine ⟨covered.1.1, covered.2.change ?_⟩
  intro d member p inSeen link
  simp only [List.mem_append] at inSeen ⊢
  rcases inSeen with old | new | inside
  · exact .inl old
  · exact .inr new
  · exact absurd link (unused d member p inside)

/-- What passes from parents to children holds of the whole list. -/
theorem Covered.inherit {good : α → Prop} (covered : Covered parent seen l)
    (start : ∀ p ∈ seen, good p) (pass : ∀ p d, parent p d → good p → good d) : ∀ d ∈ l, good d := by
  induction l generalizing seen with
  | nil => simp
  | cons e l ih =>
    rcases covered.1 with ⟨p, inSeen, link⟩
    have first : good e := pass p e link (start p inSeen)
    intro d member
    rcases List.mem_cons.mp member with same | later
    · exact same ▸ first
    · refine ih covered.2 ?_ d later
      intro q inside
      rcases List.mem_append.mp inside with old | new
      · exact start q old
      · exact List.mem_singleton.mp new ▸ first

/-- A list whose elements after the first have their parents before them. -/
def Grounded (parent : α → α → Prop) : List α → Prop
  | [] => False
  | root :: rest => Covered parent [root] rest

theorem grounded_single (root : α) : Grounded parent [root] := trivial

theorem Grounded.filled (grounded : Grounded parent l) : l ≠ [] := by
  intro empty
  exact (empty ▸ grounded : Grounded parent [])

theorem Covered.weaken {wider : α → α → Prop} (covered : Covered parent seen l)
    (imply : ∀ p d, parent p d → wider p d) : Covered wider seen l := by
  induction l generalizing seen with
  | nil => trivial
  | cons d l ih =>
    rcases covered.1 with ⟨p, inSeen, link⟩
    exact ⟨⟨p, inSeen, imply p d link⟩, ih covered.2⟩

theorem Grounded.weaken {wider : α → α → Prop} (grounded : Grounded parent l)
    (imply : ∀ p d, parent p d → wider p d) : Grounded wider l := by
  cases l with
  | nil => exact grounded
  | cons root rest => exact Covered.weaken grounded imply

theorem Grounded.graft (grounded : Grounded parent (front ++ after))
    (block : Grounded parent (start :: s)) (found : c ∈ front) (link : parent c start) :
    Grounded parent (front ++ (start :: s) ++ after) := by
  cases front with
  | nil => cases found
  | cons root front => exact Covered.graft grounded block found link

theorem Grounded.cut (grounded : Grounded parent (front ++ s ++ after)) (inner : front ≠ [])
    (unused : ∀ d ∈ after, ∀ p ∈ s, ¬ parent p d) : Grounded parent (front ++ after) := by
  cases front with
  | nil => exact absurd rfl inner
  | cons root front => exact Covered.cut grounded unused

/-- Without its first element the list is grounded when only the next one needed it. -/
theorem Grounded.tail {root : α} (grounded : Grounded parent (root :: d :: l))
    (single : ∀ e ∈ l, ¬ parent root e) : Grounded parent (d :: l) := by
  apply Covered.change grounded.2
  intro e member p inSeen link
  rcases List.mem_cons.mp inSeen with first | second
  · exact absurd (first ▸ link) (single e member)
  · exact second

theorem Grounded.at (grounded : Grounded parent (front ++ d :: after)) (inner : front ≠ []) :
    ∃ p ∈ front, parent p d := by
  cases front with
  | nil => exact absurd rfl inner
  | cons root front => exact Covered.at grounded

theorem Grounded.parent_of (grounded : Grounded parent l) (member : d ∈ l.tail) : ∃ p ∈ l, parent p d := by
  cases l with
  | nil => cases member
  | cons root rest => exact Covered.parent_of grounded member

theorem Grounded.inherit {good : α → Prop} {root : α} {rest : List α}
    (grounded : Grounded parent (root :: rest)) (start : good root)
    (pass : ∀ p d, parent p d → good p → good d) : ∀ d ∈ rest, good d := by
  apply Covered.inherit grounded _ pass
  intro p member
  exact List.mem_singleton.mp member ▸ start

end Supported
