import Mathlib.Data.List.Basic

/-! Calls that take effect one after the other: what they make of a state, and which come first. -/

namespace Linear

variable {S Op : Type}

/-- A call that has taken effect, and the operation that it did. -/
structure Entry (Op : Type) where
  index : Nat
  op : Op
  deriving DecidableEq, Repr

def indices (order : List (Entry Op)) : List Nat := order.map (fun entry => entry.index)

theorem indices_append (order later : List (Entry Op)) :
    indices (order ++ later) = indices order ++ indices later := List.map_append

/-- Whatever must come before a call of the order does. -/
def Respects (earlier : Nat → Nat → Prop) (order : List (Entry Op)) : Prop :=
  ∀ front entry back, order = front ++ entry :: back → ∀ j, earlier j entry.index → j ∈ indices front

theorem respects_nil {earlier : Nat → Nat → Prop} : Respects earlier ([] : List (Entry Op)) :=
  fun front entry back same => by cases front <;> cases same

theorem split_last {order front back : List (Entry Op)} {last entry : Entry Op}
    (same : order ++ [last] = front ++ entry :: back) :
    (back = [] ∧ front = order ∧ entry = last) ∨
      ∃ rest, back = rest ++ [last] ∧ order = front ++ entry :: rest := by
  rcases List.eq_nil_or_concat back with nothing | ⟨rest, final, back⟩
  · rw [nothing] at same
    have ⟨orders, ends⟩ := List.append_inj' same rfl
    exact .inl ⟨nothing, orders.symm, (List.cons.inj ends).1.symm⟩
  · rw [back, List.concat_eq_append, ← List.cons_append, ← List.append_assoc] at same
    have ⟨orders, ends⟩ := List.append_inj' same rfl
    rw [(List.cons.inj ends).1]
    exact .inr ⟨rest, by rw [back, List.concat_eq_append], orders⟩

/-- A call may come last when all that must come before it is there. -/
theorem Respects.append {earlier : Nat → Nat → Prop} {order : List (Entry Op)} {last : Entry Op}
    (respects : Respects earlier order) (there : ∀ j, earlier j last.index → j ∈ indices order) :
    Respects earlier (order ++ [last]) := by
  intro front entry back same j before
  rcases split_last same with ⟨_, fronts, entries⟩ | ⟨rest, _, orders⟩
  · rw [fronts]
    exact there j (entries ▸ before)
  · exact respects front entry rest orders j before

theorem Respects.weaken {earlier wider : Nat → Nat → Prop} {order : List (Entry Op)} (respects : Respects wider order)
    (less : ∀ i ∈ indices order, ∀ j, earlier j i → wider j i) : Respects earlier order := by
  intro front entry back same j before
  apply respects front entry back same j
  apply less _ _ j before
  rw [same, indices_append]
  exact List.mem_append_right _ List.mem_cons_self

section Results

variable (apply : S → Op → S)

def result (start : S) (order : List (Entry Op)) : S :=
  order.foldl (fun state entry => apply state entry.op) start

theorem result_append (start : S) (order later : List (Entry Op)) :
    result apply start (order ++ later) = result apply (result apply start order) later := List.foldl_append

/-- Each operation meets a condition in the state that it is done in. -/
def Meets (Q : S → Op → Prop) : S → List (Entry Op) → Prop
  | _, [] => True
  | state, entry :: rest => Q state entry.op ∧ Meets Q (apply state entry.op) rest

variable {apply} {Q : S → Op → Prop}

theorem meets_append {start : S} {order later : List (Entry Op)} : Meets apply Q start (order ++ later) ↔
      Meets apply Q start order ∧ Meets apply Q (result apply start order) later := by
  induction order generalizing start with
  | nil => exact ⟨fun meets => ⟨trivial, meets⟩, And.right⟩
  | cons entry rest ih => exact (and_congr_right (fun _ => ih)).trans and_assoc.symm

theorem meets_of_all (all : ∀ state op, Q state op) (start : S) (order : List (Entry Op)) :
    Meets apply Q start order := by
  induction order generalizing start with
  | nil => trivial
  | cons entry rest ih => exact ⟨all _ _, ih _⟩

/-- What every operation keeps where it meets the condition holds in the end. -/
theorem result_keeps {P : S → Prop} {start : S} {order : List (Entry Op)}
    (keeps : ∀ entry ∈ order, ∀ state, Q state entry.op → P state → P (apply state entry.op))
    (meets : Meets apply Q start order) (first : P start) : P (result apply start order) := by
  induction order generalizing start with
  | nil => exact first
  | cons entry rest ih =>
    exact ih (fun later member => keeps later (List.mem_cons_of_mem _ member)) meets.2
      (keeps entry List.mem_cons_self start meets.1 first)

/-- What one operation brings about and the later ones keep holds in the end. -/
theorem result_brings {P : S → Prop} {start : S} {front back : List (Entry Op)} {entry : Entry Op}
    (brings : ∀ state, P (apply state entry.op))
    (keeps : ∀ later ∈ back, ∀ state, Q state later.op → P state → P (apply state later.op))
    (meets : Meets apply Q start (front ++ entry :: back)) :
    P (result apply start (front ++ entry :: back)) := by
  rw [result_append]
  change P (result apply (apply (result apply start front) entry.op) back)
  exact result_keeps keeps (meets_append.mp meets).2.2 (brings _)

end Results

end Linear
