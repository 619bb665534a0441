import Mathlib.Algebra.Order.BigOperators.Group.List
import Mathlib.Algebra.Order.Field.Basic
import Mathlib.Tactic.Linarith
import Mathlib.Tactic.Ring

/-! Means of lists of numbers, and how far the numbers are from a centre. -/

namespace Averages

variable {F : Type} [Field F]

def deviations (centre : F) (numbers : List F) : F :=
  (numbers.map fun number => (number - centre) * (number - centre)).sum

variable {numbers : List F}

theorem deviations_same {centre : F} (same : ∀ number ∈ numbers, number = centre) : deviations centre numbers = 0 := by
  refine List.sum_eq_zero fun square member => ?_
  obtain ⟨number, inside, rfl⟩ := List.mem_map.mp member
  rw [same number inside, sub_self, mul_zero]

variable [LinearOrder F] [IsStrictOrderedRing F]

theorem sum_const_le {low : F} (above : ∀ number ∈ numbers, low ≤ number) : numbers.length * low ≤ numbers.sum := by
  have bound := List.card_nsmul_le_sum numbers low above
  rwa [nsmul_eq_mul] at bound

theorem mean_between (some : numbers ≠ []) : (∃ low ∈ numbers, low ≤ numbers.sum / numbers.length) ∧
      ∃ high ∈ numbers, numbers.sum / numbers.length ≤ high := by
  have size : (0 : F) < numbers.length := Nat.cast_pos.mpr (List.length_pos_iff.mpr some)
  have whole : (numbers.map fun _ => numbers.sum / numbers.length).sum = numbers.sum := by
    rw [List.map_const', List.sum_replicate, nsmul_eq_mul, mul_div_cancel₀ _ size.ne']
  constructor
  · exact List.exists_le_of_sum_le some id _ (by rw [List.map_id, whole])
  · exact List.exists_le_of_sum_le some _ id (by rw [List.map_id, whole])

theorem eq_of_far {centre : F} (many : 2 ≤ numbers.length) (far : ∀ number ∈ numbers,
      deviations centre numbers / ((numbers.length : F) - 1) ≤ (centre - number) * (centre - number)) :
    ∀ number ∈ numbers, number = centre := by
  have size : (0 : F) < (numbers.length : F) - 1 := by
    have two : (2 : F) ≤ numbers.length := by exact_mod_cast many
    linarith
  have low : ∀ square ∈ numbers.map (fun number => (number - centre) * (number - centre)),
      deviations centre numbers / ((numbers.length : F) - 1) ≤ square := by
    intro square member
    obtain ⟨number, inside, rfl⟩ := List.mem_map.mp member
    calc deviations centre numbers / ((numbers.length : F) - 1)
      _ ≤ (centre - number) * (centre - number) := far number inside
      _ = (number - centre) * (number - centre) := by ring
  have bound := sum_const_le low
  rw [List.length_map] at bound
  have share : deviations centre numbers / ((numbers.length : F) - 1) * ((numbers.length : F) - 1) =
      deviations centre numbers := div_mul_cancel₀ _ size.ne'
  have small : deviations centre numbers / ((numbers.length : F) - 1) ≤ 0 := by
    have sum : (numbers.map fun number => (number - centre) * (number - centre)).sum = deviations centre numbers := rfl
    rw [sum] at bound
    linarith
  have none : deviations centre numbers ≤ 0 := share ▸ mul_nonpos_of_nonpos_of_nonneg small size.le
  intro number inside
  have nonneg : ∀ square ∈ numbers.map (fun number => (number - centre) * (number - centre)), 0 ≤ square := by
    intro square member
    obtain ⟨other, -, rfl⟩ := List.mem_map.mp member
    exact mul_self_nonneg _
  have square := List.single_le_sum nonneg _ (List.mem_map_of_mem inside)
  exact sub_eq_zero.mp (mul_self_eq_zero.mp (le_antisymm (square.trans none) (mul_self_nonneg _)))

theorem eq_of_mean {mean : F} (above : ∀ number ∈ numbers, mean ≤ number)
    (sum : numbers.sum = numbers.length * mean) : ∀ number ∈ numbers, number = mean := by
  intro number inside
  by_contra apart
  have more : (numbers.map fun _ => mean).sum < (numbers.map id).sum :=
    List.sum_lt_sum _ _ above ⟨number, inside, lt_of_le_of_ne (above number inside) (Ne.symm apart)⟩
  rw [List.map_id, sum, List.map_const', List.sum_replicate, nsmul_eq_mul] at more
  exact lt_irrefl _ more

theorem mean_of_same {common mean : F} (some : numbers ≠ [])
    (same : ∀ number ∈ numbers, number = common) (sum : numbers.sum = numbers.length * mean) : common = mean := by
  have size : (numbers.length : F) ≠ 0 := Nat.cast_ne_zero.mpr fun none => some (List.length_eq_zero_iff.mp none)
  rw [List.eq_replicate_iff.mpr ⟨rfl, same⟩, List.sum_replicate, nsmul_eq_mul, List.length_replicate] at sum
  exact mul_left_cancel₀ size sum

end Averages
