import Mathlib.Data.List.Basic
import Mathlib.Order.Fin.Basic

/-! Base64 with padding, on bytes given as numbers below 256. The digits are given by their UTF-16 code
units. -/

namespace Base64

/-- The code unit of the digit for six bits. -/
def digit (n : Nat) : Nat :=
  if n < 26 then n + 65
  else if n < 52 then n + 71
  else if n < 62 then n - 4
  else if n = 62 then 43
  else 47

/-- The six bits of a digit. -/
def bits (unit : Nat) : Option Nat :=
  if 65 ≤ unit ∧ unit ≤ 90 then some (unit - 65)
  else if 97 ≤ unit ∧ unit ≤ 122 then some (unit - 71)
  else if 48 ≤ unit ∧ unit ≤ 57 then some (unit + 4)
  else if unit = 43 then some 62
  else if unit = 47 then some 63
  else none

/-- The code unit that fills up the last group. -/
def padding : Nat := 61

def encode : List Nat → List Nat
  | [] => []
  | [a] => [digit (a / 4), digit (a % 4 * 16), padding, padding]
  | [a, b] => [digit (a / 4), digit (a % 4 * 16 + b / 16), digit (b % 16 * 4), padding]
  | a :: b :: c :: rest =>
    digit (a / 4) :: digit (a % 4 * 16 + b / 16) :: digit (b % 16 * 4 + c / 64) ::
      digit (c % 64) :: encode rest

def decode : List Nat → Option (List Nat)
  | [] => some []
  | p :: q :: r :: s :: rest =>
    match bits p, bits q, bits r, bits s with
    | some p, some q, some r, some s =>
      (decode rest).map
        (fun bytes => (p * 4 + q / 16) :: (q % 16 * 16 + r / 4) :: (r % 4 * 64 + s) :: bytes)
    | some p, some q, some r, none =>
      if s = padding ∧ rest = [] then some [p * 4 + q / 16, q % 16 * 16 + r / 4] else none
    | some p, some q, none, none =>
      if r = padding ∧ s = padding ∧ rest = [] then some [p * 4 + q / 16] else none
    | _, _, _, _ => none
  | _ => none

theorem bits_digit (n : Nat) (small : n < 64) : bits (digit n) = some n := by
  unfold digit
  split
  · next upper =>
      have unit : 65 ≤ n + 65 ∧ n + 65 ≤ 90 := by omega
      rw [bits, if_pos unit]
      simp
  · split
    · next lower =>
        have notUpper : ¬ (65 ≤ n + 71 ∧ n + 71 ≤ 90) := by omega
        have unit : 97 ≤ n + 71 ∧ n + 71 ≤ 122 := by omega
        rw [bits, if_neg notUpper, if_pos unit]
        simp
    · split
      · next number =>
          have notUpper : ¬ (65 ≤ n - 4 ∧ n - 4 ≤ 90) := by omega
          have notLower : ¬ (97 ≤ n - 4 ∧ n - 4 ≤ 122) := by omega
          have unit : 48 ≤ n - 4 ∧ n - 4 ≤ 57 := by omega
          rw [bits, if_neg notUpper, if_neg notLower, if_pos unit]
          have same : n - 4 + 4 = n := by omega
          rw [same]
      · split
        · next plus =>
            rw [plus]
            rfl
        · have slash : n = 63 := by omega
          rw [slash]
          rfl

theorem digit_unit (n : Nat) (small : n < 64) : digit n ≠ 46 ∧ digit n < 128 := by
  unfold digit
  split
  · omega
  · split
    · omega
    · split
      · omega
      · split <;> omega

/-- A full stop is no digit. -/
theorem encode_units (bytes : List Nat) (small : ∀ a ∈ bytes, a < 256) (unit : Nat)
    (member : unit ∈ encode bytes) : unit ≠ 46 ∧ unit < 128 := by
  have pad : padding ≠ 46 ∧ padding < 128 := by decide
  induction bytes using encode.induct with
  | case1 => simp [encode] at member
  | case2 a =>
    have boundA := small a (by simp)
    simp only [encode, List.mem_cons, List.not_mem_nil, or_false] at member
    rcases member with rfl | rfl | rfl | rfl
    · exact digit_unit _ (by omega)
    · exact digit_unit _ (by omega)
    · exact pad
    · exact pad
  | case3 a b =>
    have boundA := small a (by simp)
    have boundB := small b (by simp)
    simp only [encode, List.mem_cons, List.not_mem_nil, or_false] at member
    rcases member with rfl | rfl | rfl | rfl
    · exact digit_unit _ (by omega)
    · exact digit_unit _ (by omega)
    · exact digit_unit _ (by omega)
    · exact pad
  | case4 a b c rest ih =>
    have boundA := small a (by simp)
    have boundB := small b (by simp)
    have boundC := small c (by simp)
    simp only [encode, List.mem_cons] at member
    rcases member with rfl | rfl | rfl | rfl | later
    · exact digit_unit _ (by omega)
    · exact digit_unit _ (by omega)
    · exact digit_unit _ (by omega)
    · exact digit_unit _ (by omega)
    · exact ih (fun d inside => small d (by simp [inside])) later

theorem encode_ne_nil (bytes : List Nat) (filled : bytes ≠ []) : encode bytes ≠ [] := by
  intro none
  match bytes with
  | [] => exact filled rfl
  | [a] => simp [encode] at none
  | [a, b] => simp [encode] at none
  | a :: b :: c :: rest => simp [encode] at none

theorem decode_encode (bytes : List Nat) (small : ∀ a ∈ bytes, a < 256) : decode (encode bytes) = some bytes := by
  induction bytes using encode.induct with
  | case1 => rfl
  | case2 a =>
    have boundA := small a (by simp)
    have high := bits_digit (a / 4) (by omega)
    have low := bits_digit (a % 4 * 16) (by omega)
    have pad : bits padding = none := by decide
    have whole : a / 4 * 4 + a % 4 * 16 / 16 = a := by omega
    simp only [encode, decode, high, low, pad, and_self, if_true, whole]
  | case3 a b =>
    have boundA := small a (by simp)
    have boundB := small b (by simp)
    have first := bits_digit (a / 4) (by omega)
    have second := bits_digit (a % 4 * 16 + b / 16) (by omega)
    have third := bits_digit (b % 16 * 4) (by omega)
    have pad : bits padding = none := by decide
    have wholeA : a / 4 * 4 + (a % 4 * 16 + b / 16) / 16 = a := by omega
    have wholeB : (a % 4 * 16 + b / 16) % 16 * 16 + b % 16 * 4 / 4 = b := by omega
    simp only [encode, decode, first, second, third, pad, and_self, if_true, wholeA, wholeB]
  | case4 a b c rest ih =>
    have boundA := small a (by simp)
    have boundB := small b (by simp)
    have boundC := small c (by simp)
    have first := bits_digit (a / 4) (by omega)
    have second := bits_digit (a % 4 * 16 + b / 16) (by omega)
    have third := bits_digit (b % 16 * 4 + c / 64) (by omega)
    have fourth := bits_digit (c % 64) (by omega)
    have wholeA : a / 4 * 4 + (a % 4 * 16 + b / 16) / 16 = a := by omega
    have wholeB : (a % 4 * 16 + b / 16) % 16 * 16 + (b % 16 * 4 + c / 64) / 4 = b := by omega
    have wholeC : (b % 16 * 4 + c / 64) % 4 * 64 + c % 64 = c := by omega
    have later := ih (fun d inside => small d (by simp [inside]))
    simp only [encode, decode, first, second, third, fourth, later, Option.map_some, wholeA, wholeB, wholeC]

end Base64
