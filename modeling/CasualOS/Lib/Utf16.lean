import Mathlib.Algebra.GroupWithZero.Nat
import Mathlib.Algebra.Ring.Nat
import Mathlib.Data.List.Basic
import Mathlib.Data.Char
import Mathlib.Order.Fin.Basic

/-! UTF-16: texts of code units and of characters. -/

namespace Utf16

abbrev Unit16 := Fin 65536

instance units_exist : NeZero 65536 := ⟨by decide⟩

def unit (n : Nat) : Unit16 := Fin.ofNat 65536 n

/-- The code units of a character: one, or a pair of surrogates. -/
def encodeChar (c : Char) : List Unit16 :=
  if c.toNat < 0x10000 then [unit c.toNat]
  else [unit (0xD800 + (c.toNat - 0x10000) / 1024), unit (0xDC00 + (c.toNat - 0x10000) % 1024)]

def encode (chars : List Char) : List Unit16 := chars.flatMap encodeChar

def IsHigh (u : Unit16) : Prop := 0xD800 ≤ u.val ∧ u.val < 0xDC00

def IsLow (u : Unit16) : Prop := 0xDC00 ≤ u.val ∧ u.val < 0xE000

instance (u : Unit16) : Decidable (IsHigh u) := inferInstanceAs (Decidable (_ ∧ _))

instance (u : Unit16) : Decidable (IsLow u) := inferInstanceAs (Decidable (_ ∧ _))

/-- What stands for a surrogate without its other half. -/
def replacement : Char := Char.ofNat 0xFFFD

def decode : List Unit16 → List Char
  | [] => []
  | [u] => [if IsHigh u ∨ IsLow u then replacement else Char.ofNat u.val]
  | u :: v :: rest =>
    if IsHigh u then
      if IsLow v then
        Char.ofNat (0x10000 + (u.val - 0xD800) * 1024 + (v.val - 0xDC00)) :: decode rest
      else replacement :: decode (v :: rest)
    else if IsLow u then replacement :: decode (v :: rest)
    else Char.ofNat u.val :: decode (v :: rest)

theorem unit_val (n : Nat) (small : n < 65536) : (unit n).val = n := Nat.mod_eq_of_lt small

theorem char_bounds (c : Char) : c.toNat < 0xD800 ∨ 0xE000 ≤ c.toNat ∧ c.toNat < 0x110000 := by
  rcases c.valid with low | high
  · exact .inl low
  · have lower : 0xDFFF < c.toNat := high.1
    exact .inr ⟨by omega, high.2⟩

theorem decode_plain (u : Unit16) (rest : List Unit16) (high : ¬ IsHigh u) (low : ¬ IsLow u) :
    decode (u :: rest) = Char.ofNat u.val :: decode rest := by
  cases rest with
  | nil => simp [decode, high, low]
  | cons v rest => simp [decode, high, low]

theorem decode_encodeChar (c : Char) (rest : List Unit16) : decode (encodeChar c ++ rest) = c :: decode rest := by
  have bounds := char_bounds c
  unfold encodeChar
  split
  · next small =>
      have value := unit_val c.toNat small
      have high : ¬ IsHigh (unit c.toNat) := by
        unfold IsHigh
        rw [value]
        omega
      have low : ¬ IsLow (unit c.toNat) := by
        unfold IsLow
        rw [value]
        omega
      rw [List.singleton_append, decode_plain _ rest high low, value, Char.ofNat_toNat]
  · next large =>
      have first := unit_val (0xD800 + (c.toNat - 0x10000) / 1024) (by omega)
      have second := unit_val (0xDC00 + (c.toNat - 0x10000) % 1024) (by omega)
      have high : IsHigh (unit (0xD800 + (c.toNat - 0x10000) / 1024)) := by
        unfold IsHigh
        rw [first]
        omega
      have low : IsLow (unit (0xDC00 + (c.toNat - 0x10000) % 1024)) := by
        unfold IsLow
        rw [second]
        omega
      have whole : 0x10000 + (0xD800 + (c.toNat - 0x10000) / 1024 - 0xD800) * 1024 +
          (0xDC00 + (c.toNat - 0x10000) % 1024 - 0xDC00) = c.toNat := by omega
      simp only [List.cons_append, List.nil_append, decode, high, low, if_true, first, second, whole, Char.ofNat_toNat]

theorem decode_encode (chars : List Char) : decode (encode chars) = chars := by
  induction chars with
  | nil => rfl
  | cons c rest ih =>
    have split : encode (c :: rest) = encodeChar c ++ encode rest := List.flatMap_cons
    rw [split, decode_encodeChar, ih]

end Utf16
