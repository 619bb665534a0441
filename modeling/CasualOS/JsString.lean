import Mathlib.Data.List.Lex
import Mathlib.Order.Fin.Basic
import CasualOS.Lib.Utf16

/-! JavaScript strings as lists of UTF-16 code units, compared code unit by code unit. -/

namespace CasualOS

abbrev CodeUnit := Fin 65536

abbrev JsString := List CodeUnit

instance texts_lawful : LawfulBEq JsString := inferInstance

namespace JsString

/-- A literal of the source, given by its characters (all of them in the basic plane). -/
def lit (text : List Char) : JsString := text.map (fun c => Fin.ofNat 65536 c.toNat)

/-- `Number.prototype.toString` on the integers that it prints digit by digit. -/
def ofInt : Int → JsString
  | .ofNat n => lit (Nat.toDigits 10 n)
  | .negSucc n => lit ('-' :: Nat.toDigits 10 (n + 1))

theorem digit_code (n : Nat) (c : Char) (member : c ∈ Nat.toDigits 10 n) : 48 ≤ c.toNat ∧ c.toNat ≤ 57 := by
  have digit := Nat.isDigit_of_mem_toDigits (by decide) (by decide) member
  simp only [Char.isDigit, Bool.and_eq_true, decide_eq_true_eq] at digit
  exact ⟨digit.1, digit.2⟩

theorem lit_injective (left right : List Char) (leftSmall : ∀ c ∈ left, c.toNat < 65536)
    (rightSmall : ∀ c ∈ right, c.toNat < 65536) (same : lit left = lit right) : left = right := by
  induction left generalizing right with
  | nil => cases right <;> simp_all [lit]
  | cons c left ih =>
    cases right with
    | nil => simp [lit] at same
    | cons d right =>
      simp only [lit, List.map_cons, List.cons.injEq] at same
      have codes := congrArg Fin.val same.1
      simp only [Fin.ofNat, Nat.mod_eq_of_lt (leftSmall c List.mem_cons_self),
        Nat.mod_eq_of_lt (rightSmall d List.mem_cons_self)] at codes
      rw [Char.toNat_inj.mp codes, ih right (fun e member => leftSmall e (List.mem_cons_of_mem _ member))
        (fun e member => rightSmall e (List.mem_cons_of_mem _ member)) same.2]

theorem digits_injective (n m : Nat) (same : Nat.toDigits 10 n = Nat.toDigits 10 m) : n = m :=
  calc
    n = Nat.ofDigitChars 10 (Nat.toDigits 10 n) 0 := Nat.ofDigitChars_ten_toDigits.symm
    _ = Nat.ofDigitChars 10 (Nat.toDigits 10 m) 0 := by rw [same]
    _ = m := Nat.ofDigitChars_ten_toDigits

/-- The characters a printed integer is made of: a minus sign and decimal digits. -/
theorem ofInt_code (n : Int) (u : CodeUnit) (member : u ∈ ofInt n) : u.val = 45 ∨ 48 ≤ u.val ∧ u.val ≤ 57 := by
  have digits : ∀ k : Nat, ∀ v ∈ lit (Nat.toDigits 10 k), 48 ≤ v.val ∧ v.val ≤ 57 := by
    intro k v present
    obtain ⟨c, inside, rfl⟩ := List.mem_map.mp present
    have code := digit_code k c inside
    simp only [Fin.ofNat]
    omega
  cases n with
  | ofNat k => exact .inr (digits k u member)
  | negSucc k =>
    simp only [ofInt, lit, List.map_cons, List.mem_cons] at member
    rcases member with rfl | member
    · exact .inl rfl
    · exact .inr (digits (k + 1) u member)

theorem ofInt_injective (n m : Int) (same : ofInt n = ofInt m) : n = m := by
  have small : ∀ k : Nat, ∀ c ∈ Nat.toDigits 10 k, c.toNat < 65536 := by
    intro k c member
    have code := digit_code k c member
    omega
  have signSmall : ∀ k : Nat, ∀ c ∈ '-' :: Nat.toDigits 10 k, c.toNat < 65536 := by
    intro k c member
    rcases List.mem_cons.mp member with rfl | member
    · decide
    · exact small k c member
  have unsigned : ∀ i j : Nat, Nat.toDigits 10 i ≠ '-' :: Nat.toDigits 10 j := by
    intro i j equal
    have code := digit_code i '-' (equal ▸ List.mem_cons_self)
    exact absurd code (by decide)
  cases n with
  | ofNat i =>
    cases m with
    | ofNat j => rw [digits_injective i j (lit_injective _ _ (small i) (small j) same)]
    | negSucc j =>
      exact absurd (lit_injective _ _ (small i) (signSmall (j + 1)) same) (unsigned i (j + 1))
  | negSucc i =>
    cases m with
    | ofNat j =>
      exact absurd (lit_injective _ _ (small j) (signSmall (i + 1)) same.symm) (unsigned j (i + 1))
    | negSucc j =>
      have chars := lit_injective _ _ (signSmall (i + 1)) (signSmall (j + 1)) same
      have digits := digits_injective _ _ (List.cons.inj chars).2
      rw [Nat.succ.inj digits]

/-- A separator that does not occur in the tails cuts both strings at the same place. -/
theorem split_unique (separator : CodeUnit) (front back front' back' : JsString)
    (absent : separator ∉ back) (absent' : separator ∉ back')
    (same : front ++ separator :: back = front' ++ separator :: back') : front = front' ∧ back = back' := by
  induction front generalizing front' with
  | nil =>
    cases front' with
    | nil => exact ⟨rfl, (List.cons.inj same).2⟩
    | cons u front' =>
      have tails := (List.cons.inj same).2
      exact absurd (tails ▸ List.mem_append_right _ List.mem_cons_self) absent
  | cons u front ih =>
    cases front' with
    | nil =>
      have tails := (List.cons.inj same).2
      exact absurd (tails ▸ List.mem_append_right _ List.mem_cons_self) absent'
    | cons v front' =>
      simp only [List.cons_append, List.cons.injEq] at same
      have rest := ih front' same.2
      exact ⟨by rw [same.1, rest.1], rest.2⟩

end JsString

end CasualOS
