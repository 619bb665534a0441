import Mathlib.Data.List.TakeWhile
import CasualOS.TagValues

/-! The texts that `isNumber` takes for numbers, what `parseNumber` reads of them, and the texts of numbers,
vectors and rotations. -/

namespace CasualOS.NumberTexts

open AuxRuntime
open List (cons_ne_nil mem_cons not_mem_nil)

/-! ### Numbers as texts -/

structure Digits where
  text : JsString
  isDigits : digits text = true

/-- What `Number.prototype.toString` writes for a number other than `NaN`; an exponent has a sign. -/
inductive Numeral where
  | infinity (negative : Bool)
  | decimal (negative : Bool) (whole : Digits) (fraction : Option Digits) (exponent : Option (Bool × Digits))

def infinityText : JsString := JsString.lit ['I', 'n', 'f', 'i', 'n', 'i', 't', 'y']

def signed (negative : Bool) (text : JsString) : JsString := if negative then 45 :: text else text

namespace Numeral

def fractionText : Option Digits → JsString
  | none => []
  | some fraction => 46 :: fraction.text

def exponentText : Option (Bool × Digits) → JsString
  | none => []
  | some (negative, exponent) => 101 :: (if negative then 45 else 43) :: exponent.text

def text : Numeral → JsString
  | .infinity negative => signed negative infinityText
  | .decimal negative whole fraction exponent =>
    signed negative (whole.text ++ fractionText fraction ++ exponentText exponent)

/-- The number is so large that its exponent is written with a plus sign. -/
def hasPlus : Numeral → Bool
  | .decimal _ _ _ (some (negative, _)) => !negative
  | _ => false

end Numeral

/-! ### parseFloat -/

def isStrWhiteSpace (c : CodeUnit) : Bool :=
  c.val ∈ [9, 10, 11, 12, 13, 32, 0xA0, 0x1680, 0x2028, 0x2029, 0x202F, 0x205F, 0x3000, 0xFEFF] ||
    (0x2000 ≤ c && c ≤ 0x200A)

def dropSign : JsString → JsString
  | c :: rest => if c = 43 ∨ c = 45 then rest else c :: rest
  | [] => []

def isExponentPart : JsString → Bool
  | [] => true
  | c :: rest => (c = 101 || c = 69) && digits (dropSign rest)

def isStrUnsignedDecimal (text : JsString) : Bool :=
  text = infinityText ||
    match text.dropWhile isDigit with
    | [] => !(text.takeWhile isDigit).isEmpty
    | c :: rest =>
      if c = 46 then
        (!(text.takeWhile isDigit).isEmpty || !(rest.takeWhile isDigit).isEmpty) &&
          isExponentPart (rest.dropWhile isDigit)
      else !(text.takeWhile isDigit).isEmpty && isExponentPart (c :: rest)

def isStrDecimalLiteral (text : JsString) : Bool := isStrUnsignedDecimal (dropSign text)

/-- The numbers other than `NaN`, with how they are written and the number that a decimal literal stands for. -/
structure Numbers (N : Type) where
  numeral : N → Numeral
  strDecimal : JsString → N
  infinity : Bool → N
  strDecimal_numeral : ∀ x, strDecimal (numeral x).text = x
  numeral_infinity : ∀ negative, numeral (infinity negative) = .infinity negative

section Parse

variable {N : Type} (numbers : Numbers N)

/-- The longest prefix that is a literal, and the text that is left unread; nothing for `NaN`. -/
def parseFloat (text : JsString) : Option (N × JsString) :=
  let trimmed := text.dropWhile isStrWhiteSpace
  ((List.range (trimmed.length + 1)).reverse.find? fun n => isStrDecimalLiteral (trimmed.take n)).map fun n =>
    (numbers.strDecimal (trimmed.take n), trimmed.drop n)

def parseNumber (value : JsString) : Option (N × JsString) :=
  let text := parseTagged numberTagPrefix value
  if isNumber text then
    if toLowerCase text = infinity then some (numbers.infinity false, [])
    else if toLowerCase text = 45 :: infinity then some (numbers.infinity true, [])
    else parseFloat numbers text
  else none

def ReadsWhole (value : JsString) : Prop := ∃ x, parseNumber numbers value = some (x, [])

/-! ### Vectors and rotations -/

structure BotVector (C : Type) where
  x : C
  y : C
  z : Option C

structure Quaternion (C : Type) where
  x : C
  y : C
  z : C
  w : C

def BotVector.read {C : Type} (vector : BotVector C) : BotVector (Option C) :=
  { x := some vector.x, y := some vector.y, z := vector.z.map some }

def BotVector.components {C : Type} (vector : BotVector C) : List C := vector.x :: vector.y :: vector.z.toList

def Quaternion.read {C : Type} (q : Quaternion C) : Quaternion (Option C) :=
  { x := some q.x, y := some q.y, z := some q.z, w := some q.w }

def Quaternion.components {C : Type} (q : Quaternion C) : List C := [q.x, q.y, q.z, q.w]

def formatBotVector (vector : BotVector N) : JsString :=
  vectorTagPrefix ++ (numbers.numeral vector.x).text ++ 44 :: (numbers.numeral vector.y).text ++
    vector.z.elim [] fun z => 44 :: (numbers.numeral z).text

def formatBotRotation (q : Quaternion N) : JsString :=
  rotationTagPrefix ++ (numbers.numeral q.x).text ++ 44 :: (numbers.numeral q.y).text ++
    44 :: (numbers.numeral q.z).text ++ 44 :: (numbers.numeral q.w).text

def splitComma (text : JsString) : Option (JsString × JsString) :=
  match text.dropWhile (· ≠ 44) with
  | [] => none
  | _ :: rest => some (text.takeWhile (· ≠ 44), rest)

/-- The number of a text, nothing for `NaN`. -/
def component (text : JsString) : Option N := (parseNumber numbers text).map Prod.fst

def parseBotVector (value : JsString) : Option (BotVector (Option N)) :=
  if vectorTagPrefix.isPrefixOf value then
    (splitComma (value.drop vectorTagPrefix.length)).map fun first =>
      match splitComma first.2 with
      | none => { x := component numbers first.1, y := component numbers first.2, z := none }
      | some second =>
        { x := component numbers first.1, y := component numbers second.1
          z := some (component numbers second.2) }
  else none

/-- The operations of numbers, with nothing for `NaN`. -/
structure Arithmetic (N : Type) where
  add : N → N → Option N
  mul : N → N → Option N
  div : N → N → Option N
  sqrt : N → Option N

def lift (op : N → N → Option N) (first second : Option N) : Option N :=
  first.bind fun x => second.bind fun y => op x y

def Quaternion.length (arithmetic : Arithmetic N) (q : Quaternion (Option N)) : Option N :=
  let square (x : Option N) := lift arithmetic.mul x x
  (lift arithmetic.add (lift arithmetic.add (lift arithmetic.add (square q.x) (square q.y)) (square q.z))
    (square q.w)).bind arithmetic.sqrt

def Quaternion.normalize (arithmetic : Arithmetic N) (q : Quaternion (Option N)) : Quaternion (Option N) :=
  let length := q.length arithmetic
  { x := lift arithmetic.div q.x length, y := lift arithmetic.div q.y length
    z := lift arithmetic.div q.z length, w := lift arithmetic.div q.w length }

def parseBotRotation (arithmetic : Arithmetic N) (value : JsString) : Option (Quaternion (Option N)) :=
  if rotationTagPrefix.isPrefixOf value then
    (splitComma (value.drop rotationTagPrefix.length)).bind fun first =>
      (splitComma first.2).bind fun second =>
        (splitComma second.2).bind fun third =>
          if third.2.isEmpty then none
          else
            let q : Quaternion (Option N) :=
              { x := component numbers first.1, y := component numbers second.1
                z := component numbers third.1, w := component numbers third.2 }
            some (q.normalize arithmetic)
  else none

end Parse

/-! ### The conditions -/

/-- An exponent without a number before it. -/
def isOnlyExponent (text : JsString) : Bool := !(dropMinus text).isEmpty && isExponent (dropMinus text)

/-! ### Texts that are taken for numbers -/

/-- No text of a number has another tag, a sign or white space before it. -/
structure Plain (text : JsString) : Prop where
  tag : parseTagged numberTagPrefix text = text
  sign : dropSign text = dropMinus text
  trimmed : text.dropWhile isStrWhiteSpace = text

variable {c : CodeUnit} {rest text : JsString}

theorem plain_of_head (tag : c ≠ 0xD83D) (sign : c ≠ 43) (space : isStrWhiteSpace c = false) : Plain (c :: rest) where
  tag := by
    rw [parseTagged, if_neg]
    intro isPrefix
    rw [numberTagPrefix, List.isPrefixOf, Bool.and_eq_true, beq_iff_eq] at isPrefix
    exact tag isPrefix.1.symm
  sign := by
    rw [dropSign, dropMinus]
    by_cases minus : c = 45 <;> simp [minus, sign]
  trimmed := by rw [List.dropWhile_cons, space]; rfl

theorem isExponent_head (exponent : isExponent (c :: rest) = true) : c = 101 ∨ c = 69 := by
  rw [isExponent, Bool.and_eq_true] at exponent
  simpa using exponent.1

theorem isDecimal_head (decimal : isDecimal (c :: rest) = true) :
    c = 45 ∨ isDigit c = true ∨ c = 46 ∨ c = 101 ∨ c = 69 := by
  by_cases minus : c = 45
  · exact .inl minus
  by_cases digit : isDigit c = true
  · exact .inr (.inl digit)
  rw [isDecimal, dropMinus, if_neg minus, List.dropWhile_cons, if_neg digit] at decimal
  simp only at decimal
  split at decimal
  · next dot => exact .inr (.inr (.inl dot))
  · exact .inr (.inr (.inr (isExponent_head decimal)))

theorem plain_digit (digit : isDigit c = true) :
    c ≠ 0xD83D ∧ c ≠ 43 ∧ isStrWhiteSpace c = false ∧ c ≠ 44 ∧ c ≠ 45 ∧ c ≠ 46 ∧ c ≠ 101 ∧ c ≠ 69 := by
  have cases : c = 48 ∨ c = 49 ∨ c = 50 ∨ c = 51 ∨ c = 52 ∨ c = 53 ∨ c = 54 ∨ c = 55 ∨ c = 56 ∨ c = 57 := by
    rw [isDigit, Bool.and_eq_true, decide_eq_true_iff, decide_eq_true_iff] at digit
    have low : 48 ≤ c.val := digit.1
    have high : c.val ≤ 57 := digit.2
    simp only [Fin.ext_iff]
    change c.val = 48 ∨ c.val = 49 ∨ c.val = 50 ∨ c.val = 51 ∨ c.val = 52 ∨ c.val = 53 ∨ c.val = 54 ∨
      c.val = 55 ∨ c.val = 56 ∨ c.val = 57
    omega
  rcases cases with rfl | rfl | rfl | rfl | rfl | rfl | rfl | rfl | rfl | rfl <;> decide

theorem plain_of_isDecimal (decimal : isDecimal text = true) : Plain text := by
  cases text with
  | nil => exact ⟨rfl, rfl, rfl⟩
  | cons c rest =>
    have head := isDecimal_head decimal
    have other : c ≠ 0xD83D ∧ c ≠ 43 ∧ isStrWhiteSpace c = false := by
      rcases head with rfl | digit | rfl | rfl | rfl
      · decide
      · obtain ⟨tag, sign, space, _⟩ := plain_digit digit
        exact ⟨tag, sign, space⟩
      · decide
      · decide
      · decide
    exact plain_of_head other.1 other.2.1 other.2.2

theorem lower_head {d : CodeUnit} {lower : JsString} (same : toLowerCase (c :: rest) = d :: lower) :
    (c = d ∨ (65 ≤ c.val ∧ c.val ≤ 90 ∧ c.val + 32 = d.val)) ∧ toLowerCase rest = lower := by
  rw [toLowerCase, List.map_cons, List.cons.injEq] at same
  refine ⟨?_, same.2⟩
  split at same
  · next upper =>
      have low : 65 ≤ c.val := upper.1
      have high : c.val ≤ 90 := upper.2
      have sum := congrArg Fin.val same.1
      rw [Fin.val_add] at sum
      change (c.val + 32) % 65536 = d.val at sum
      exact .inr ⟨low, high, by omega⟩
  · exact .inl same.1

theorem infinity_head (same : toLowerCase text = infinity) : ∃ c rest, text = c :: rest ∧ (c = 105 ∨ c = 73) := by
  cases text with
  | nil => cases same
  | cons c rest =>
    refine ⟨c, rest, rfl, ?_⟩
    rcases (lower_head same).1 with isSmall | ⟨_, _, isLarge⟩
    · exact .inl isSmall
    · change c.val + 32 = 105 at isLarge
      exact .inr (Fin.ext (by change c.val = 73; omega))

theorem plain_of_infinity (same : toLowerCase text = infinity ∨ toLowerCase text = 45 :: infinity) :
    Plain text ∧ isOnlyExponent text = false := by
  rcases same with positive | negative
  · obtain ⟨c, rest, rfl, rfl | rfl⟩ := infinity_head positive
    · exact ⟨plain_of_head (by decide) (by decide) (by decide), rfl⟩
    · exact ⟨plain_of_head (by decide) (by decide) (by decide), rfl⟩
  · cases text with
    | nil => cases negative
    | cons minus unsigned =>
      obtain ⟨head, lower⟩ := lower_head negative
      have isMinus : minus = 45 := by
        rcases head with same | ⟨low, _, sum⟩
        · exact same
        · change minus.val + 32 = 45 at sum
          omega
      subst isMinus
      obtain ⟨c, rest, rfl, rfl | rfl⟩ := infinity_head lower
      · exact ⟨plain_of_head (by decide) (by decide) (by decide), rfl⟩
      · exact ⟨plain_of_head (by decide) (by decide) (by decide), rfl⟩

theorem isExponentPart_of_isExponent (exponent : isExponent text = true) : isExponentPart text = true := by
  cases text with
  | nil => rfl
  | cons c rest =>
    rw [isExponent, Bool.and_eq_true] at exponent
    rw [isExponentPart, Bool.and_eq_true]
    refine ⟨exponent.1, ?_⟩
    have isDigits := exponent.2
    cases rest with
    | nil => exact isDigits
    | cons sign rest =>
      by_cases minus : sign = 45
      · subst minus
        exact isDigits
      · rw [dropMinus, if_neg minus] at isDigits
        have plus : sign ≠ 43 := by
          rintro rfl
          simp [digits, isDigit] at isDigits
        rw [dropSign, if_neg (by simp [minus, plus])]
        exact isDigits

theorem not_exponent (first : c ≠ 101) (second : c ≠ 69) : isExponent (c :: rest) = false := by
  simp [isExponent, first, second]

theorem digits_first (unsigned : JsString) : unsigned.takeWhile isDigit = [] ∨
    ∃ c rest, unsigned = c :: rest ∧ isDigit c = true ∧ (unsigned.takeWhile isDigit).isEmpty = false := by
  cases unsigned with
  | nil => exact .inl rfl
  | cons c rest =>
    by_cases digit : isDigit c = true
    · refine .inr ⟨c, rest, rfl, digit, ?_⟩
      rw [List.takeWhile_cons, if_pos digit]
      rfl
    · refine .inl ?_
      rw [List.takeWhile_cons, if_neg digit]

/-- A decimal text is a literal unless its exponent stands alone. -/
theorem unsigned_literal_iff (decimal : isDecimal text = true) (filled : dropMinus text ≠ []) :
    isStrUnsignedDecimal (dropMinus text) = true ↔ isExponent (dropMinus text) = false := by
  rw [isDecimal] at decimal
  generalize dropMinus text = unsigned at decimal filled
  have parts : unsigned.takeWhile isDigit ++ unsigned.dropWhile isDigit = unsigned :=
    List.takeWhile_append_dropWhile
  rw [isStrUnsignedDecimal]
  rcases digits_first unsigned with noDigits | ⟨d, tail, same, digit, some_digits⟩
  · rw [noDigits, List.nil_append] at parts
    rw [parts] at decimal ⊢
    rw [noDigits]
    cases unsigned with
    | nil => exact absurd rfl filled
    | cons c rest =>
      simp only at decimal
      by_cases dot : c = 46
      · subst dot
        rw [if_pos rfl, Bool.and_eq_true] at decimal
        simp only [if_true, decimal.1, Bool.or_true, Bool.true_and]
        rw [isExponentPart_of_isExponent decimal.2, Bool.or_true]
        exact ⟨fun _ => rfl, fun _ => rfl⟩
      · rw [if_neg dot] at decimal
        have other : c :: rest ≠ infinityText := by
          rintro same
          rw [same] at decimal
          cases decimal
        simp [dot, other, decimal]
  · have other : isExponent unsigned = false := by
      obtain ⟨_, _, _, _, _, _, first, second⟩ := plain_digit digit
      rw [same]
      exact not_exponent first second
    have literal : isStrUnsignedDecimal unsigned = true := by
      rw [isStrUnsignedDecimal, some_digits]
      cases isRest : unsigned.dropWhile isDigit with
      | nil => simp
      | cons c rest =>
        rw [isRest] at decimal
        simp only at decimal
        by_cases dot : c = 46
        · rw [if_pos dot, Bool.and_eq_true] at decimal
          simp [dot, isExponentPart_of_isExponent decimal.2]
        · rw [if_neg dot] at decimal
          simp [dot, isExponentPart_of_isExponent decimal]
    rw [isStrUnsignedDecimal] at literal
    exact ⟨fun _ => other, fun _ => literal⟩

theorem literal_iff (decimal : isDecimal text = true) (some_text : text ≠ [])
    (digit : text ≠ [45]) : isStrDecimalLiteral text = true ↔ isOnlyExponent text = false := by
  have filled : dropMinus text ≠ [] := by
    cases text with
    | nil => exact absurd rfl some_text
    | cons c rest =>
      rw [dropMinus]
      split
      · next minus =>
          rintro rfl
          exact digit (by rw [minus])
      · exact cons_ne_nil _ _
  have nonempty : (dropMinus text).isEmpty = false := List.isEmpty_eq_false_iff.mpr filled
  rw [isStrDecimalLiteral, (plain_of_isDecimal decimal).sign, isOnlyExponent, nonempty, Bool.not_false, Bool.true_and]
  exact unsigned_literal_iff decimal filled

variable {N : Type} (numbers : Numbers N)

theorem parseFloat_whole (plain : Plain text) (literal : isStrDecimalLiteral text = true) :
    parseFloat numbers text = some (numbers.strDecimal text, []) := by
  rw [parseFloat, plain.trimmed, List.range_succ, List.reverse_append, List.reverse_singleton,
    List.singleton_append, List.find?_cons, List.take_length, literal]
  simp only [Option.map_some, List.take_length, List.drop_length]

theorem literal_of_whole (plain : Plain text) {x : N}
    (whole : parseFloat numbers text = some (x, [])) : isStrDecimalLiteral text = true := by
  rw [parseFloat, plain.trimmed] at whole
  obtain ⟨n, found, read⟩ := Option.map_eq_some_iff.mp whole
  have literal := List.find?_some found
  have all : text.drop n = [] := (Prod.mk.inj read).2
  rwa [List.take_of_length_le (List.drop_eq_nil_iff.mp all)] at literal

/-- The tag is taken off once. -/
structure Accepted (text : JsString) : Prop where
  plain : Plain text
  filled : text ≠ []
  reads : (isDecimal text = true ∧ text ≠ [45]) ∨ toLowerCase text = infinity ∨
    toLowerCase text = 45 :: infinity

theorem isNumber_iff (value : JsString) : isNumber value = true ↔ Accepted (parseTagged numberTagPrefix value) := by
  simp only [isNumber, Bool.and_eq_true, Bool.or_eq_true, decide_eq_true_iff, Bool.not_eq_true',
    List.isEmpty_eq_false_iff]
  constructor
  · rintro ⟨filled, accepted⟩
    refine ⟨?_, filled, by tauto⟩
    rcases accepted with (⟨decimal, _⟩ | positive) | negative
    · exact plain_of_isDecimal decimal
    · exact (plain_of_infinity (.inl positive)).1
    · exact (plain_of_infinity (.inr negative)).1
  · intro accepted
    exact ⟨accepted.filled, by have := accepted.reads; tauto⟩

theorem isNumber_tagged {value : JsString} (accepted : Accepted (parseTagged numberTagPrefix value)) :
    isNumber (parseTagged numberTagPrefix value) = true := by
  rw [isNumber_iff, accepted.plain.tag]
  exact accepted

theorem onlyExponent_accepted (only : isOnlyExponent text = true) : Accepted text := by
  rw [isOnlyExponent, Bool.and_eq_true, Bool.not_eq_true', List.isEmpty_eq_false_iff] at only
  have decimal : isDecimal text = true := by
    rw [isDecimal]
    cases same : dropMinus text with
    | nil => rfl
    | cons c rest =>
      rw [same] at only
      rcases isExponent_head only.2 with rfl | rfl
      · exact only.2
      · exact only.2
  refine ⟨plain_of_isDecimal decimal, ?_, .inl ⟨decimal, ?_⟩⟩
  · rintro rfl
    exact only.1 rfl
  · rintro rfl
    exact only.1 rfl

/-- A text that is taken for a number is read as a whole unless it is an exponent alone. -/
theorem reads_whole_iff (value : JsString) : (isNumber value = true → ReadsWhole numbers value) ↔
    isOnlyExponent (parseTagged numberTagPrefix value) = false := by
  by_cases isNum : isNumber value = true
  · have accepted := (isNumber_iff value).mp isNum
    have again := isNumber_tagged accepted
    simp only [isNum, forall_const, ReadsWhole, parseNumber]
    rw [if_pos again]
    by_cases positive : toLowerCase (parseTagged numberTagPrefix value) = infinity
    · rw [if_pos positive]
      exact ⟨fun _ => (plain_of_infinity (.inl positive)).2, fun _ => ⟨_, rfl⟩⟩
    rw [if_neg positive]
    by_cases negative : toLowerCase (parseTagged numberTagPrefix value) = 45 :: infinity
    · rw [if_pos negative]
      exact ⟨fun _ => (plain_of_infinity (.inr negative)).2, fun _ => ⟨_, rfl⟩⟩
    rw [if_neg negative]
    have decimal : isDecimal (parseTagged numberTagPrefix value) = true ∧ parseTagged numberTagPrefix value ≠ [45] := by
      have reads := accepted.reads
      tauto
    rw [← literal_iff decimal.1 accepted.filled decimal.2]
    constructor
    · rintro ⟨x, whole⟩
      exact literal_of_whole numbers accepted.plain whole
    · exact fun literal => ⟨_, parseFloat_whole numbers accepted.plain literal⟩
  · refine ⟨fun _ => ?_, fun _ impossible => absurd impossible isNum⟩
    rw [← Bool.not_eq_true]
    exact fun only => isNum ((isNumber_iff value).mpr (onlyExponent_accepted only))

/-! ### The texts of numbers -/

namespace Digits

variable (d : Digits)

theorem nonempty : d.text.isEmpty = false := by
  have all := d.isDigits
  rw [digits, Bool.and_eq_true, Bool.not_eq_true'] at all
  exact all.1

theorem all (c : CodeUnit) (member : c ∈ d.text) : isDigit c = true := by
  have each := d.isDigits
  rw [digits, Bool.and_eq_true, List.all_eq_true] at each
  exact each.2 c member

theorem head : ∃ c rest, d.text = c :: rest ∧ isDigit c = true := by
  cases same : d.text with
  | nil =>
    have filled := d.nonempty
    rw [same] at filled
    cases filled
  | cons c rest => exact ⟨c, rest, rfl, d.all c (by rw [same]; exact List.mem_cons_self)⟩

theorem takeWhile_append (rest : JsString) : (d.text ++ rest).takeWhile isDigit = d.text ++ rest.takeWhile isDigit :=
  List.takeWhile_append_of_pos d.all

theorem dropWhile_append (rest : JsString) : (d.text ++ rest).dropWhile isDigit = rest.dropWhile isDigit :=
  List.dropWhile_append_of_pos d.all

end Digits

theorem digit_not_infinity (digit : isDigit c = true) : toLowerCase (c :: rest) ≠ infinity := by
  intro same
  obtain ⟨other, tail, equal, isLetter⟩ := infinity_head same
  obtain ⟨rfl, _⟩ := List.cons.inj equal
  rcases isLetter with rfl | rfl <;> cases digit

namespace Numeral

variable (whole : Digits) (fraction : Option Digits) (exponent : Option (Bool × Digits))

theorem exponent_apart : (exponentText exponent).takeWhile isDigit = [] ∧
    (exponentText exponent).dropWhile isDigit = exponentText exponent := by
  cases exponent with
  | none => exact ⟨rfl, rfl⟩
  | some exponent => exact ⟨rfl, rfl⟩

theorem fraction_apart : (fractionText fraction ++ exponentText exponent).takeWhile isDigit = [] ∧
    (fractionText fraction ++ exponentText exponent).dropWhile isDigit =
      fractionText fraction ++ exponentText exponent := by
  cases fraction with
  | none => exact exponent_apart exponent
  | some fraction => exact ⟨rfl, rfl⟩

/-- The text of a number without its sign. -/
def unsigned : JsString := whole.text ++ fractionText fraction ++ exponentText exponent

theorem unsigned_parts : (unsigned whole fraction exponent).takeWhile isDigit = whole.text ∧
    (unsigned whole fraction exponent).dropWhile isDigit = fractionText fraction ++ exponentText exponent := by
  rw [unsigned, List.append_assoc, whole.takeWhile_append, whole.dropWhile_append]
  obtain ⟨taken, dropped⟩ := fraction_apart fraction exponent
  rw [taken, List.append_nil]
  exact ⟨rfl, dropped⟩

theorem exponentPart (exponent : Option (Bool × Digits)) : isExponentPart (exponentText exponent) = true := by
  cases exponent with
  | none => rfl
  | some exponent =>
    obtain ⟨negative, power⟩ := exponent
    cases negative <;> exact power.isDigits

/-- Only an exponent with a plus sign is not one that `isNumber` knows. -/
theorem isExponent_exponentText (negative : Bool) : isExponent (exponentText exponent) =
    !(Numeral.decimal negative whole fraction exponent).hasPlus := by
  cases exponent with
  | none => rfl
  | some exponent =>
    obtain ⟨below, power⟩ := exponent
    cases below with
    | true => exact power.isDigits
    | false => simp [exponentText, isExponent, dropMinus, digits, isDigit, hasPlus]

theorem unsigned_literal : isStrUnsignedDecimal (unsigned whole fraction exponent) = true := by
  obtain ⟨taken, dropped⟩ := unsigned_parts whole fraction exponent
  rw [isStrUnsignedDecimal, taken, dropped, whole.nonempty]
  have part := exponentPart exponent
  cases fraction with
  | some fraction =>
    have left : (fraction.text ++ exponentText exponent).dropWhile isDigit = exponentText exponent := by
      rw [fraction.dropWhile_append, (exponent_apart exponent).2]
    simp [fractionText, left, part]
  | none =>
    cases exponent with
    | none => simp [fractionText, exponentText]
    | some exponent => simpa [fractionText, exponentText] using .inr part

theorem signed_unsigned (negative : Bool) :
    dropMinus (signed negative (unsigned whole fraction exponent)) = unsigned whole fraction exponent := by
  cases negative with
  | true => rfl
  | false =>
    obtain ⟨c, rest, same, digit⟩ := whole.head
    obtain ⟨_, _, _, _, minus, _⟩ := plain_digit digit
    rw [signed, if_neg Bool.false_ne_true, unsigned, same]
    exact if_neg minus

theorem isDecimal_decimal (negative : Bool) : isDecimal (Numeral.decimal negative whole fraction exponent).text =
      !(Numeral.decimal negative whole fraction exponent).hasPlus := by
  change isDecimal (signed negative (unsigned whole fraction exponent)) = _
  rw [isDecimal, signed_unsigned, (unsigned_parts whole fraction exponent).2]
  have power := isExponent_exponentText whole fraction exponent negative
  cases fraction with
  | some fraction =>
    have some_digits : (fraction.text ++ exponentText exponent).takeWhile isDigit = fraction.text := by
      rw [fraction.takeWhile_append, (exponent_apart exponent).1, List.append_nil]
    have left : (fraction.text ++ exponentText exponent).dropWhile isDigit = exponentText exponent := by
      rw [fraction.dropWhile_append, (exponent_apart exponent).2]
    simpa [fractionText, some_digits, left, fraction.nonempty] using power
  | none =>
    cases exponent with
    | none => rfl
    | some exponent => exact power

theorem decimal_text (negative : Bool) : (Numeral.decimal negative whole fraction exponent).text =
    signed negative (unsigned whole fraction exponent) := rfl

theorem unsigned_head : ∃ c rest, unsigned whole fraction exponent = c :: rest ∧ isDigit c = true := by
  obtain ⟨c, rest, same, digit⟩ := whole.head
  exact ⟨c, rest ++ fractionText fraction ++ exponentText exponent, by rw [unsigned, same]; simp, digit⟩

theorem plain_decimal (negative : Bool) : Plain (Numeral.decimal negative whole fraction exponent).text := by
  rw [decimal_text]
  cases negative with
  | true => exact plain_of_head (by decide) (by decide) (by decide)
  | false =>
    obtain ⟨c, rest, same, digit⟩ := unsigned_head whole fraction exponent
    obtain ⟨tag, plus, space, _⟩ := plain_digit digit
    rw [same]
    exact plain_of_head tag plus space

theorem decimal_not_infinity (negative : Bool) :
    toLowerCase (Numeral.decimal negative whole fraction exponent).text ≠ AuxRuntime.infinity ∧
      toLowerCase (Numeral.decimal negative whole fraction exponent).text ≠ 45 :: AuxRuntime.infinity := by
  obtain ⟨c, rest, same, digit⟩ := unsigned_head whole fraction exponent
  rw [decimal_text, same]
  cases negative with
  | true =>
    refine ⟨fun isInfinity => ?_, fun isInfinity => digit_not_infinity digit (lower_head isInfinity).2⟩
    cases (lower_head isInfinity).1 with
    | inl impossible => cases impossible
    | inr upper => exact absurd upper.1 (by decide)
  | false =>
    refine ⟨digit_not_infinity digit, fun isInfinity => ?_⟩
    obtain ⟨_, _, _, _, minus, _⟩ := plain_digit digit
    rcases (lower_head isInfinity).1 with isMinus | ⟨low, _, sum⟩
    · exact minus isMinus
    · change c.val + 32 = 45 at sum
      omega

theorem isNumber_text (n : Numeral) : isNumber n.text = !n.hasPlus := by
  cases n with
  | infinity negative => cases negative <;> decide
  | decimal negative whole fraction exponent =>
    have plain := plain_decimal whole fraction exponent negative
    have other := decimal_not_infinity whole fraction exponent negative
    obtain ⟨c, rest, same, digit⟩ := unsigned_head whole fraction exponent
    rw [← isDecimal_decimal, Bool.eq_iff_iff, isNumber_iff, plain.tag]
    constructor
    · intro accepted
      have reads := accepted.reads
      tauto
    · intro decimal
      refine ⟨plain, ?_, .inl ⟨decimal, ?_⟩⟩
      · rw [decimal_text, same]
        cases negative <;> exact cons_ne_nil _ _
      · rw [decimal_text, same]
        obtain ⟨_, _, _, _, minus, _⟩ := plain_digit digit
        cases negative with
        | true => exact fun alone => cons_ne_nil _ _ (List.cons.inj alone).2
        | false => exact fun alone => minus (List.cons.inj alone).1

end Numeral

theorem parseNumber_text (x : N) (noPlus : (numbers.numeral x).hasPlus = false) :
    parseNumber numbers (numbers.numeral x).text = some (x, []) := by
  have isNum : isNumber (numbers.numeral x).text = true := by
    rw [Numeral.isNumber_text, noPlus]
    rfl
  have accepted := (isNumber_iff _).mp isNum
  have again := isNumber_tagged accepted
  rw [parseNumber, if_pos again]
  have reads := numbers.strDecimal_numeral x
  cases same : numbers.numeral x with
  | infinity negative =>
    have isInfinity : numbers.infinity negative = x := by
      rw [← numbers.strDecimal_numeral (numbers.infinity negative), numbers.numeral_infinity, ← same, reads]
    cases negative with
    | true =>
      rw [← isInfinity]
      rfl
    | false =>
      rw [← isInfinity]
      rfl
  | decimal negative whole fraction exponent =>
    have plain := Numeral.plain_decimal whole fraction exponent negative
    obtain ⟨positive, below⟩ := Numeral.decimal_not_infinity whole fraction exponent negative
    have literal : isStrDecimalLiteral (Numeral.decimal negative whole fraction exponent).text = true := by
      rw [isStrDecimalLiteral, plain.sign, Numeral.decimal_text, Numeral.signed_unsigned]
      exact Numeral.unsigned_literal whole fraction exponent
    rw [plain.tag, if_neg positive, if_neg below, parseFloat_whole numbers plain literal, ← same, reads]

theorem number_read_iff (x : N) : (isNumber (numbers.numeral x).text = true ∧
    parseNumber numbers (numbers.numeral x).text = some (x, [])) ↔ (numbers.numeral x).hasPlus = false := by
  constructor
  · rintro ⟨isNum, _⟩
    rwa [Numeral.isNumber_text, Bool.not_eq_true'] at isNum
  · intro noPlus
    refine ⟨?_, parseNumber_text numbers x noPlus⟩
    rw [Numeral.isNumber_text, noPlus]
    rfl

/-! ### The texts of vectors and rotations -/

theorem not_mem_text (n : Numeral) (notDigit : isDigit c = false)
    (absent : c ∉ (46 : CodeUnit) :: 101 :: 43 :: 45 :: infinityText) : c ∉ n.text := by
  obtain ⟨point, e, plus, minus, others⟩ : c ≠ 46 ∧ c ≠ 101 ∧ c ≠ 43 ∧ c ≠ 45 ∧ c ∉ infinityText := by
    simpa only [mem_cons, not_or] using absent
  have digit : ∀ d : Digits, c ∉ d.text := by
    intro d member
    exact Bool.false_ne_true (notDigit.symm.trans (d.all c member))
  have sign : ∀ negative text, c ∉ text → c ∉ signed negative text := by
    intro negative text free
    cases negative with
    | false => exact free
    | true => exact fun member => (mem_cons.mp member).elim minus free
  cases n with
  | infinity negative => exact sign negative _ others
  | decimal negative whole fraction exponent =>
    refine sign negative _ ?_
    rw [List.mem_append, List.mem_append, not_or, not_or]
    refine ⟨⟨digit whole, ?_⟩, ?_⟩
    · cases fraction with
      | none => exact not_mem_nil
      | some fraction => exact fun member => (mem_cons.mp member).elim point (digit fraction)
    · cases exponent with
      | none => exact not_mem_nil
      | some exponent =>
        obtain ⟨below, power⟩ := exponent
        have unit : c ∉ (if below = true then (45 : CodeUnit) else 43) :: power.text := by
          cases below with
          | true => exact fun member => (mem_cons.mp member).elim minus (digit power)
          | false => exact fun member => (mem_cons.mp member).elim plus (digit power)
        exact fun member => (mem_cons.mp member).elim e unit

theorem no_comma (n : Numeral) : (44 : CodeUnit) ∉ n.text := not_mem_text n rfl (by decide)

theorem splitComma_cons {first : JsString} (free : 44 ∉ first) (rest : JsString) :
    splitComma (first ++ 44 :: rest) = some (first, rest) := by
  have other : ∀ c ∈ first, (decide (c ≠ 44)) = true := by
    intro c member
    rw [decide_eq_true_iff]
    rintro rfl
    exact free member
  rw [splitComma, List.takeWhile_append_of_pos other, List.dropWhile_append_of_pos other]
  simp

theorem splitComma_free (free : 44 ∉ text) : splitComma text = none := by
  have all : ∀ c ∈ text, (decide (c ≠ 44)) = true := by
    intro c member
    rw [decide_eq_true_iff]
    rintro rfl
    exact free member
  have gone : text.dropWhile (fun c => decide (c ≠ 44)) = [] := List.dropWhile_eq_nil_iff.mpr all
  rw [splitComma, gone]

theorem plain_text (n : Numeral) : Plain n.text := by
  cases n with
  | infinity negative =>
    cases negative <;> exact plain_of_head (by decide) (by decide) (by decide)
  | decimal negative whole fraction exponent => exact Numeral.plain_decimal whole fraction exponent negative

theorem component_text (x : N) : component numbers (numbers.numeral x).text =
    if (numbers.numeral x).hasPlus then none else some x := by
  cases plus : (numbers.numeral x).hasPlus with
  | false =>
    rw [component, parseNumber_text numbers x plus]
    rfl
  | true =>
    have again : isNumber (parseTagged numberTagPrefix (numbers.numeral x).text) = false := by
      rw [(plain_text (numbers.numeral x)).tag, Numeral.isNumber_text, plus]
      rfl
    rw [component, parseNumber, again]
    rfl

theorem component_iff (x : N) : component numbers (numbers.numeral x).text = some x ↔
    (numbers.numeral x).hasPlus = false := by
  rw [component_text]
  cases (numbers.numeral x).hasPlus <;> simp

theorem tagged_prefix (tagPrefix rest : JsString) :
    tagPrefix.isPrefixOf (tagPrefix ++ rest) = true ∧ (tagPrefix ++ rest).drop tagPrefix.length = rest :=
  ⟨List.isPrefixOf_iff_prefix.mpr (List.prefix_append _ _), List.drop_left⟩

theorem vector_read_iff (vector : BotVector N) :
    parseBotVector numbers (formatBotVector numbers vector) = some vector.read ↔
      ∀ x ∈ vector.components, (numbers.numeral x).hasPlus = false := by
  obtain ⟨x, y, z⟩ := vector
  have free (n : N) := no_comma (numbers.numeral n)
  cases z with
  | none =>
    have format : formatBotVector numbers ⟨x, y, none⟩ =
        vectorTagPrefix ++ ((numbers.numeral x).text ++ 44 :: (numbers.numeral y).text) := by
      simp [formatBotVector]
    obtain ⟨isPrefix, left⟩ := tagged_prefix vectorTagPrefix
      ((numbers.numeral x).text ++ 44 :: (numbers.numeral y).text)
    rw [format, parseBotVector, if_pos isPrefix, left, splitComma_cons (free x), Option.map_some,
      splitComma_free (free y)]
    simp only [BotVector.read, BotVector.components, Option.some.injEq, BotVector.mk.injEq, Option.map_none,
      and_true, component_iff, Option.toList_none, mem_cons, not_mem_nil, or_false,
      forall_eq_or_imp, forall_eq]
  | some z =>
    have format : formatBotVector numbers ⟨x, y, some z⟩ = vectorTagPrefix ++ ((numbers.numeral x).text ++
        44 :: ((numbers.numeral y).text ++ 44 :: (numbers.numeral z).text)) := by
      simp [formatBotVector]
    obtain ⟨isPrefix, left⟩ := tagged_prefix vectorTagPrefix ((numbers.numeral x).text ++
      44 :: ((numbers.numeral y).text ++ 44 :: (numbers.numeral z).text))
    rw [format, parseBotVector, if_pos isPrefix, left, splitComma_cons (free x), Option.map_some]
    simp only [splitComma_cons (free y)]
    simp only [BotVector.read, BotVector.components, Option.some.injEq, BotVector.mk.injEq, Option.map_some,
      component_iff, Option.toList_some, mem_cons, not_mem_nil, or_false,
      forall_eq_or_imp, forall_eq]

theorem lift_read {op : N → N → Option N} {first second : Option N} {x : N} (read : lift op first second = some x) :
    first ≠ none := by
  rintro rfl
  cases read

theorem text_ne_nil (n : Numeral) : n.text ≠ [] := by
  cases n with
  | infinity negative => cases negative <;> exact cons_ne_nil _ _
  | decimal negative whole fraction exponent =>
    obtain ⟨c, rest, same, _⟩ := Numeral.unsigned_head whole fraction exponent
    rw [Numeral.decimal_text, same]
    cases negative <;> exact cons_ne_nil _ _

theorem rotation_read_iff (arithmetic : Arithmetic N) (q : Quaternion N) :
    parseBotRotation numbers arithmetic (formatBotRotation numbers q) = some q.read ↔
      (∀ x ∈ q.components, (numbers.numeral x).hasPlus = false) ∧ q.read.normalize arithmetic = q.read := by
  obtain ⟨x, y, z, w⟩ := q
  have free (n : N) := no_comma (numbers.numeral n)
  have format : formatBotRotation numbers ⟨x, y, z, w⟩ = rotationTagPrefix ++ ((numbers.numeral x).text ++
      44 :: ((numbers.numeral y).text ++ 44 :: ((numbers.numeral z).text ++ 44 :: (numbers.numeral w).text))) := by
    simp [formatBotRotation]
  obtain ⟨isPrefix, left⟩ := tagged_prefix rotationTagPrefix ((numbers.numeral x).text ++
    44 :: ((numbers.numeral y).text ++ 44 :: ((numbers.numeral z).text ++ 44 :: (numbers.numeral w).text)))
  have filled : (numbers.numeral w).text.isEmpty = false := List.isEmpty_eq_false_iff.mpr (text_ne_nil _)
  have parsed : parseBotRotation numbers arithmetic (formatBotRotation numbers ⟨x, y, z, w⟩) =
      some (Quaternion.normalize arithmetic
        { x := component numbers (numbers.numeral x).text, y := component numbers (numbers.numeral y).text
          z := component numbers (numbers.numeral z).text, w := component numbers (numbers.numeral w).text }) := by
    rw [format, parseBotRotation, if_pos isPrefix, left, splitComma_cons (free x), Option.bind_some]
    simp only [splitComma_cons (free y), splitComma_cons (free z), Option.bind_some, filled, Bool.false_eq_true,
      if_false]
  rw [parsed, Option.some.injEq]
  constructor
  · intro same
    have each : ∀ n, component numbers (numbers.numeral n).text ≠ none → (numbers.numeral n).hasPlus = false := by
      intro n read
      rw [component_text] at read
      by_contra plus
      rw [Bool.not_eq_false] at plus
      exact read (if_pos plus)
    obtain ⟨first, second, third, fourth⟩ := Quaternion.mk.inj same
    have noPlus : ∀ n ∈ Quaternion.components ⟨x, y, z, w⟩, (numbers.numeral n).hasPlus = false := by
      simp only [Quaternion.components, mem_cons, not_mem_nil, or_false, forall_eq_or_imp, forall_eq]
      exact ⟨each x (lift_read first), each y (lift_read second), each z (lift_read third), each w (lift_read fourth)⟩
    refine ⟨noPlus, ?_⟩
    simp only [Quaternion.components, mem_cons, not_mem_nil, or_false, forall_eq_or_imp, forall_eq,
      ← component_iff] at noPlus
    obtain ⟨readX, readY, readZ, readW⟩ := noPlus
    rwa [readX, readY, readZ, readW] at same
  · rintro ⟨noPlus, normal⟩
    simp only [Quaternion.components, mem_cons, not_mem_nil, or_false, forall_eq_or_imp, forall_eq,
      ← component_iff] at noPlus
    obtain ⟨readX, readY, readZ, readW⟩ := noPlus
    rw [readX, readY, readZ, readW]
    exact normal

/-- The texts that are taken for numbers are read as a whole, and the texts of numbers, vectors and rotations
give the numbers back, exactly where no exponent stands alone or has a plus sign and the rotation is normal. -/
theorem number_texts_iff (numbers : Numbers N) (arithmetic : Arithmetic N) :
    (∀ value, (isNumber value = true → ReadsWhole numbers value) ↔
      isOnlyExponent (parseTagged numberTagPrefix value) = false) ∧
    (∀ x, (isNumber (numbers.numeral x).text = true ∧
      parseNumber numbers (numbers.numeral x).text = some (x, [])) ↔ (numbers.numeral x).hasPlus = false) ∧
    (∀ vector : BotVector N, parseBotVector numbers (formatBotVector numbers vector) = some vector.read ↔
      ∀ x ∈ vector.components, (numbers.numeral x).hasPlus = false) ∧
    ∀ q : Quaternion N, parseBotRotation numbers arithmetic (formatBotRotation numbers q) = some q.read ↔
      (∀ x ∈ q.components, (numbers.numeral x).hasPlus = false) ∧ q.read.normalize arithmetic = q.read :=
  ⟨reads_whole_iff numbers, number_read_iff numbers, vector_read_iff numbers, rotation_read_iff numbers arithmetic⟩

/-! ### Numbers that are known by their texts -/

def digitsOr (text : JsString) : Digits := if all : digits text = true then ⟨text, all⟩ else ⟨[48], rfl⟩

def exponentOf : JsString → Option (Bool × Digits)
  | _ :: sign :: power => some (sign = 45, digitsOr power)
  | _ => none

def readNumeral (text : JsString) : Numeral :=
  if text = infinityText then .infinity false
  else if text = 45 :: infinityText then .infinity true
  else
    let unsigned := dropMinus text
    let rest := unsigned.dropWhile isDigit
    let hasFraction := rest.head? = some 46
    .decimal (text.head? = some 45) (digitsOr (unsigned.takeWhile isDigit))
      (if hasFraction then some (digitsOr ((rest.drop 1).takeWhile isDigit)) else none)
      (exponentOf (if hasFraction then (rest.drop 1).dropWhile isDigit else rest))

theorem digitsOr_text (d : Digits) : digitsOr d.text = d := dif_pos d.isDigits

theorem exponentOf_text (exponent : Option (Bool × Digits)) :
    exponentOf (Numeral.exponentText exponent) = exponent := by
  cases exponent with
  | none => rfl
  | some exponent =>
    obtain ⟨negative, power⟩ := exponent
    cases negative <;> simp [Numeral.exponentText, exponentOf, digitsOr_text]

theorem readNumeral_text (n : Numeral) : readNumeral n.text = n := by
  cases n with
  | infinity negative => cases negative <;> rfl
  | decimal negative whole fraction exponent =>
    obtain ⟨c, rest, same, digit⟩ := Numeral.unsigned_head whole fraction exponent
    obtain ⟨_, _, _, _, minus, _⟩ := plain_digit digit
    have letter : c ≠ 73 := by
      rintro rfl
      cases digit
    have text := Numeral.decimal_text whole fraction exponent negative
    have finite : (Numeral.decimal negative whole fraction exponent).text ≠ infinityText ∧
        (Numeral.decimal negative whole fraction exponent).text ≠ 45 :: infinityText := by
      rw [text, same]
      cases negative with
      | true =>
        exact ⟨fun equal => (by cases equal), fun equal => letter (List.cons.inj (List.cons.inj equal).2).1⟩
      | false => exact ⟨fun equal => letter (List.cons.inj equal).1, fun equal => minus (List.cons.inj equal).1⟩
    have sign : decide ((Numeral.decimal negative whole fraction exponent).text.head? = some 45) = negative := by
      rw [text, same]
      cases negative with
      | true => rfl
      | false => simpa [signed] using minus
    have parts := Numeral.unsigned_parts whole fraction exponent
    rw [readNumeral, if_neg finite.1, if_neg finite.2, sign, text, Numeral.signed_unsigned]
    simp only [parts.1, parts.2, digitsOr_text]
    cases fraction with
    | some fraction =>
      have digits := fraction.takeWhile_append (Numeral.exponentText exponent)
      have left := fraction.dropWhile_append (Numeral.exponentText exponent)
      rw [(Numeral.exponent_apart exponent).1, List.append_nil] at digits
      rw [(Numeral.exponent_apart exponent).2] at left
      simp [Numeral.fractionText, digits, left, digitsOr_text, exponentOf_text]
    | none =>
      have noDot : (Numeral.exponentText exponent).head? ≠ some 46 := by
        cases exponent with
        | none => simp [Numeral.exponentText]
        | some exponent => simp [Numeral.exponentText]
      simp [Numeral.fractionText, noDot, exponentOf_text]

def textNumbers : Numbers Numeral where
  numeral n := n
  strDecimal := readNumeral
  infinity := .infinity
  strDecimal_numeral := readNumeral_text
  numeral_infinity _ := rfl

def noArithmetic : Arithmetic Numeral := { add _ _ := none, mul _ _ := none, div _ _ := none, sqrt _ := none }

def digit (n : Fin 10) : Digits := ⟨[Fin.ofNat 65536 (48 + n.val)], by revert n; decide⟩

/-- The vector of 1 and 2. -/
theorem small_vector_kept :
    parseBotVector textNumbers (formatBotVector textNumbers
      ⟨.decimal false (digit 1) none none, .decimal false (digit 2) none none, none⟩) =
      some ⟨some (.decimal false (digit 1) none none), some (.decimal false (digit 2) none none), none⟩ :=
  ((number_texts_iff textNumbers noArithmetic).2.2.1 ⟨.decimal false (digit 1) none none,
    .decimal false (digit 2) none none, none⟩).mpr (by decide)

/-- The text `e5`, and the number `1e+21`. -/
theorem exponents_lost :
    (isNumber [101, 53] = true ∧ parseNumber textNumbers [101, 53] = none) ∧
      isNumber (textNumbers.numeral (.decimal false (digit 1) none (some (false, ⟨[50, 49], by decide⟩)))).text =
        false :=
  ⟨⟨by decide, rfl⟩, by decide⟩

end CasualOS.NumberTexts
