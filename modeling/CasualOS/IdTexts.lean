import CasualOS.Atom2
import CasualOS.Lib.Delimited
import CasualOS.NumberTexts

/-! The texts of atom ids, against the comparison of atom ids. -/

namespace CasualOS.IdTexts

open Delimited
open List (append_nil mem_append_right)
open Option (elim_none elim_some)

/-! ### Ids -/

/-- How numbers other than `NaN` are written. `===` makes no difference between 0 and -0, so there is one zero. -/
structure Written (N : Type) where
  text : N → JsString
  zero : N
  injective : ∀ x y, text x = text y → x = y
  plain : ∀ x, 64 ∉ text x ∧ 58 ∉ text x ∧ 94 ∉ text x ∧ 78 ∉ text x

inductive Num (N : Type) where
  | nan
  | number (x : N)
  deriving DecidableEq

def Num.strictEquals {N : Type} [DecidableEq N] : Num N → Num N → Bool
  | .number x, .number y => x = y
  | _, _ => false

structure Cardinality (N : Type) where
  group : JsString
  number : Num N
  deriving DecidableEq

structure Id (N : Type) where
  site : JsString
  timestamp : Num N
  priority : Field (Num N)
  cardinality : Field (Cardinality N)
  deriving DecidableEq

section Source

variable {N : Type} [DecidableEq N] (written : Written N)

def nanText : JsString := JsString.lit ['N', 'a', 'N']

def Num.text : Num N → JsString
  | .nan => nanText
  | .number x => written.text x

def Num.truthy : Num N → Bool
  | .nan => false
  | .number x => x ≠ written.zero

def atomIdToString (id : Id N) : JsString :=
  let str := id.site ++ 64 :: id.timestamp.text written
  let str := match id.priority.get? with
    | some priority => if priority.truthy written then str ++ 58 :: priority.text written else str
    | none => str
  match id.cardinality.get? with
  | some cardinality => str ++ 45 :: (cardinality.group ++ 94 :: cardinality.number.text written)
  | none => str

def priorityEquals : Field (Num N) → Field (Num N) → Bool
  | .undefined, .undefined => true
  | .null, .null => true
  | .null, .undefined => true
  | .undefined, .null => true
  | .value second, .value first => second.strictEquals first
  | _, _ => false

/-- `oneCardinality` for two references to one object. -/
def cardinalityEquals (oneCardinality : Bool) : Field (Cardinality N) → Field (Cardinality N) → Bool
  | .undefined, .undefined => true
  | .null, .null => true
  | .null, .undefined => true
  | .undefined, .null => true
  | .value second, .value first =>
    oneCardinality || (second.group = first.group && second.number.strictEquals first.number)
  | _, _ => false

def idEquals (oneId oneCardinality : Bool) (first second : Id N) : Bool :=
  oneId || (second.site = first.site && second.timestamp.strictEquals first.timestamp &&
    priorityEquals second.priority first.priority &&
    cardinalityEquals oneCardinality second.cardinality first.cardinality)

end Source

/-! ### When they agree -/

section Conditions

variable {N : Type} [DecidableEq N] (written : Written N)

/-- What the texts are cut at does not occur inside the parts. -/
structure Id.Clean (id : Id N) : Prop where
  site : 64 ∉ id.site ∧ 58 ∉ id.site ∧ 45 ∉ id.site ∧ 94 ∉ id.site
  group : ∀ cardinality, id.cardinality.get? = some cardinality →
    45 ∉ cardinality.group ∧ 94 ∉ cardinality.group

/-- The priority that the text shows. -/
def shownPriority (priority : Field (Num N)) : Option (Num N) := priority.get?.filter (Num.truthy written)

/-- A priority is shown, or both are missing, or both are 0. -/
def PrioritiesClear (first second : Field (Num N)) : Prop :=
  shownPriority written first ≠ none ∨ (first.get? = none ∧ second.get? = none) ∨
    (first.get? = some (.number written.zero) ∧ second.get? = some (.number written.zero))

/-- The texts show a difference; or no `NaN` is in them, and what they do not show of the priorities is alike. -/
def Clear (oneId oneCardinality : Bool) (first second : Id N) : Prop :=
  oneId = true ∨ first.site ≠ second.site ∨ first.timestamp ≠ second.timestamp ∨
    first.cardinality.get? ≠ second.cardinality.get? ∨
    shownPriority written first.priority ≠ shownPriority written second.priority ∨
    (first.timestamp ≠ .nan ∧ PrioritiesClear written first.priority second.priority ∧
      (oneCardinality = true ∨ ∀ cardinality, first.cardinality.get? = some cardinality →
        cardinality.number ≠ .nan))

end Conditions

/-! ### What the text says -/

section Texts

variable {N : Type} {written : Written N}

theorem number_not_nan (x : N) : written.text x ≠ nanText := by
  intro same
  have capital : (78 : CodeUnit) ∈ nanText := by decide
  rw [← same] at capital
  exact (written.plain x).2.2.2 capital

theorem text_injective {x y : Num N} (same : x.text written = y.text written) : x = y := by
  cases x with
  | nan =>
    cases y with
    | nan => rfl
    | number y => exact absurd same.symm (number_not_nan y)
  | number x =>
    cases y with
    | nan => exact absurd same (number_not_nan x)
    | number y => exact congrArg Num.number (written.injective x y same)

theorem text_plain (x : Num N) : 58 ∉ x.text written ∧ 94 ∉ x.text written := by
  cases x with
  | nan =>
    have colon : (58 : CodeUnit) ∉ nanText := by decide
    have caret : (94 : CodeUnit) ∉ nanText := by decide
    exact ⟨colon, caret⟩
  | number x => exact ⟨(written.plain x).2.1, (written.plain x).2.2.1⟩

variable [DecidableEq N] (written)

/-- What stands between the site and the cardinality. -/
def front (id : Id N) : JsString :=
  id.timestamp.text written ++ ((shownPriority written id.priority).elim [] fun p => 58 :: p.text written)

def tail (cardinality : Option (Cardinality N)) : JsString :=
  cardinality.elim [] fun c => 45 :: (c.group ++ 94 :: c.number.text written)

theorem atomIdToString_eq (id : Id N) :
    atomIdToString written id = id.site ++ 64 :: (front written id ++ tail written id.cardinality.get?) := by
  rw [atomIdToString, front, tail, shownPriority]
  cases id.priority.get? with
  | none => cases id.cardinality.get? <;> simp
  | some priority =>
    cases shown : priority.truthy written <;> cases id.cardinality.get? <;> simp [shown, Option.filter]

variable {written}

theorem front_plain (id : Id N) : 94 ∉ front written id := by
  rw [front, List.mem_append, not_or]
  refine ⟨(text_plain _).2, ?_⟩
  cases shownPriority written id.priority with
  | none => exact List.not_mem_nil
  | some p => exact fun member => (List.mem_cons.mp member).elim (by decide) (text_plain p).2

theorem front_injective {a b : Id N} (same : front written a = front written b) :
    a.timestamp = b.timestamp ∧ shownPriority written a.priority = shownPriority written b.priority := by
  rw [front, front] at same
  cases first : shownPriority written a.priority with
  | none =>
    rw [first, elim_none, append_nil] at same
    cases second : shownPriority written b.priority with
    | none =>
      rw [second, elim_none, append_nil] at same
      exact ⟨text_injective same, rfl⟩
    | some q =>
      rw [second, elim_some] at same
      exact absurd (same ▸ mem_append_right _ List.mem_cons_self) (text_plain a.timestamp).1
  | some p =>
    rw [first, elim_some] at same
    cases second : shownPriority written b.priority with
    | none =>
      rw [second, elim_none, append_nil] at same
      exact absurd (same ▸ mem_append_right _ List.mem_cons_self) (text_plain b.timestamp).1
    | some q =>
      rw [second, elim_some] at same
      obtain ⟨times, priorities⟩ := append_sep_inj (text_plain a.timestamp).1 (text_plain b.timestamp).1 same
      exact ⟨text_injective times, congrArg some (text_injective priorities)⟩

/-- The caret tells whether there is a cardinality, and the last dash before it where it starts. -/
theorem body_injective {a b : Id N} (cleanA : a.Clean) (cleanB : b.Clean)
    (same : front written a ++ tail written a.cardinality.get? = front written b ++ tail written b.cardinality.get?) :
    front written a = front written b ∧ a.cardinality.get? = b.cardinality.get? := by
  cases first : a.cardinality.get? with
  | none =>
    rw [first, tail, elim_none, append_nil] at same
    cases second : b.cardinality.get? with
    | none =>
      rw [second, tail, elim_none, append_nil] at same
      exact ⟨same, rfl⟩
    | some d =>
      rw [second, tail, elim_some] at same
      have caret : 94 ∈ front written a := by
        rw [same]
        exact mem_append_right _ (List.mem_cons_of_mem _ (mem_append_right _ List.mem_cons_self))
      exact absurd caret (front_plain a)
  | some c =>
    rw [first, tail, elim_some] at same
    cases second : b.cardinality.get? with
    | none =>
      rw [second, tail, elim_none, append_nil] at same
      have caret : 94 ∈ front written b := by
        rw [← same]
        exact mem_append_right _ (List.mem_cons_of_mem _ (mem_append_right _ List.mem_cons_self))
      exact absurd caret (front_plain b)
    | some d =>
      obtain ⟨dashC, caretC⟩ := cleanA.group c first
      obtain ⟨dashD, caretD⟩ := cleanB.group d second
      have absent : ∀ (id : Id N) (group : JsString), 94 ∉ group → 94 ∉ front written id ++ 45 :: group := by
        intro id group free member
        rcases List.mem_append.mp member with early | late
        · exact front_plain id early
        · exact (List.mem_cons.mp late).elim (by decide) free
      rw [second, tail, elim_some, ← List.cons_append, ← List.cons_append, ← List.append_assoc,
        ← List.append_assoc] at same
      obtain ⟨before, numbers⟩ := append_sep_inj (absent a c.group caretC) (absent b d.group caretD) same
      obtain ⟨fronts, groups⟩ := JsString.split_unique 45 _ _ _ _ dashC dashD before
      refine ⟨fronts, congrArg some ?_⟩
      have values := text_injective numbers
      cases c
      cases d
      exact (Cardinality.mk.injEq _ _ _ _).mpr ⟨groups, values⟩

/-- The text of an id shows its site, its timestamp, its cardinality, and its priority if that is neither 0 nor
`NaN`. -/
theorem atomIdToString_iff {a b : Id N} (cleanA : a.Clean) (cleanB : b.Clean) :
    atomIdToString written a = atomIdToString written b ↔ a.site = b.site ∧ a.timestamp = b.timestamp ∧
      shownPriority written a.priority = shownPriority written b.priority ∧
      a.cardinality.get? = b.cardinality.get? := by
  rw [atomIdToString_eq, atomIdToString_eq]
  constructor
  · intro same
    obtain ⟨sites, bodies⟩ := append_sep_inj cleanA.site.1 cleanB.site.1 same
    obtain ⟨fronts, cardinalities⟩ := body_injective cleanA cleanB bodies
    obtain ⟨times, priorities⟩ := front_injective fronts
    exact ⟨sites, times, priorities, cardinalities⟩
  · rintro ⟨sites, times, priorities, cardinalities⟩
    rw [front, front, sites, times, priorities, cardinalities]

end Texts

/-! ### Comparisons -/

section Comparisons

variable {N : Type} [DecidableEq N] {written : Written N}

theorem strictEquals_iff (x y : Num N) : x.strictEquals y = true ↔ x = y ∧ x ≠ .nan := by
  cases x <;> cases y <;> simp [Num.strictEquals]

theorem priorityEquals_iff (second first : Field (Num N)) : priorityEquals second first = true ↔
    second.get? = first.get? ∧ second.get? ≠ some .nan := by
  cases second <;> cases first <;> simp [priorityEquals, Field.get?, strictEquals_iff]

theorem cardinalityEquals_iff {second first : Field (Cardinality N)} {oneCardinality : Bool}
    (one : oneCardinality = true → second = first) : cardinalityEquals oneCardinality second first = true ↔
      second.get? = first.get? ∧
        (oneCardinality = true ∨ ∀ cardinality, second.get? = some cardinality →
          cardinality.number ≠ .nan) := by
  cases oneCardinality with
  | true =>
    obtain rfl := one rfl
    cases second <;> simp [cardinalityEquals]
  | false =>
    cases second with
    | value c =>
      cases first with
      | value d =>
        cases c
        cases d
        simp [cardinalityEquals, Field.get?, strictEquals_iff, and_assoc]
      | _ => simp [cardinalityEquals, Field.get?]
    | _ => cases first <;> simp [cardinalityEquals, Field.get?]

theorem idEquals_iff {first second : Id N} {oneCardinality : Bool}
    (one : oneCardinality = true → second.cardinality = first.cardinality) :
    idEquals false oneCardinality first second = true ↔ (second.site = first.site ∧
      second.timestamp = first.timestamp ∧ second.timestamp ≠ .nan ∧
      second.priority.get? = first.priority.get? ∧ second.priority.get? ≠ some .nan ∧
      second.cardinality.get? = first.cardinality.get? ∧
      (oneCardinality = true ∨ ∀ cardinality, second.cardinality.get? = some cardinality →
        cardinality.number ≠ .nan)) := by
  rw [idEquals, Bool.false_or, Bool.and_eq_true, Bool.and_eq_true, Bool.and_eq_true, decide_eq_true_iff,
    strictEquals_iff, priorityEquals_iff, cardinalityEquals_iff one]
  simp only [and_assoc]

theorem shown_eq_some {priority : Field (Num N)} {p : Num N} (shown : shownPriority written priority = some p) :
    priority.get? = some p ∧ p ≠ .nan := by
  obtain ⟨found, truthy⟩ := Option.filter_eq_some_iff.mp shown
  refine ⟨found, ?_⟩
  rintro rfl
  cases truthy

theorem shown_eq_none {priority : Field (Num N)} (shown : shownPriority written priority = none) :
    priority.get? = none ∨ priority.get? = some .nan ∨ priority.get? = some (.number written.zero) := by
  rw [shownPriority] at shown
  cases found : priority.get? with
  | none => exact .inl rfl
  | some p =>
    rw [found] at shown
    cases p with
    | nan => exact .inr (.inl rfl)
    | number x =>
      refine .inr (.inr ?_)
      by_cases zero : x = written.zero
      · rw [zero]
      · simp [Option.filter, Num.truthy, zero] at shown

theorem priorities_iff {first second : Field (Num N)}
    (alike : shownPriority written first = shownPriority written second) :
    second.get? = first.get? ∧ second.get? ≠ some .nan ↔ PrioritiesClear written first second := by
  cases shown : shownPriority written first with
  | some p =>
    obtain ⟨left, number⟩ := shown_eq_some shown
    obtain ⟨right, _⟩ := shown_eq_some (alike ▸ shown)
    refine iff_of_true ⟨right.trans left.symm, ?_⟩ (.inl (by rw [shown]; exact Option.some_ne_none p))
    rw [right]
    exact fun same => number (Option.some.inj same)
  | none =>
    have left := shown_eq_none shown
    have right := shown_eq_none (alike ▸ shown)
    rw [PrioritiesClear, shown]
    rcases left with left | left | left <;> rcases right with right | right | right <;> simp [left, right]

/-- The comparisons of two ids agree where nothing that the texts leave out is different. `oneId` and `oneCardinality`
stand for references to one object. -/
theorem comparisons_agree_iff (written : Written N) (oneId oneCardinality : Bool) (first second : Id N)
    (cleanFirst : first.Clean) (cleanSecond : second.Clean) (same : oneId = true → first = second)
    (one : oneCardinality = true → first.cardinality = second.cardinality) :
    (idEquals oneId oneCardinality first second = true ↔
      atomIdToString written first = atomIdToString written second) ↔
      Clear written oneId oneCardinality first second := by
  cases oneId with
  | true =>
    obtain rfl := same rfl
    exact iff_of_true (iff_of_true rfl rfl) (.inl rfl)
  | false =>
    rw [idEquals_iff fun shared => (one shared).symm, atomIdToString_iff cleanFirst cleanSecond, Clear]
    by_cases sites : first.site = second.site
    · by_cases times : first.timestamp = second.timestamp
      · by_cases cardinalities : first.cardinality.get? = second.cardinality.get?
        · by_cases alike : shownPriority written first.priority = shownPriority written second.priority
          · rw [← priorities_iff alike]
            simp only [sites, times, cardinalities, alike, true_and, and_true, iff_true, ne_eq, not_true_eq_false,
              false_or, Bool.false_eq_true, and_assoc]
          · have apart : ¬ (second.priority.get? = first.priority.get?) :=
              fun equal => alike (by rw [shownPriority, shownPriority, equal])
            simp [apart, alike]
        · simp [cardinalities, Ne.symm cardinalities]
      · simp [times, Ne.symm times]
    · simp [sites, Ne.symm sites]

end Comparisons

/-! ### Numbers -/

section Numbers

open NumberTexts

/-- Integers only, as the atoms of the causal trees have them. -/
def writtenInts : Written Int where
  text := JsString.ofInt
  zero := 0
  injective := JsString.ofInt_injective
  plain x := by
    have absent : ∀ c : CodeUnit, c ∈ JsString.ofInt x → c ≠ 64 ∧ c ≠ 58 ∧ c ≠ 94 ∧ c ≠ 78 := by
      intro c member
      have code := JsString.ofInt_code x c member
      refine ⟨?_, ?_, ?_, ?_⟩ <;>
        · rintro rfl
          revert code
          decide
    exact ⟨fun member => (absent _ member).1 rfl, fun member => (absent _ member).2.1 rfl,
      fun member => (absent _ member).2.2.1 rfl, fun member => (absent _ member).2.2.2 rfl⟩

/-- An id of a site `a`, without a cardinality. -/
def plainId (priority : Field (Num Int)) : Id Int := ⟨[97], .number 5, priority, .undefined⟩

theorem plainId_clean (priority : Field (Num Int)) : (plainId priority).Clean := by
  have site : 64 ∉ ([97] : JsString) ∧ 58 ∉ ([97] : JsString) ∧ 45 ∉ ([97] : JsString) ∧ 94 ∉ ([97] : JsString) := by
    decide
  exact ⟨site, fun c found => by cases found⟩

theorem null_agrees : idEquals false false (plainId .null) (plainId .undefined) = true ↔
    atomIdToString writtenInts (plainId .null) = atomIdToString writtenInts (plainId .undefined) := by
  refine (comparisons_agree_iff writtenInts false false (plainId .null) (plainId .undefined) (plainId_clean _)
    (plainId_clean _) (by decide) (by decide)).mpr ?_
  refine .inr (.inr (.inr (.inr (.inr ⟨by decide, .inr (.inl ⟨rfl, rfl⟩), .inr ?_⟩))))
  exact fun c found => by cases found

/-- The weave finds the one id under the text of the other, and then takes them for different. -/
theorem zero_differs : (plainId (.value (.number 0))).Clean ∧ (plainId .undefined).Clean ∧
    ¬ (idEquals false false (plainId (.value (.number 0))) (plainId .undefined) = true ↔
      atomIdToString writtenInts (plainId (.value (.number 0))) =
        atomIdToString writtenInts (plainId .undefined)) := by
  refine ⟨plainId_clean _, plainId_clean _, fun agree => ?_⟩
  have different : idEquals false false (plainId (.value (.number 0))) (plainId .undefined) = false := by decide
  have alike : atomIdToString writtenInts (plainId (.value (.number 0))) =
      atomIdToString writtenInts (plainId .undefined) := by decide
  rw [agree.mpr alike] at different
  cases different

end Numbers

end CasualOS.IdTexts
