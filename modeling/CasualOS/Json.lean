import CasualOS.JsString
import CasualOS.Lib.OrderedMap

/-! Tag values as JSON has them, and the merge of two of them. -/

namespace CasualOS

open OrderedMap

/-- A number that is no integer stands with its text. -/
inductive Json where
  | null
  | boolean (value : Bool)
  | integer (value : Int)
  | decimal (text : JsString)
  | string (text : JsString)
  | array (items : List Json)
  | object (fields : List (JsString × Json))

abbrev Fields := List (JsString × Json)

namespace Json

def isObject : Json → Bool
  | .object _ => true
  | _ => false

def field (name : JsString) : Json → Option Json
  | .object fields => lookup name fields
  | _ => none

mutual

/-- What `decide` makes of two values: two plain objects are merged, else the second one stands. -/
def merge : Json → Json → Json
  | .object first, .object second =>
    .object (mergeFields first second ++ second.filter fun entry => (lookup entry.1 first).isNone)
  | _, second => second

def mergeFields : List (JsString × Json) → List (JsString × Json) → List (JsString × Json)
  | [], _ => []
  | (name, value) :: rest, second =>
    (name, match lookup name second with
      | none => value
      | some other => merge value other) :: mergeFields rest second

end

/-- Deep equality, which does not see the order of the keys. -/
inductive Same : Json → Json → Prop where
  | refl (value : Json) : Same value value
  | array {first second : List Json} (length : first.length = second.length)
      (items : ∀ (i : Nat) v w, first[i]? = some v → second[i]? = some w → Same v w) :
      Same (.array first) (.array second)
  | object {first second : Fields} (keys : ∀ name, lookup name first = none ↔ lookup name second = none)
      (fields : ∀ name v w, lookup name first = some v → lookup name second = some w → Same v w) :
      Same (.object first) (.object second)

/-- Wherever both values are plain objects, the second has all keys of the first. -/
inductive Covers : Json → Json → Prop where
  | object {first second : Fields} (keys : ∀ name, lookup name second = none → lookup name first = none)
      (fields : ∀ name v w, lookup name first = some v → lookup name second = some w → Covers v w) :
      Covers (.object first) (.object second)
  | other {first second : Json} (plain : first.isObject = false ∨ second.isObject = false) :
      Covers first second

theorem lookup_mergeFields (name : JsString) (first second : Fields) : lookup name (mergeFields first second) =
      (lookup name first).map (fun value => match lookup name second with
        | none => value
        | some other => merge value other) := by
  induction first with
  | nil => simp [mergeFields, lookup]
  | cons entry rest ih =>
    rcases entry with ⟨key, value⟩
    by_cases same : name = key
    · subst key
      simp [mergeFields, lookup]
    · simp [mergeFields, lookup, same, ih]

theorem lookup_merge (name : JsString) (first second : Fields) : field name (merge (.object first) (.object second)) =
      match lookup name first, lookup name second with
      | some v, some w => some (merge v w)
      | some v, none => some v
      | none, w => w := by
  rw [merge]
  simp only [field]
  rw [lookup_append, lookup_mergeFields, lookup_filter name (fun key => (lookup key first).isNone) second]
  cases lookup name first <;> cases lookup name second <;> simp

theorem plain_or_objects (first second : Json) : (first.isObject = false ∨ second.isObject = false) ∨
      ∃ f g, first = .object f ∧ second = .object g := by
  cases first <;> cases second <;> simp [isObject]

theorem merge_other (first second : Json) (plain : first.isObject = false ∨ second.isObject = false) :
    merge first second = second := by
  cases first <;> cases second <;> first | rfl | simp [isObject] at plain

theorem sizeOf_lookup {name : JsString} {fields : Fields} {value : Json}
    (found : lookup name fields = some value) : sizeOf value < sizeOf (Json.object fields) := by
  have member := List.sizeOf_lt_of_mem (mem_of_lookup name value fields found)
  simp only [Prod.mk.sizeOf_spec, Json.object.sizeOf_spec] at member ⊢
  omega

theorem same_fields {first second : Fields} (same : Same (.object first) (.object second)) :
    (∀ name, lookup name first = none ↔ lookup name second = none) ∧
      ∀ name v w, lookup name first = some v → lookup name second = some w → Same v w := by
  cases same with
  | refl =>
    refine ⟨fun name => Iff.rfl, fun name v w left right => ?_⟩
    rw [left] at right
    exact Option.some.inj right ▸ .refl v
  | object keys fields => exact ⟨keys, fields⟩

/-- A merge makes nothing but the second value where the second value has all keys. -/
theorem merge_same (first second : Json) (covers : Covers first second) : Same (merge first second) second := by
  induction covers with
  | @object f g keys fields ih =>
    rw [merge]
    have found := fun name => lookup_merge name f g
    simp only [merge, field] at found
    apply Same.object
    · intro name
      rw [found]
      cases left : lookup name f with
      | none => cases lookup name g <;> simp
      | some v =>
        cases right : lookup name g with
        | none => simp [keys name right] at left
        | some w => simp
    · intro name v w merged right
      rw [found, right] at merged
      cases left : lookup name f with
      | none =>
        rw [left] at merged
        exact Option.some.inj merged ▸ .refl w
      | some u =>
        rw [left] at merged
        exact Option.some.inj merged ▸ ih name u w left right
  | other plain =>
    rw [merge_other _ _ plain]
    exact .refl _

theorem covers_of_merge (first second : Json) (same : Same (merge first second) second) : Covers first second := by
  rcases plain_or_objects first second with plain | ⟨f, g, isF, isG⟩
  · exact .other plain
  · have found := fun name => lookup_merge name f g
    rw [isF, isG, merge] at same
    rw [merge] at found
    rw [isF, isG]
    simp only [field] at found
    have ⟨keys, fields⟩ := same_fields same
    apply Covers.object
    · intro name missing
      have none := (keys name).mpr missing
      rw [found, missing] at none
      cases left : lookup name f with
      | none => rfl
      | some v => simp [left] at none
    · intro name v w left right
      have smaller : sizeOf v < sizeOf first := isF ▸ sizeOf_lookup left
      apply covers_of_merge v w
      apply fields name _ w _ right
      rw [found, left, right]
termination_by sizeOf first
decreasing_by exact smaller

end Json

end CasualOS
