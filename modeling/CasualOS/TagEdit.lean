import CasualOS.Json

/-! The text of a value, and edits of it. -/

namespace CasualOS

open OrderedMap
open JsString (lit)

namespace Json

def hexDigit (n : Nat) : CodeUnit := Fin.ofNat 65536 (if n < 10 then 48 + n else 87 + n)

def escaped (c : CodeUnit) : JsString :=
  [92, 117, hexDigit (c.val / 4096), hexDigit (c.val / 256 % 16), hexDigit (c.val / 16 % 16),
    hexDigit (c.val % 16)]

def quoteUnit (c : CodeUnit) : JsString :=
  if c = 34 ∨ c = 92 then [92, c]
  else if c = 8 then [92, 98]
  else if c = 9 then [92, 116]
  else if c = 10 then [92, 110]
  else if c = 12 then [92, 102]
  else if c = 13 then [92, 114]
  else if c < 32 ∨ 55296 ≤ c ∧ c < 57344 then escaped c
  else [c]

/-- Of the surrogates only those in pairs stay as they are. -/
def quoteUnits : JsString → JsString
  | [] => []
  | [c] => quoteUnit c
  | c :: d :: rest =>
    if 55296 ≤ c ∧ c < 56320 ∧ 56320 ≤ d ∧ d < 57344 then c :: d :: quoteUnits rest
    else quoteUnit c ++ quoteUnits (d :: rest)

def quote (text : JsString) : JsString := 34 :: quoteUnits text ++ [34]

mutual

/-- `JSON.stringify` -/
def stringify : Json → JsString
  | .null => lit ['n', 'u', 'l', 'l']
  | .boolean true => lit ['t', 'r', 'u', 'e']
  | .boolean false => lit ['f', 'a', 'l', 's', 'e']
  | .integer n => JsString.ofInt n
  | .decimal text => text
  | .string text => quote text
  | .array items => 91 :: List.intercalate [44] (stringifyItems items) ++ [93]
  | .object fields => 123 :: List.intercalate [44] (stringifyFields fields) ++ [125]

def stringifyItems : List Json → List JsString
  | [] => []
  | value :: rest => stringify value :: stringifyItems rest

def stringifyFields : List (JsString × Json) → List JsString
  | [] => []
  | (name, value) :: rest => (quote name ++ 58 :: stringify value) :: stringifyFields rest

end

/-- A missing value, `null` and the empty text give the empty text. -/
def convertToString : Option Json → JsString
  | none | some .null => []
  | some (.string text) => text
  | some value => stringify value

end Json

/-! ### Tag edits -/

inductive TagEditOp where
  | preserve (count : Nat)
  | insert (text : JsString)
  | delete (count : Nat)

namespace TagEditOp

/-- An operation as the object that stands for it; the types that have no name here delete. -/
def ofJson (op : Json) : Option TagEditOp :=
  match op.field (lit ['t', 'y', 'p', 'e']), op.field (lit ['c', 'o', 'u', 'n', 't']),
    op.field (lit ['t', 'e', 'x', 't']) with
  | some (.string type), count, text =>
    if type = lit ['p', 'r', 'e', 's', 'e', 'r', 'v', 'e'] then
      match count with
      | some (.integer (.ofNat n)) => some (.preserve n)
      | _ => none
    else if type = lit ['i', 'n', 's', 'e', 'r', 't'] then
      match text with
      | some (.string inserted) => some (.insert inserted)
      | _ => none
    else
      match count with
      | some (.integer (.ofNat n)) => some (.delete n)
      | _ => none
  | _, _, _ => none

def deleted : TagEditOp → Nat
  | .delete count => count
  | _ => 0

end TagEditOp

namespace TagEdit

def tagEditName : JsString := 17 :: lit ['t', 'a', 'g', '_', 'e', 'd', 'i', 't']

def operationsName : JsString := lit ['o', 'p', 'e', 'r', 'a', 't', 'i', 'o', 'n', 's']

def versionName : JsString := lit ['v', 'e', 'r', 's', 'i', 'o', 'n']

def isRemoteName : JsString := lit ['i', 's', 'R', 'e', 'm', 'o', 't', 'e']

def isTrue : Option Json → Bool
  | some (.boolean value) => value
  | _ => false

end TagEdit

open TagEdit

def isTagEdit (value : Json) : Bool := isTrue (value.field tagEditName)

namespace TagEdit

def readOps : Json → Option (List TagEditOp)
  | .array ops => ops.mapM TagEditOp.ofJson
  | _ => none

def operations (edit : Json) : Option (List (List TagEditOp)) :=
  match edit.field operationsName with
  | some (.array lists) => lists.mapM readOps
  | _ => none

def timestamp : Option Json → Int
  | some (.integer time) => time
  | _ => 0

def versionFields (edit : Json) : Fields :=
  match edit.field versionName with
  | some (.object sites) => sites
  | _ => []

end TagEdit

/-- The latest timestamp of each site. -/
def mergeVersions (first second : Fields) : Fields :=
  combine (fun time other => match other with
    | none => time
    | some _ => some (.integer (max (timestamp time) (timestamp other)))) first second

def mergeEdits (first second : Json) : Option Json :=
  match first.field operationsName, second.field operationsName with
  | some (.array ops), some (.array more) =>
    some (.object ([(tagEditName, .boolean true),
      (versionName, .object (mergeVersions (versionFields first) (versionFields second))),
      (operationsName, .array (ops ++ more))] ++
        if isTrue (first.field isRemoteName) || isTrue (second.field isRemoteName) then
          [(isRemoteName, .boolean true)] else []))
  | _, _ => none

def splice (text : JsString) (index deleteCount : Nat) (inserted : JsString) : JsString :=
  text.take index ++ inserted ++ text.drop (index + deleteCount)

def applyOp : JsString × Nat → TagEditOp → JsString × Nat
  | (text, index), .preserve count => (text, index + count)
  | (text, index), .insert inserted => (splice text index 0 inserted, index + inserted.length)
  | (text, index), .delete count => (splice text index count [], index)

def applyOps (text : JsString) (ops : List TagEditOp) : JsString := (ops.foldl applyOp (text, 0)).1

def applyEdit (value : Option Json) (lists : List (List TagEditOp)) : JsString :=
  lists.foldl applyOps (Json.convertToString value)

def applyTagEdit (value : Option Json) (lists : List (List TagEditOp)) : Json :=
  match applyEdit value lists with
  | [] => .null
  | text => .string text

namespace TagEdit

theorem operations_mergeEdits (first second : Json) (a b : List (List TagEditOp))
    (left : operations first = some a) (right : operations second = some b) :
    ∃ edit, mergeEdits first second = some edit ∧ isTagEdit edit = true ∧ operations edit = some (a ++ b) := by
  unfold operations at left right
  split at left
  · next ops foundOps =>
      split at right
      · next more foundMore =>
          refine ⟨_, by simp only [mergeEdits, foundOps, foundMore]; rfl, ?_, ?_⟩
          · rfl
          · have joined : (ops ++ more).mapM readOps = some (a ++ b) := by
              rw [List.mapM_append, left, right]
              rfl
            exact joined
      · cases right
  · cases left

theorem isTrue_iff (value : Option Json) : isTrue value = true ↔ value = some (.boolean true) := by
  cases value with
  | none => simp [isTrue]
  | some v => cases v <;> simp [isTrue]

/-- An edit makes a text, or nothing of it. -/
theorem applyTagEdit_text (value : Option Json) (lists : List (List TagEditOp)) :
    applyTagEdit value lists = .null ∨ ∃ text, applyTagEdit value lists = .string text := by
  unfold applyTagEdit
  split
  · exact .inl rfl
  · exact .inr ⟨_, rfl⟩

theorem convertToString_applyTagEdit (value : Option Json) (lists : List (List TagEditOp)) :
    Json.convertToString (some (applyTagEdit value lists)) = applyEdit value lists := by
  unfold applyTagEdit
  split
  · next empty => exact empty.symm
  · rfl

theorem applyTagEdit_append (value : Option Json) (a b : List (List TagEditOp)) :
    applyTagEdit value (a ++ b) = applyTagEdit (some (applyTagEdit value a)) b := by
  have texts : applyEdit value (a ++ b) = applyEdit (some (applyTagEdit value a)) b := by
    rw [applyEdit, List.foldl_append, applyEdit, convertToString_applyTagEdit]
    rfl
  simp only [applyTagEdit, texts]

theorem length_applyOps (ops : List TagEditOp) (text : JsString) (index : Nat) :
    text.length ≤ (ops.foldl applyOp (text, index)).1.length + (ops.map TagEditOp.deleted).sum := by
  induction ops generalizing text index with
  | nil => simp
  | cons op rest ih =>
    rw [List.foldl_cons, List.map_cons, List.sum_cons]
    cases op with
    | preserve count =>
      have after := ih text (index + count)
      simp only [applyOp, TagEditOp.deleted]
      omega
    | insert inserted =>
      have after := ih (splice text index 0 inserted) (index + inserted.length)
      have longer : text.length ≤ (splice text index 0 inserted).length := by
        simp only [splice, List.length_append, List.length_take, List.length_drop]
        omega
      simp only [applyOp, TagEditOp.deleted]
      omega
    | delete count =>
      have after := ih (splice text index count []) index
      have enough : text.length ≤ (splice text index count []).length + count := by
        simp only [splice, List.length_append, List.length_take, List.length_drop, List.length_nil]
        omega
      simp only [applyOp, TagEditOp.deleted]
      omega

theorem length_applyEdit (lists : List (List TagEditOp)) (text : JsString) :
    text.length ≤ (lists.foldl applyOps text).length +
      (lists.map fun ops => (ops.map TagEditOp.deleted).sum).sum := by
  induction lists generalizing text with
  | nil => simp
  | cons ops rest ih =>
    have first := length_applyOps ops text 0
    have after := ih (applyOps text ops)
    rw [List.foldl_cons, List.map_cons, List.sum_cons]
    simp only [applyOps] at first after ⊢
    omega

theorem exists_text_apart (lists : List (List TagEditOp)) (result : Json) :
    ∃ text : JsString, applyTagEdit (some (.string text)) lists ≠ result := by
  let total := (lists.map fun ops => (ops.map TagEditOp.deleted).sum).sum
  let text : JsString := List.replicate ((Json.convertToString (some result)).length + total + 1) 0
  refine ⟨text, fun same => ?_⟩
  have size : text.length = (Json.convertToString (some result)).length + total + 1 :=
    List.length_replicate
  have enough : text.length ≤ (lists.foldl applyOps text).length + total := length_applyEdit lists text
  have shown : Json.convertToString (some result) = lists.foldl applyOps text := by
    rw [← same, convertToString_applyTagEdit]
    rfl
  rw [shown] at size
  omega

theorem merge_edit (v : Json) {w : Json} (edit : isTagEdit w = true) (readable : (operations w).isSome = true) :
    isTagEdit (Json.merge v w) = true ∧ operations (Json.merge v w) = operations w := by
  rcases Json.plain_or_objects v w with plain | ⟨first, second, rfl, rfl⟩
  · rw [Json.merge_other v w plain]
    exact ⟨edit, rfl⟩
  · have name : lookup tagEditName second = some (.boolean true) := (isTrue_iff _).mp edit
    have ⟨lists, ops⟩ : ∃ lists, lookup operationsName second = some (.array lists) := by
      simp only [operations, Json.field] at readable
      split at readable
      · next lists found => exact ⟨lists, found⟩
      · simp at readable
    have keeps : ∀ key value, lookup key second = some value → value.isObject = false →
        Json.field key (Json.merge (.object first) (.object second)) = some value := by
      intro key value found plain
      rw [Json.lookup_merge, found]
      cases lookup key first with
      | none => rfl
      | some x =>
        simp only
        rw [Json.merge_other _ _ (.inr plain)]
    constructor
    · rw [isTagEdit, keeps tagEditName _ name rfl]
      rfl
    · have own : Json.field operationsName (.object second) = some (.array lists) := ops
      simp only [operations, keeps operationsName _ ops rfl, own]

end TagEdit

end CasualOS
