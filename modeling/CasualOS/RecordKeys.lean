import Mathlib.Data.String.Basic
import CasualOS.JsString
import CasualOS.Lib.Utf16

/-! The keys of records: their texts, and how `RecordsController` checks them over `MemoryRecordsStore`. -/

namespace CasualOS

open Option (bind_eq_some_iff)
open JsString (lit)

/-- What the keys need from elsewhere: `base64-js`, what `TextDecoder` reads where bytes are no UTF-8, and
the digests behind the two hashes. -/
structure Platform where
  fromByteArray : ByteArray → JsString
  toByteArray : JsString → Option ByteArray
  readMalformed : ByteArray → List Char
  scrypt : ByteArray → ByteArray → JsString
  hmac : ByteArray → ByteArray → JsString

/-! ### Texts and bytes -/

/-- `TextEncoder.encode`. -/
def encodeText (text : JsString) : ByteArray := (String.ofList (Utf16.decode text)).toUTF8

/-- A byte order mark, which `TextDecoder` drops at the start of a text. -/
def byteOrderMark : Char := Char.ofNat 0xFEFF

def dropMark (chars : List Char) : List Char :=
  if chars.head? = some byteOrderMark then chars.tail else chars

namespace Platform

variable (p : Platform)

/-- `TextDecoder.decode`. -/
def decodeText (bytes : ByteArray) : JsString :=
  match bytes.utf8Decode? with
  | some chars => Utf16.encode (dropMark chars.toList)
  | none => Utf16.encode (dropMark (p.readMalformed bytes))

def toBase64String (text : JsString) : JsString := p.fromByteArray (encodeText text)

def fromBase64String (base64 : JsString) : Option JsString := (p.toByteArray base64).map p.decodeText

/-- Nothing where the code throws. -/
def hashPasswordWithSalt (password salt : JsString) : Option JsString :=
  if password = [] ∨ salt = [] then none
  else (p.toByteArray salt).map
    (fun bytes => lit ['v', 'H', '1', '.'] ++ p.scrypt (encodeText password) bytes)

def hashHighEntropyPasswordWithSalt (password salt : JsString) : Option JsString :=
  if password = [] ∨ salt = [] then none
  else (p.toByteArray salt).map
    (fun bytes => lit ['v', 'H', '2', '.'] ++ p.hmac (encodeText password) bytes)

end Platform

/-! ### The texts of keys -/

def period : CodeUnit := Fin.ofNat 65536 46

def subjectfull : JsString :=
  lit ['s', 'u', 'b', 'j', 'e', 'c', 't', 'f', 'u', 'l', 'l']

def subjectless : JsString :=
  lit ['s', 'u', 'b', 'j', 'e', 'c', 't', 'l', 'e', 's', 's']

/-- `DEFAULT_RECORD_KEY_POLICY`. -/
def defaultPolicy : JsString := subjectfull

def versionOne : JsString := lit ['v', 'R', 'K', '1', '.']

def versionTwo : JsString := lit ['v', 'R', 'K', '2', '.']

def cutAtPeriod (text : JsString) : Option (JsString × JsString) :=
  (text.idxOf? period).map (fun i => (text.take i, text.drop (i + 1)))

def withoutVersion (version key : JsString) : Option JsString :=
  if version <+: key then some (key.drop version.length) else none

structure ParsedKey where
  name : JsString
  password : JsString
  policy : JsString
  deriving DecidableEq, Repr

namespace Platform

variable (p : Platform)

def formatV1RecordKey (recordName recordSecret : JsString) : JsString :=
  versionOne ++ (p.toBase64String recordName ++ period :: p.toBase64String recordSecret)

def formatV2RecordKey (recordName recordSecret : JsString) (keyPolicy : Option JsString) : JsString :=
  versionTwo ++ (p.toBase64String recordName ++ period ::
    (p.toBase64String recordSecret ++ period :: keyPolicy.getD defaultPolicy))

def parseV2RecordKey (key : JsString) : Option ParsedKey := do
  let rest ← withoutVersion versionTwo key
  let (nameBase64, passwordPlusPolicy) ← cutAtPeriod rest
  if nameBase64 = [] ∨ passwordPlusPolicy = [] then none
  else
    let (passwordBase64, policy) ← cutAtPeriod passwordPlusPolicy
    if passwordBase64 = [] ∨ policy = [] then none
    else if policy ≠ subjectfull ∧ policy ≠ subjectless then none
    else
      let name ← p.fromBase64String nameBase64
      let password ← p.fromBase64String passwordBase64
      some { name := name, password := password, policy := policy }

def parseV1RecordKey (key : JsString) : Option ParsedKey := do
  let rest ← withoutVersion versionOne key
  let (nameBase64, passwordBase64) ← cutAtPeriod rest
  if nameBase64 = [] ∨ passwordBase64 = [] then none
  else
    let name ← p.fromBase64String nameBase64
    let password ← p.fromBase64String passwordBase64
    some { name := name, password := password, policy := defaultPolicy }

def parseRecordKey (key : JsString) : Option ParsedKey :=
  (p.parseV2RecordKey key).or (p.parseV1RecordKey key)

def isRecordKey (key : JsString) : Bool := (p.parseRecordKey key).isSome

end Platform

/-! ### The store -/

structure Record where
  name : JsString
  ownerId : JsString
  secretHashes : List JsString
  secretSalt : JsString
  deriving DecidableEq, Repr

structure RecordKey where
  recordName : JsString
  secretHash : JsString
  policy : JsString
  creatorId : JsString
  deriving DecidableEq, Repr

structure MemoryRecordsStore where
  records : List Record
  recordKeys : List RecordKey
  deriving DecidableEq, Repr

namespace MemoryRecordsStore

def getRecordByName (s : MemoryRecordsStore) (name : JsString) : Option Record :=
  s.records.find? (fun r => r.name = name)

def addRecord (s : MemoryRecordsStore) (record : Record) : MemoryRecordsStore :=
  if s.records.any (fun r => r.name = record.name) then s
  else { s with records := s.records ++ [record] }

def addRecordKey (s : MemoryRecordsStore) (key : RecordKey) : MemoryRecordsStore :=
  if s.recordKeys.any (fun k => k.recordName = key.recordName ∧ k.secretHash = key.secretHash) then s
  else { s with recordKeys := s.recordKeys ++ [key] }

def getRecordKeyByRecordAndHash (s : MemoryRecordsStore) (recordName hash : JsString) :
    Option RecordKey :=
  s.recordKeys.find? (fun k => k.recordName = recordName ∧ k.secretHash = hash)

end MemoryRecordsStore

/-! ### Validation -/

inductive ValidateFailure where
  | invalidRecordKey
  | recordNotFound
  | serverError
  deriving DecidableEq, Repr

structure ValidateSuccess where
  recordName : JsString
  policy : JsString
  ownerId : JsString
  keyCreatorId : JsString
  deriving DecidableEq, Repr

/-- What the lookups of a secret give: the policy and the creator of the key that was found. -/
structure FoundSecret where
  valid : Bool
  policy : JsString
  creatorId : Option JsString
  deriving DecidableEq, Repr

namespace Platform

variable (p : Platform)

def findHash (s : MemoryRecordsStore) (record : Record) (name hash : JsString)
    (creatorOfRecord : Option JsString) : Option FoundSecret :=
  if hash ∈ record.secretHashes then
    some { valid := true, policy := defaultPolicy, creatorId := creatorOfRecord }
  else (s.getRecordKeyByRecordAndHash name hash).map
    (fun key => { valid := true, policy := key.policy, creatorId := some key.creatorId })

/-- Nothing where the code throws. -/
def findSecret (s : MemoryRecordsStore) (record : Record) (name password : JsString) :
    Option FoundSecret := do
  let hashV2 ← p.hashHighEntropyPasswordWithSalt password record.secretSalt
  match findHash s record name hashV2 (some record.ownerId) with
  | some found => some found
  | none =>
    let hash ← p.hashPasswordWithSalt password record.secretSalt
    some ((findHash s record name hash none).getD
      { valid := false, policy := defaultPolicy, creatorId := none })

def validatePublicRecordKey (s : MemoryRecordsStore) (key : JsString) :
    Except ValidateFailure ValidateSuccess :=
  match p.parseRecordKey key with
  | none => .error .invalidRecordKey
  | some parsed =>
    match s.getRecordByName parsed.name with
    | none => .error .recordNotFound
    | some record =>
      match p.findSecret s record parsed.name parsed.password with
      | none => .error .serverError
      | some found =>
        if found.policy ≠ parsed.policy then .error .invalidRecordKey
        else if found.valid then
          .ok
            { recordName := parsed.name
              policy := parsed.policy
              ownerId := record.ownerId
              keyCreatorId := found.creatorId.getD record.ownerId }
        else .error .invalidRecordKey

end Platform

def validateRecordName (s : MemoryRecordsStore) (name : JsString) : Except ValidateFailure JsString :=
  match s.getRecordByName name with
  | none => .error .recordNotFound
  | some record => .ok record.ownerId

/-! ### What is read from the text of a key -/

section Texts

/-- The documented behaviour of `base64-js`: what it writes it reads again, and it writes base64 digits
only. -/
structure Platform.Encodes (p : Platform) : Prop where
  reads : ∀ bytes, p.toByteArray (p.fromByteArray bytes) = some bytes
  digits : ∀ bytes, ∀ u ∈ p.fromByteArray bytes, u ≠ period ∧ u.val < 128
  filled : ∀ bytes, bytes ≠ ByteArray.empty → p.fromByteArray bytes ≠ []

/-- A text without a surrogate that lacks its other half. -/
def WellFormed (text : JsString) : Prop := ∃ chars, text = Utf16.encode chars

/-- A well-formed text that `TextDecoder` gives back whole. -/
def Plain (text : JsString) : Prop :=
  ∃ chars, text = Utf16.encode chars ∧ chars.head? ≠ some byteOrderMark

theorem cutAtPeriod_append (front back : JsString) (absent : period ∉ front) :
    cutAtPeriod (front ++ period :: back) = some (front, back) := by
  have place : (front ++ period :: back).idxOf? period = some front.length := by
    rw [List.idxOf?, List.findIdx?_append, List.findIdx?_eq_none_iff.mpr]
    · simp [List.findIdx?_cons]
    · intro u member
      have apart : u ≠ period := fun same => absent (same ▸ member)
      simpa using apart
  rw [cutAtPeriod, place]
  simp

theorem withoutVersion_append (version rest : JsString) : withoutVersion version (version ++ rest) = some rest := by
  rw [withoutVersion, if_pos (List.prefix_append version rest)]
  simp

theorem utf8Decode_encodeText (text : JsString) : (encodeText text).utf8Decode? = some (Utf16.decode text).toArray := by
  rw [encodeText, String.toUTF8_eq_toByteArray, String.toByteArray_ofList]
  exact List.utf8Decode?_utf8Encode

theorem encodeText_injective {first second : JsString} (formed : WellFormed first) (formed' : WellFormed second)
    (same : encodeText first = encodeText second) : first = second := by
  obtain ⟨chars, rfl⟩ := formed
  obtain ⟨chars', rfl⟩ := formed'
  have decoded := congrArg ByteArray.utf8Decode? same
  rw [utf8Decode_encodeText, utf8Decode_encodeText, Utf16.decode_encode, Utf16.decode_encode] at decoded
  have equal : chars.toArray = chars'.toArray := Option.some.inj decoded
  rw [List.toArray_inj equal]

theorem encodeText_filled (text : JsString) (filled : text ≠ []) : encodeText text ≠ ByteArray.empty := by
  intro empty
  have decoded := utf8Decode_encodeText text
  rw [empty, ByteArray.utf8Decode?_empty] at decoded
  have chars : Utf16.decode text = [] := by simpa using decoded.symm
  match text with
  | [] => exact filled rfl
  | [u] => simp [Utf16.decode] at chars
  | u :: v :: rest =>
    simp only [Utf16.decode] at chars
    split at chars
    · split at chars <;> cases chars
    · split at chars <;> cases chars

theorem toNat_ofNat_small (n : Nat) (small : n < 0xD800) : (Char.ofNat n).toNat = n := by
  have valid : n.isValidChar := .inl small
  rw [Char.ofNat, dif_pos valid]
  rfl

theorem wellFormed_ascii (text : JsString) (ascii : ∀ u ∈ text, u.val < 128) :
    text = Utf16.encode (text.map (fun u => Char.ofNat u.val)) := by
  induction text with
  | nil => rfl
  | cons u rest ih =>
    have small := ascii u List.mem_cons_self
    have later := ih (fun v member => ascii v (List.mem_cons_of_mem _ member))
    have value : (Char.ofNat u.val).toNat = u.val := toNat_ofNat_small u.val (by omega)
    have first : Utf16.encodeChar (Char.ofNat u.val) = [u] := by
      rw [Utf16.encodeChar, value, if_pos (by omega)]
      simp only [List.cons.injEq, and_true]
      exact Fin.ext (Utf16.unit_val u.val u.isLt)
    have split : Utf16.encode ((u :: rest).map (fun u => Char.ofNat u.val)) =
        Utf16.encodeChar (Char.ofNat u.val) ++ Utf16.encode (rest.map (fun u => Char.ofNat u.val)) :=
      List.flatMap_cons
    rw [split, first, ← later]
    rfl

theorem plain_ascii (text : JsString) (ascii : ∀ u ∈ text, u.val < 128) : Plain text := by
  refine ⟨_, wellFormed_ascii text ascii, fun mark => ?_⟩
  cases text with
  | nil => cases mark
  | cons u rest =>
    have small := ascii u List.mem_cons_self
    have same : Char.ofNat u.val = byteOrderMark := by simpa using mark
    have codes := congrArg Char.toNat same
    rw [toNat_ofNat_small u.val (by omega)] at codes
    have code : byteOrderMark.toNat = 0xFEFF := by decide
    omega

namespace Platform

variable {p : Platform}

theorem decodeText_encodeText (text : JsString) (plain : Plain text) : p.decodeText (encodeText text) = text := by
  have ⟨chars, same, noMark⟩ := plain
  have decoded : (encodeText text).utf8Decode? = some chars.toArray := by
    rw [utf8Decode_encodeText, same, Utf16.decode_encode]
  rw [decodeText, decoded]
  simp only [dropMark, noMark, if_false]
  exact same.symm

theorem fromBase64String_toBase64String (encodes : p.Encodes) (text : JsString) (plain : Plain text) :
    p.fromBase64String (p.toBase64String text) = some text := by
  rw [fromBase64String, toBase64String, encodes.reads, Option.map_some, decodeText_encodeText text plain]

theorem toBase64String_filled (encodes : p.Encodes) (text : JsString) (filled : text ≠ []) :
    p.toBase64String text ≠ [] := encodes.filled _ (encodeText_filled text filled)

theorem toBase64String_period (encodes : p.Encodes) (text : JsString) :
    period ∉ p.toBase64String text := fun member => (encodes.digits _ _ member).1 rfl

theorem parse_formatV2 (encodes : p.Encodes) (name secret : JsString) (policy : Option JsString)
    (plainName : Plain name) (plainSecret : Plain secret) (nameFilled : name ≠ [])
    (secretFilled : secret ≠ [])
    (known : policy.getD defaultPolicy = subjectfull ∨ policy.getD defaultPolicy = subjectless) :
    p.parseRecordKey (p.formatV2RecordKey name secret policy) =
      some { name := name, password := secret, policy := policy.getD defaultPolicy } := by
  have filledName := toBase64String_filled encodes name nameFilled
  have filledSecret := toBase64String_filled encodes secret secretFilled
  have policyFilled : policy.getD defaultPolicy ≠ [] := by
    rcases known with same | same
    · rw [same]
      decide
    · rw [same]
      decide
  have accepted : ¬ (policy.getD defaultPolicy ≠ subjectfull ∧ policy.getD defaultPolicy ≠ subjectless) :=
    fun both => known.elim both.1 both.2
  simp [parseRecordKey, parseV2RecordKey, formatV2RecordKey, withoutVersion_append,
    cutAtPeriod_append _ _ (toBase64String_period encodes name),
    cutAtPeriod_append _ _ (toBase64String_period encodes secret), filledName, filledSecret,
    policyFilled, accepted, fromBase64String_toBase64String encodes name plainName,
    fromBase64String_toBase64String encodes secret plainSecret]

theorem parse_formatV1 (encodes : p.Encodes) (name secret : JsString) (plainName : Plain name)
    (plainSecret : Plain secret) (nameFilled : name ≠ []) (secretFilled : secret ≠ []) :
    p.parseRecordKey (p.formatV1RecordKey name secret) =
      some { name := name, password := secret, policy := defaultPolicy } := by
  have filledName := toBase64String_filled encodes name nameFilled
  have filledSecret := toBase64String_filled encodes secret secretFilled
  have other : p.parseV2RecordKey (p.formatV1RecordKey name secret) = none := by
    have apart : withoutVersion versionTwo (p.formatV1RecordKey name secret) = none := by
      rw [withoutVersion, if_neg]
      intro ⟨rest, same⟩
      have fourth := congrArg (fun text : JsString => text[3]?) same
      change versionTwo[3]? = versionOne[3]? at fourth
      exact absurd fourth (by decide)
    rw [parseV2RecordKey, apart]
    rfl
  rw [parseRecordKey, other, Option.none_or]
  simp [parseV1RecordKey, formatV1RecordKey, withoutVersion_append,
    cutAtPeriod_append _ _ (toBase64String_period encodes name), filledName, filledSecret,
    fromBase64String_toBase64String encodes name plainName,
    fromBase64String_toBase64String encodes secret plainSecret]

theorem wellFormed_password (key : JsString) (parsed : ParsedKey)
    (read : p.parseRecordKey key = some parsed) : WellFormed parsed.password := by
  have decoded : ∀ text value, p.fromBase64String text = some value → WellFormed value := by
    intro text value made
    have ⟨bytes, _, same⟩ := Option.map_eq_some_iff.mp made
    rw [← same, decodeText]
    split
    · exact ⟨_, rfl⟩
    · exact ⟨_, rfl⟩
  rcases Option.or_eq_some_iff.mp read with second | ⟨_, first⟩
  · simp only [parseV2RecordKey, Option.bind_eq_bind, bind_eq_some_iff] at second
    have ⟨rest, _, cut, _, inner⟩ := second
    split at inner
    · cases inner
    · have ⟨cut', _, inner'⟩ := bind_eq_some_iff.mp inner
      split at inner'
      · cases inner'
      · split at inner'
        · cases inner'
        · have ⟨name, _, later⟩ := bind_eq_some_iff.mp inner'
          have ⟨password, made, same⟩ := bind_eq_some_iff.mp later
          rw [← Option.some.inj same]
          exact decoded _ _ made
  · simp only [parseV1RecordKey, Option.bind_eq_bind, bind_eq_some_iff] at first
    have ⟨rest, _, cut, _, inner⟩ := first
    split at inner
    · cases inner
    · have ⟨name, _, later⟩ := bind_eq_some_iff.mp inner
      have ⟨password, made, same⟩ := bind_eq_some_iff.mp later
      rw [← Option.some.inj same]
      exact decoded _ _ made

end Platform

end Texts

end CasualOS
