import CasualOS.RecordKeys
import CasualOS.RedisUpdates
import CasualOS.Lib.Delimited

/-! Requests to AWS, and the texts of them that are signed. -/

namespace CasualOS.CanonicalRequests

open Delimited
open RedisUpdates (isWhiteSpace)
open List (mem_cons mem_map pairwise_map)
open JsString (lit)

/-! ### Texts -/

def newline : CodeUnit := 10

def ampersand : CodeUnit := 38

def colon : CodeUnit := 58

def semicolon : CodeUnit := 59

def equalsSign : CodeUnit := 61

def isUnreserved (ch : Nat) : Bool :=
  (65 ≤ ch && ch ≤ 90) || (97 ≤ ch && ch ≤ 122) || (48 ≤ ch && ch ≤ 57) || ch ∈ [95, 45, 126, 46]

def encodeHexUtf8 (char : Nat) : JsString :=
  let hex := lit ((Nat.toDigits 16 char).map Char.toUpper)
  37 :: (if hex.length = 1 then 48 :: hex else hex)

def encodeByte (encodeSlash : Bool) (ch : UInt8) : JsString :=
  if isUnreserved ch.toNat then [Fin.ofNat 65536 ch.toNat]
  else if ch.toNat = 47 then (if encodeSlash then lit ['%', '2', 'F'] else [47])
  else encodeHexUtf8 ch.toNat

/-- All that is pushed is ASCII, which `TextDecoder` reads as it is. -/
def canonicalUriEncode (input : JsString) (encodeSlash : Bool) : JsString :=
  (encodeText input).data.toList.flatMap (encodeByte encodeSlash)

/-- `String.prototype.trim`. -/
def trim (text : JsString) : JsString :=
  ((text.dropWhile isWhiteSpace).reverse.dropWhile isWhiteSpace).reverse

/-! ### Requests -/

inductive Method where
  | get
  | post
  | put
  | delete
  deriving DecidableEq, Repr

def Method.text : Method → JsString
  | .get => lit ['G', 'E', 'T']
  | .post => lit ['P', 'O', 'S', 'T']
  | .put => lit ['P', 'U', 'T']
  | .delete => lit ['D', 'E', 'L', 'E', 'T', 'E']

/-- The properties of an object with their values, in the order of its keys. -/
abbrev Entries := List (JsString × JsString)

structure CanonicalRequest where
  method : Method
  path : JsString
  headers : Entries
  queryString : Entries
  payloadSha256Hex : JsString
  deriving DecidableEq, Repr

section Canonical

variable (toLowerCase : JsString → JsString)

def encodedParam (param : JsString × JsString) : JsString :=
  canonicalUriEncode param.1 true ++ equalsSign :: canonicalUriEncode param.2 true

def queryStringParams (request : CanonicalRequest) : Entries :=
  sortByKey (fun param => canonicalUriEncode param.1 true) request.queryString

def sortedHeaders (request : CanonicalRequest) : Entries :=
  sortByKey (fun header => toLowerCase header.1) request.headers

def headerNames (request : CanonicalRequest) : List JsString :=
  (sortedHeaders toLowerCase request).map (fun header => toLowerCase header.1)

def headerLine (header : JsString × JsString) : JsString :=
  toLowerCase header.1 ++ colon :: trim header.2

def createCanonicalRequest (request : CanonicalRequest) : JsString :=
  request.method.text ++ newline :: (canonicalUriEncode request.path false ++ newline ::
    (join ampersand ((queryStringParams request).map encodedParam) ++ newline ::
      (lines newline ((sortedHeaders toLowerCase request).map (headerLine toLowerCase)) ++ newline ::
        (join semicolon (headerNames toLowerCase request) ++ newline ::
          toLowerCase request.payloadSha256Hex))))

end Canonical

/-! ### Signed requests -/

/-- The fields of a date in UTC, whose months count from zero. -/
structure UtcDate where
  fullYear : Nat
  month : Nat
  date : Nat
  hours : Nat
  minutes : Nat
  seconds : Nat
  deriving DecidableEq, Repr

/-- `padStart` to two digits. -/
def twoDigits (n : Nat) : JsString :=
  let digits := JsString.ofInt n
  if digits.length < 2 then 48 :: digits else digits

def getDateString (date : UtcDate) : JsString :=
  JsString.ofInt date.fullYear ++ twoDigits (1 + date.month) ++ twoDigits date.date

def getAmzDateString (date : UtcDate) : JsString :=
  getDateString date ++ lit ['T'] ++ twoDigits date.hours ++ twoDigits date.minutes ++
    twoDigits date.seconds ++ lit ['Z']

inductive HmacKey where
  | text (key : JsString)
  | bytes (key : List Nat)
  deriving DecidableEq, Repr

/-- The digests of `hash.js`. -/
structure Digests where
  sha256Hex : JsString → JsString
  hmac : HmacKey → JsString → List Nat
  hmacHex : HmacKey → JsString → JsString

def slash : JsString := lit ['/']

def signingAlgorithm : JsString := lit "AWS4-HMAC-SHA256".toList

def terminator : JsString := lit "aws4_request".toList

def createStringToSign (d : Digests) (canonicalRequest : JsString) (date : UtcDate) (region service : JsString) :
    JsString :=
  signingAlgorithm ++ newline :: (getAmzDateString date ++ newline ::
    (getDateString date ++ slash ++ region ++ slash ++ service ++ slash ++ terminator ++ newline ::
      d.sha256Hex canonicalRequest))

def createSigningKey (d : Digests) (secretAccessKey : JsString) (date : UtcDate) (region service : JsString) :
    List Nat :=
  let dateKey := d.hmac (.text (lit ['A', 'W', 'S', '4'] ++ secretAccessKey)) (getDateString date)
  let dateRegionKey := d.hmac (.bytes dateKey) region
  let dateRegionServiceKey := d.hmac (.bytes dateRegionKey) service
  d.hmac (.bytes dateRegionServiceKey) terminator

def createAWS4Signature (d : Digests) (stringToSign secretAccessKey : JsString) (date : UtcDate)
    (region service : JsString) : JsString :=
  d.hmacHex (.bytes (createSigningKey d secretAccessKey date region service)) stringToSign

/-- A property keeps its place when it is written again. -/
def setEntry (entries : Entries) (name value : JsString) : Entries :=
  if name ∈ entries.map Prod.fst then
    entries.map (fun entry => if entry.1 = name then (name, value) else entry)
  else entries ++ [(name, value)]

section Signed

variable (toLowerCase : JsString → JsString)

def datedRequest (request : CanonicalRequest) (date : UtcDate) : CanonicalRequest :=
  { request with
    headers := setEntry (setEntry request.headers (lit "x-amz-date".toList) (getAmzDateString date))
      (lit "x-amz-content-sha256".toList) (toLowerCase request.payloadSha256Hex) }

/-- The names that the signature says it covers. -/
def signedHeaders (request : CanonicalRequest) : List JsString :=
  (request.headers.map (fun header => toLowerCase header.1)).insertionSort (fun first second => first ≤ second)

def authorizationText (credential : JsString) (names : List JsString) (signature : JsString) : JsString :=
  signingAlgorithm ++ lit " Credential=".toList ++ credential ++
    lit ",SignedHeaders=".toList ++ join semicolon names ++ lit ",Signature=".toList ++ signature

def signRequest (d : Digests) (request : CanonicalRequest) (secretAccessKey accessKeyId : JsString)
    (date : UtcDate) (region service : JsString) : CanonicalRequest :=
  let dated := datedRequest toLowerCase request date
  let stringToSign :=
    createStringToSign d (createCanonicalRequest toLowerCase dated) date region service
  let signature := createAWS4Signature d stringToSign secretAccessKey date region service
  let credential := accessKeyId ++ slash ++ getDateString date ++ slash ++ region ++ slash ++ service ++
    slash ++ terminator
  { dated with
    headers := setEntry dated.headers (lit "Authorization".toList)
      (authorizationText credential (signedHeaders toLowerCase dated) signature)
    payloadSha256Hex := toLowerCase request.payloadSha256Hex }

end Signed

/-! ### What the texts leave readable -/

section Encoding

def hexValue (u : CodeUnit) : Nat := if u.val ≤ 57 then u.val - 48 else u.val - 55

/-- The byte at the front of an encoded text. -/
def readByte : JsString → Option (UInt8 × JsString)
  | [] => none
  | 37 :: high :: low :: rest => some (UInt8.ofNat (hexValue high * 16 + hexValue low), rest)
  | u :: rest => some (UInt8.ofNat u.val, rest)

/-- A unit that stands for itself in a query. -/
def isPlain (u : CodeUnit) : Bool := u ≠ newline ∧ u ≠ ampersand ∧ u ≠ equalsSign

/-- One unit other than the percent sign, or three that start with it. -/
def isCode (b : UInt8) : JsString → Bool
  | [u] => u ≠ 37 ∧ UInt8.ofNat u.val = b ∧ isPlain u
  | [percent, high, low] =>
    percent = 37 ∧ UInt8.ofNat (hexValue high * 16 + hexValue low) = b ∧ isPlain high ∧ isPlain low
  | _ => false

theorem encodeByte_code (encodeSlash : Bool) (b : UInt8) : isCode b (encodeByte encodeSlash b) = true := by
  have all : ∀ slash : Bool, ∀ n : Fin 256,
      isCode (UInt8.ofNat n.val) (encodeByte slash (UInt8.ofNat n.val)) = true := by
    decide +kernel
  have same : UInt8.ofNat b.toNat = b := UInt8.ofNat_toNat
  exact same ▸ all encodeSlash ⟨b.toNat, b.toNat_lt⟩

theorem code_cases {b : UInt8} {code : JsString} (isCode' : isCode b code = true) :
    (∃ u, code = [u] ∧ u ≠ 37 ∧ UInt8.ofNat u.val = b ∧ isPlain u = true) ∨
      ∃ high low, code = [37, high, low] ∧ UInt8.ofNat (hexValue high * 16 + hexValue low) = b ∧
        isPlain high = true ∧ isPlain low = true := by
  unfold isCode at isCode'
  split at isCode'
  · rename_i u
    exact .inl ⟨u, rfl, of_decide_eq_true isCode'⟩
  · rename_i percent high low
    have ⟨same, rest⟩ := of_decide_eq_true isCode'
    exact .inr ⟨high, low, by rw [same], rest⟩
  · cases isCode'

theorem readByte_encodeByte (encodeSlash : Bool) (b : UInt8) (rest : JsString) :
    readByte (encodeByte encodeSlash b ++ rest) = some (b, rest) := by
  rcases code_cases (encodeByte_code encodeSlash b) with ⟨u, code, other, same, _⟩ | ⟨high, low, code, same, _⟩
  · rw [code, List.singleton_append]
    unfold readByte
    split
    · rename_i empty
      cases empty
    · rename_i percent
      exact absurd (List.cons.inj percent).1 other
    · rename_i units
      have ⟨heads, tails⟩ := List.cons.inj units
      rw [← heads, ← tails, same]
  · rw [code]
    exact congrArg (fun byte => some (byte, rest)) same

theorem canonicalUriEncode_injective {encodeSlash : Bool} {first second : JsString} (formed : WellFormed first)
    (formed' : WellFormed second)
    (same : canonicalUriEncode first encodeSlash = canonicalUriEncode second encodeSlash) : first = second := by
  have bytes := flatMap_injective (readByte_encodeByte encodeSlash) rfl same
  exact encodeText_injective formed formed' (ByteArray.ext (Array.toList_inj.mp bytes))

theorem plain_canonicalUriEncode {input : JsString} {encodeSlash : Bool} {u : CodeUnit}
    (member : u ∈ canonicalUriEncode input encodeSlash) : isPlain u = true := by
  have ⟨b, _, inside⟩ := List.mem_flatMap.mp member
  rcases code_cases (encodeByte_code encodeSlash b) with ⟨v, code, _, _, plain⟩ | ⟨high, low, code, _, first, second⟩
  · rw [code] at inside
    exact List.mem_singleton.mp inside ▸ plain
  · rw [code] at inside
    rcases mem_cons.mp inside with same | later
    · rw [same]
      decide
    · rcases List.mem_pair.mp later with same | same
      · exact same ▸ first
      · exact same ▸ second

end Encoding

/-! ### Headers -/

section Headers

def isTokenUnit (u : CodeUnit) : Bool :=
  (65 ≤ u.val && u.val ≤ 90) || (97 ≤ u.val && u.val ≤ 122) || (48 ≤ u.val && u.val ≤ 57) ||
    u.val ∈ [33, 35, 36, 37, 38, 39, 42, 43, 45, 46, 94, 95, 96, 124, 126]

structure Token (name : JsString) : Prop where
  filled : name ≠ []
  units : ∀ u ∈ name, isTokenUnit u = true

def lowerUnit (u : CodeUnit) : CodeUnit := if 65 ≤ u.val ∧ u.val ≤ 90 then Fin.ofNat 65536 (u.val + 32) else u

/-- `String.prototype.toLowerCase` on texts that are ASCII. -/
structure LowersAscii (toLowerCase : JsString → JsString) : Prop where
  ascii : ∀ text : JsString, (∀ u ∈ text, u.val < 128) → toLowerCase text = text.map lowerUnit

theorem token_codes {u : CodeUnit} (token : isTokenUnit u = true) :
    33 ≤ u.val ∧ u.val < 128 ∧ u.val ≠ 58 ∧ u.val ≠ 59 := by
  simp only [isTokenUnit, Bool.or_eq_true, Bool.and_eq_true, decide_eq_true_eq, mem_cons,
    List.not_mem_nil, or_false] at token
  omega

theorem token_lower {u : CodeUnit} (token : isTokenUnit u = true) : lowerUnit u ≠ colon ∧ lowerUnit u ≠ newline := by
  have codes := token_codes token
  have apart : ∀ v : CodeUnit, 33 ≤ v.val → v.val ≠ 58 → v ≠ colon ∧ v ≠ newline := by
    intro v low other
    constructor
    · intro same
      exact other (congrArg Fin.val same)
    · intro same
      have code : v.val = 10 := congrArg Fin.val same
      omega
  unfold lowerUnit
  split
  · rename_i capital
    have value : (Fin.ofNat 65536 (u.val + 32)).val = u.val + 32 := Nat.mod_eq_of_lt (by omega)
    exact apart _ (by omega) (by omega)
  · exact apart u codes.1 codes.2.2.1

variable {toLowerCase : JsString → JsString}

theorem token_lowered (lowers : LowersAscii toLowerCase) {name : JsString} (token : Token name) :
    toLowerCase name ≠ [] ∧ colon ∉ toLowerCase name ∧ newline ∉ toLowerCase name := by
  have lowered := lowers.ascii name (fun u member => (token_codes (token.units u member)).2.1)
  have apart : ∀ u ∈ toLowerCase name, u ≠ colon ∧ u ≠ newline := by
    intro u member
    rw [lowered] at member
    obtain ⟨v, inside, rfl⟩ := mem_map.mp member
    exact token_lower (token.units v inside)
  refine ⟨?_, fun member => (apart _ member).1 rfl, fun member => (apart _ member).2 rfl⟩
  rw [lowered]
  exact fun nothing => token.filled (List.map_eq_nil_iff.mp nothing)

theorem mem_of_trim {text : JsString} {u : CodeUnit} (member : u ∈ trim text) : u ∈ text := by
  have inside := (List.dropWhile_suffix _).subset (List.mem_reverse.mp member)
  exact (List.dropWhile_suffix _).subset (List.mem_reverse.mp inside)

end Headers

/-! ### Requests that have one text -/

section Requests

variable (toLowerCase : JsString → JsString)

/-- Well-formed texts, headers that may be sent, and no two names alike. -/
structure Proper (request : CanonicalRequest) : Prop where
  path : WellFormed request.path
  query : ∀ param ∈ request.queryString, WellFormed param.1 ∧ WellFormed param.2
  params : (request.queryString.map Prod.fst).Nodup
  tokens : ∀ header ∈ request.headers, Token header.1
  names : (request.headers.map (fun header => toLowerCase header.1)).Nodup
  values : ∀ header ∈ request.headers, newline ∉ header.2

def meant (header : JsString × JsString) : JsString × JsString := (toLowerCase header.1, trim header.2)

structure SameRequest (first second : CanonicalRequest) : Prop where
  method : first.method = second.method
  path : first.path = second.path
  query : first.queryString.Perm second.queryString
  headers : (first.headers.map (meant toLowerCase)).Perm (second.headers.map (meant toLowerCase))
  payload : toLowerCase first.payloadSha256Hex = toLowerCase second.payloadSha256Hex

variable {toLowerCase} {request first second : CanonicalRequest}

theorem perm_queryStringParams (request : CanonicalRequest) :
    (queryStringParams request).Perm request.queryString := perm_sortByKey _ _

theorem perm_meant (request : CanonicalRequest) : ((sortedHeaders toLowerCase request).map (meant toLowerCase)).Perm
      (request.headers.map (meant toLowerCase)) := (perm_sortByKey _ _).map _

theorem mem_sortedHeaders {header : JsString × JsString} :
    header ∈ sortedHeaders toLowerCase request ↔ header ∈ request.headers :=
  (perm_sortByKey _ request.headers).mem_iff

theorem mem_queryStringParams {param : JsString × JsString} :
    param ∈ queryStringParams request ↔ param ∈ request.queryString :=
  (perm_sortByKey _ request.queryString).mem_iff

theorem not_mem_canonicalUriEncode {input : JsString} {encodeSlash : Bool} {u : CodeUnit}
    (special : isPlain u = false) : u ∉ canonicalUriEncode input encodeSlash := by
  intro member
  rw [plain_canonicalUriEncode member] at special
  cases special

theorem encodedParam_part (param : JsString × JsString) : Part ampersand (encodedParam param) := by
  constructor
  · exact fun nothing => List.cons_ne_nil _ _ (List.append_eq_nil_iff.mp nothing).2
  · intro member
    rcases List.mem_append.mp member with front | back
    · exact not_mem_canonicalUriEncode (by decide) front
    · rcases mem_cons.mp back with same | value
      · exact absurd same (by decide)
      · exact not_mem_canonicalUriEncode (by decide) value

theorem newline_not_mem_query (params : Entries) : newline ∉ join ampersand (params.map encodedParam) := by
  intro member
  rcases mem_join member with same | ⟨text, inside, there⟩
  · exact absurd same (by decide)
  · obtain ⟨param, _, rfl⟩ := mem_map.mp inside
    rcases List.mem_append.mp there with front | back
    · exact not_mem_canonicalUriEncode (by decide) front
    · rcases mem_cons.mp back with same | value
      · exact absurd same (by decide)
      · exact not_mem_canonicalUriEncode (by decide) value

theorem encodedParam_inj {param other : JsString × JsString} (formed : WellFormed param.1 ∧ WellFormed param.2)
    (formed' : WellFormed other.1 ∧ WellFormed other.2) (same : encodedParam param = encodedParam other) :
    param = other := by
  have ⟨names, values⟩ := append_sep_inj (not_mem_canonicalUriEncode (by decide))
    (not_mem_canonicalUriEncode (by decide)) same
  exact Prod.ext (canonicalUriEncode_injective formed.1 formed'.1 names)
    (canonicalUriEncode_injective formed.2 formed'.2 values)

theorem headerLine_part (lowers : LowersAscii toLowerCase) (proper : Proper toLowerCase request)
    {header : JsString × JsString} (member : header ∈ request.headers) :
    Part newline (headerLine toLowerCase header) := by
  have ⟨_, _, clean⟩ := token_lowered lowers (proper.tokens header member)
  constructor
  · exact fun nothing => List.cons_ne_nil _ _ (List.append_eq_nil_iff.mp nothing).2
  · intro inside
    rcases List.mem_append.mp inside with front | back
    · exact clean front
    · rcases mem_cons.mp back with same | value
      · exact absurd same (by decide)
      · exact proper.values header member (mem_of_trim value)

theorem headerLine_inj (lowers : LowersAscii toLowerCase) {header other : JsString × JsString}
    (token : Token header.1) (token' : Token other.1)
    (same : headerLine toLowerCase header = headerLine toLowerCase other) :
    meant toLowerCase header = meant toLowerCase other := by
  have ⟨names, values⟩ := append_sep_inj (token_lowered lowers token).2.1 (token_lowered lowers token').2.1 same
  exact Prod.ext names values

theorem headerNames_eq (request : CanonicalRequest) : headerNames toLowerCase request =
      ((sortedHeaders toLowerCase request).map (meant toLowerCase)).map Prod.fst := by
  rw [List.map_map]
  rfl

theorem headerLines_eq (request : CanonicalRequest) : (sortedHeaders toLowerCase request).map (headerLine toLowerCase) =
      ((sortedHeaders toLowerCase request).map (meant toLowerCase)).map
        (fun header => header.1 ++ colon :: header.2) := by
  rw [List.map_map]
  rfl

theorem newline_not_mem_method (method : Method) : newline ∉ method.text := by
  cases method <;> decide

theorem method_text_inj {method other : Method} (same : method.text = other.text) : method = other := by
  cases method <;> cases other <;> first | rfl | exact absurd same (by decide)

theorem same_of_canonical (lowers : LowersAscii toLowerCase) (proper : Proper toLowerCase first)
    (proper' : Proper toLowerCase second)
    (same : createCanonicalRequest toLowerCase first = createCanonicalRequest toLowerCase second) :
    SameRequest toLowerCase first second := by
  have ⟨methods, afterMethod⟩ := append_sep_inj (newline_not_mem_method first.method)
    (newline_not_mem_method second.method) same
  have ⟨paths, afterPath⟩ := append_sep_inj (not_mem_canonicalUriEncode (by decide))
    (not_mem_canonicalUriEncode (by decide)) afterMethod
  have ⟨queries, afterQuery⟩ := append_sep_inj (newline_not_mem_query _) (newline_not_mem_query _) afterPath
  have lined : ∀ request, Proper toLowerCase request →
      ∀ line ∈ (sortedHeaders toLowerCase request).map (headerLine toLowerCase), Part newline line := by
    intro request proper line member
    obtain ⟨header, inside, rfl⟩ := mem_map.mp member
    exact headerLine_part lowers proper (mem_sortedHeaders.mp inside)
  have ⟨headers, afterHeaders⟩ := lines_inj (lined first proper) (lined second proper') afterQuery
  have sortedMeant : (sortedHeaders toLowerCase first).map (meant toLowerCase) =
      (sortedHeaders toLowerCase second).map (meant toLowerCase) := by
    refine map_eq_of_map_eq (fun header member other member' => ?_) headers
    exact headerLine_inj lowers (proper.tokens header (mem_sortedHeaders.mp member))
      (proper'.tokens other (mem_sortedHeaders.mp member'))
  have params : (queryStringParams first).map encodedParam = (queryStringParams second).map encodedParam := by
    refine join_inj (fun text member => ?_) (fun text member => ?_) queries
    · obtain ⟨param, _, rfl⟩ := mem_map.mp member
      exact encodedParam_part param
    · obtain ⟨param, _, rfl⟩ := mem_map.mp member
      exact encodedParam_part param
  have sortedParams : (queryStringParams first).map id = (queryStringParams second).map id := by
    refine map_eq_of_map_eq (fun param member other member' => ?_) params
    exact encodedParam_inj (proper.query param (mem_queryStringParams.mp member))
      (proper'.query other (mem_queryStringParams.mp member'))
  rw [List.map_id, List.map_id] at sortedParams
  rw [headerNames_eq, headerNames_eq, sortedMeant] at afterHeaders
  exact
    { method := method_text_inj methods
      path := canonicalUriEncode_injective proper.path proper'.path paths
      query := (perm_queryStringParams first).symm.trans (sortedParams ▸ perm_queryStringParams second)
      headers := (perm_meant first).symm.trans (sortedMeant ▸ perm_meant second)
      payload := (List.cons.inj (List.append_cancel_left afterHeaders)).2 }

theorem encoded_nodup (proper : Proper toLowerCase request) :
    (request.queryString.map (fun param => canonicalUriEncode param.1 true)).Nodup := by
  have distinct := pairwise_map.mp proper.params
  refine pairwise_map.mpr (distinct.imp_of_mem (fun member member' differ same => differ ?_))
  exact canonicalUriEncode_injective (proper.query _ member).1 (proper.query _ member').1 same

theorem params_eq (proper : Proper toLowerCase first) (proper' : Proper toLowerCase second)
    (same : first.queryString.Perm second.queryString) : queryStringParams first = queryStringParams second :=
  eq_of_perm_sorted (sorted_strictly (encoded_nodup proper)) (sorted_strictly (encoded_nodup proper'))
    ((perm_queryStringParams first).trans (same.trans (perm_queryStringParams second).symm))

theorem meant_eq (proper : Proper toLowerCase first) (proper' : Proper toLowerCase second)
    (same : (first.headers.map (meant toLowerCase)).Perm (second.headers.map (meant toLowerCase))) :
    (sortedHeaders toLowerCase first).map (meant toLowerCase) =
      (sortedHeaders toLowerCase second).map (meant toLowerCase) := by
  have sorted : ∀ request, Proper toLowerCase request → ((sortedHeaders toLowerCase request).map
      (meant toLowerCase)).Pairwise (fun left right => left.1 < right.1) :=
    fun request proper => pairwise_map.mpr (sorted_strictly proper.names)
  exact @eq_of_perm_sorted _ _ _ Prod.fst _ _ (sorted first proper) (sorted second proper')
    ((perm_meant first).trans (same.trans (perm_meant second).symm))

theorem canonical_of_same (proper : Proper toLowerCase first) (proper' : Proper toLowerCase second)
    (same : SameRequest toLowerCase first second) :
    createCanonicalRequest toLowerCase first = createCanonicalRequest toLowerCase second := by
  unfold createCanonicalRequest
  rw [headerNames_eq, headerNames_eq, headerLines_eq, headerLines_eq, meant_eq proper proper' same.headers,
    params_eq proper proper' same.query, same.method, same.path, same.payload]

theorem Proper.of_perm (proper : Proper toLowerCase request) {headers queryString : Entries}
    (headersPerm : headers.Perm request.headers) (queryPerm : queryString.Perm request.queryString) :
    Proper toLowerCase { request with headers := headers, queryString := queryString } where
  path := proper.path
  query param member := proper.query param (queryPerm.mem_iff.mp member)
  params := ((queryPerm.map Prod.fst).nodup_iff).mpr proper.params
  tokens header member := proper.tokens header (headersPerm.mem_iff.mp member)
  names := ((headersPerm.map _).nodup_iff).mpr proper.names
  values header member := proper.values header (headersPerm.mem_iff.mp member)

theorem canonical_of_perm (proper : Proper toLowerCase request) {headers queryString : Entries}
    (headersPerm : headers.Perm request.headers) (queryPerm : queryString.Perm request.queryString) :
    createCanonicalRequest toLowerCase { request with headers := headers, queryString := queryString } =
      createCanonicalRequest toLowerCase request :=
  canonical_of_same (proper.of_perm headersPerm queryPerm) proper
    { method := rfl
      path := rfl
      query := queryPerm
      headers := headersPerm.map _
      payload := rfl }

theorem signedHeaders_eq (request : CanonicalRequest) :
    signedHeaders toLowerCase request = headerNames toLowerCase request := by
  have sorted : (signedHeaders toLowerCase request).Pairwise (fun left right => left ≤ right) :=
    List.pairwise_insertionSort _ _
  have named : (headerNames toLowerCase request).Pairwise (fun left right => left ≤ right) :=
    pairwise_map.mpr (List.pairwise_insertionSort _ _)
  have same : (signedHeaders toLowerCase request).Perm (headerNames toLowerCase request) :=
    (List.perm_insertionSort _ _).trans ((perm_sortByKey _ request.headers).map _).symm
  exact same.eq_of_pairwise (fun _ _ _ _ left right => le_antisymm left right) sorted named

end Requests

def lowerAscii (text : JsString) : JsString := text.map lowerUnit

def uploadRequest (headers : Entries) : CanonicalRequest where
  method := .put
  path := lit ['/', 'a', ' ', 'b']
  headers := headers
  queryString := [(lit ['x'], lit ['/']), (lit ['a'], [])]
  payloadSha256Hex := lit ['A', 'B']

def hostFirst : Entries := [(lit ['H', 'o', 's', 't'], lit ['h']), (lit ['D'], [32])]

def hostLast : Entries := [(lit ['d'], []), (lit ['h', 'o', 's', 't'], lit ['h', ' '])]

def isAscii (text : JsString) : Bool := text.all (fun u => u.val < 128)

theorem wellFormed_of_isAscii {text : JsString} (ascii : isAscii text = true) : WellFormed text :=
  ⟨_, wellFormed_ascii text (fun u member => of_decide_eq_true (List.all_eq_true.mp ascii u member))⟩

theorem uploadRequest_proper (headers : Entries) (known : headers = hostFirst ∨ headers = hostLast) :
    Proper lowerAscii (uploadRequest headers) := by
  have params : ∀ param ∈ (uploadRequest []).queryString, isAscii param.1 = true ∧ isAscii param.2 = true := by
    decide
  have tokens : ∀ header ∈ headers, header.1 ≠ [] ∧ header.1.all isTokenUnit = true := by
    rcases known with rfl | rfl <;> decide
  constructor
  · have path : isAscii (uploadRequest []).path = true := by decide
    exact wellFormed_of_isAscii path
  · intro param member
    exact ⟨wellFormed_of_isAscii (params param member).1, wellFormed_of_isAscii (params param member).2⟩
  · change ((uploadRequest []).queryString.map Prod.fst).Nodup
    decide
  · intro header member
    exact ⟨(tokens header member).1, List.all_eq_true.mp (tokens header member).2⟩
  · change (headers.map _).Nodup
    rcases known with rfl | rfl <;> decide
  · change ∀ header ∈ headers, newline ∉ header.2
    rcases known with rfl | rfl <;> decide

end CasualOS.CanonicalRequests
