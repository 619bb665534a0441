import CasualOS.AuthController
import CasualOS.KeyCreation
import CasualOS.RedisUpdates

/-! What is read back from the keys of records and sessions, and which texts are keys at all. -/

namespace CasualOS.KeyFormats

open AuthController (sessionVersionOne formatV1SessionKey SessionKey)
open RedisUpdates (Number parseInt parseUnsigned parseDigits digitOf isWhiteSpace)
open Option (some bind_eq_bind bind_eq_some_iff)
open JsString (lit)
open Platform (parseRecordKey parseV1RecordKey parseV2RecordKey toBase64String_filled toBase64String_period)
open JsString (digit_code ofInt ofInt_code)

/-! ### Session keys with their expire times -/

/-- The expire time is `NaN` where its text is no number. -/
structure ParsedSessionKey where
  userId : JsString
  sessionId : JsString
  sessionSecret : JsString
  expireTimeMs : Number
  deriving DecidableEq, Repr

section Sessions

variable (p : Platform)

def parseV1SessionKey (key : JsString) : Option ParsedSessionKey := do
  let rest ← withoutVersion sessionVersionOne key
  let (userIdBase64, sessionIdPlusPassword) ← cutAtPeriod rest
  if userIdBase64 = [] ∨ sessionIdPlusPassword = [] then none
  else
    let (sessionIdBase64, passwordPlusExpireTime) ← cutAtPeriod sessionIdPlusPassword
    if sessionIdBase64 = [] ∨ passwordPlusExpireTime = [] then none
    else
      let (passwordBase64, expireTimeBase64) ← cutAtPeriod passwordPlusExpireTime
      if passwordBase64 = [] ∨ expireTimeBase64 = [] then none
      else
        let userId ← p.fromBase64String userIdBase64
        let sessionId ← p.fromBase64String sessionIdBase64
        let password ← p.fromBase64String passwordBase64
        let expireTime ← p.fromBase64String expireTimeBase64
        some ⟨userId, sessionId, password, parseInt expireTime⟩

end Sessions

/-! ### Numbers that are printed and read -/

section Numbers

theorem parseDigits_toDigits (n : Nat) : parseDigits 10 digitOf (lit (Nat.toDigits 10 n)) = some n := by
  have all : ∀ u ∈ lit (Nat.toDigits 10 n), (digitOf u).isSome = true := by
    intro u member
    obtain ⟨c, inside, rfl⟩ := List.mem_map.mp member
    have code := digit_code n c inside
    have value : (Fin.ofNat 65536 c.toNat).val = c.toNat := Nat.mod_eq_of_lt (by omega)
    rw [digitOf, value, if_pos code]
    rfl
  have whole : (lit (Nat.toDigits 10 n)).takeWhile (fun u => (digitOf u).isSome) =
      lit (Nat.toDigits 10 n) := List.takeWhile_eq_self_iff.mpr all
  have sum : ∀ (digits : List Char), (∀ c ∈ digits, 48 ≤ c.toNat ∧ c.toNat ≤ 57) → ∀ start : Nat,
      (lit digits).foldl (fun value u => value * 10 + (digitOf u).getD 0) start =
        Nat.ofDigitChars 10 digits start := by
    intro digits
    induction digits with
    | nil => intro _ start; rfl
    | cons c rest ih =>
      intro codes start
      have code := codes c List.mem_cons_self
      have value : (Fin.ofNat 65536 c.toNat).val = c.toNat := Nat.mod_eq_of_lt (by omega)
      have later := ih (fun d member => codes d (List.mem_cons_of_mem c member)) (start * 10 + (c.toNat - 48))
      rw [Nat.ofDigitChars_cons, lit, List.map_cons, List.foldl_cons, digitOf, value, if_pos code]
      rw [Nat.mul_comm 10 start]
      exact later
  rw [parseDigits, whole]
  have filled : Nat.toDigits 10 n ≠ [] := Nat.toDigits_ne_nil
  cases digits : lit (Nat.toDigits 10 n) with
  | nil => exact absurd (List.map_eq_nil_iff.mp digits) filled
  | cons first rest =>
    simp only
    rw [← digits, sum _ (fun c member => digit_code n c member) 0, Nat.ofDigitChars_ten_toDigits]

theorem parseUnsigned_digits (digits : JsString) (codes : ∀ u ∈ digits, 48 ≤ u.val ∧ u.val ≤ 57) :
    parseUnsigned digits = parseDigits 10 digitOf digits := by
  unfold parseUnsigned
  split
  · have code := codes 120 (by simp)
    exact absurd code.2 (by decide)
  · have code := codes 88 (by simp)
    exact absurd code.2 (by decide)
  · rfl

theorem digits_codes (n : Nat) : ∀ u ∈ lit (Nat.toDigits 10 n), 48 ≤ u.val ∧ u.val ≤ 57 := by
  intro u member
  obtain ⟨c, inside, rfl⟩ := List.mem_map.mp member
  have code := digit_code n c inside
  have value : (Fin.ofNat 65536 c.toNat).val = c.toNat := Nat.mod_eq_of_lt (by omega)
  rw [value]
  exact code

theorem not_whiteSpace_of_digit {u : CodeUnit} (code : 48 ≤ u.val ∧ u.val ≤ 57) : isWhiteSpace u = false := by
  have kinds : u.val ∉ [9, 10, 11, 12, 13, 32, 160, 5760, 8232, 8233, 8239, 8287, 12288, 65279] := by
    intro member
    simp only [List.mem_cons, List.not_mem_nil, or_false] at member
    omega
  have spaces : ¬ 8192 ≤ u.val := by omega
  rw [isWhiteSpace, decide_eq_false kinds, decide_eq_false spaces]
  rfl

theorem dropWhile_visible (first : CodeUnit) (rest : JsString) (visible : isWhiteSpace first = false) :
    (first :: rest).dropWhile isWhiteSpace = first :: rest := by
  rw [List.dropWhile_cons, visible]
  rfl

theorem parseInt_ofInt (n : Int) : parseInt (ofInt n) = some n := by
  cases n with
  | ofNat n =>
    have codes := digits_codes n
    have parsed := parseDigits_toDigits n
    have filled : Nat.toDigits 10 n ≠ [] := Nat.toDigits_ne_nil
    rw [ofInt]
    cases digits : lit (Nat.toDigits 10 n) with
    | nil => exact absurd (List.map_eq_nil_iff.mp digits) filled
    | cons first rest =>
      rw [digits] at codes parsed
      have code := codes first List.mem_cons_self
      have visible : isWhiteSpace first = false := not_whiteSpace_of_digit code
      rw [parseInt, dropWhile_visible first rest visible]
      split
      · rename_i same
        exact absurd ((List.cons.inj same).1 ▸ code.1) (by decide)
      · rename_i same
        exact absurd ((List.cons.inj same).1 ▸ code.1) (by decide)
      · rw [parseUnsigned_digits _ codes, parsed]
        rfl
  | negSucc n =>
    have sign : ofInt (.negSucc n) = 45 :: lit (Nat.toDigits 10 (n + 1)) := rfl
    rw [sign, parseInt, dropWhile_visible _ _ (by decide)]
    simp only [parseUnsigned_digits _ (digits_codes (n + 1)), parseDigits_toDigits]
    rfl

theorem lit_toString (n : Int) : lit (toString n).toList = ofInt n := by
  cases n with
  | ofNat n =>
    have text : (toString (Int.ofNat n)).toList = Nat.toDigits 10 n := Nat.toList_repr
    rw [text]
    rfl
  | negSucc n =>
    have text : (toString (Int.negSucc n)).toList = '-' :: Nat.toDigits 10 (n + 1) := by
      change ("-" ++ Nat.repr (n + 1)).toList = _
      rw [String.toList_append, Nat.toList_repr]
      rfl
    rw [text]
    rfl

end Numbers

/-! ### Texts that are written and read -/

section Texts

/-- A text that starts with a byte order mark. -/
def Marked (text : JsString) : Prop := text.head? = some 0xFEFF

instance (text : JsString) : Decidable (Marked text) := inferInstanceAs (Decidable (_ = _))

def readBack (text : JsString) : JsString := if Marked text then text.tail else text

theorem readBack_eq_iff (text : JsString) : readBack text = text ↔ ¬ Marked text := by
  unfold readBack
  by_cases marked : Marked text
  · rw [if_pos marked]
    refine iff_of_false (fun same => ?_) (fun not => not marked)
    cases text with
    | nil => cases marked
    | cons first rest =>
      have long := congrArg List.length same
      simp at long
  · rw [if_neg marked]
    exact iff_of_true rfl marked

theorem head_encode (c : Char) (rest : List Char) : Marked (Utf16.encode (c :: rest)) ↔ c = byteOrderMark := by
  have split : Utf16.encode (c :: rest) = Utf16.encodeChar c ++ Utf16.encode rest := List.flatMap_cons
  have code : byteOrderMark.toNat = 0xFEFF := by decide
  rw [Marked, split, Utf16.encodeChar]
  by_cases small : c.toNat < 0x10000
  · rw [if_pos small, List.singleton_append, List.head?_cons]
    constructor
    · intro same
      have value := congrArg Fin.val (some.inj same)
      rw [Utf16.unit_val c.toNat small] at value
      exact Char.toNat_inj.mp (value.trans code.symm)
    · rintro rfl
      rw [code]
      rfl
  · rw [if_neg small]
    refine iff_of_false (fun same => ?_) (fun same => ?_)
    · have bounds := Utf16.char_bounds c
      have value := congrArg Fin.val (some.inj same)
      rw [Utf16.unit_val _ (by omega)] at value
      have mark : ((0xFEFF : CodeUnit)).val = 0xFEFF := rfl
      omega
    · rw [same, code] at small
      exact small (by decide)

variable {p : Platform}

theorem fromBase64String_readBack (encodes : p.Encodes) {text : JsString} (formed : WellFormed text) :
    p.fromBase64String (p.toBase64String text) = some (readBack text) := by
  obtain ⟨chars, rfl⟩ := formed
  have decoded : (encodeText (Utf16.encode chars)).utf8Decode? = some chars.toArray := by
    rw [utf8Decode_encodeText, Utf16.decode_encode]
  rw [Platform.fromBase64String, Platform.toBase64String, encodes.reads, Option.map_some, Platform.decodeText, decoded]
  simp only [dropMark, readBack, some.injEq]
  cases chars with
  | nil => rfl
  | cons c rest =>
    simp only [List.head?_cons, some.injEq, head_encode]
    by_cases mark : c = byteOrderMark
    · have one : Utf16.encodeChar byteOrderMark = [0xFEFF] := by decide
      have split : Utf16.encode (c :: rest) = Utf16.encodeChar c ++ Utf16.encode rest := List.flatMap_cons
      rw [if_pos mark, if_pos mark, split, mark, one]
      rfl
    · rw [if_neg mark, if_neg mark]

theorem toBase64String_injective (encodes : p.Encodes) {first second : JsString} (formed : WellFormed first)
    (formed' : WellFormed second) (same : p.toBase64String first = p.toBase64String second) : first = second := by
  refine encodeText_injective formed formed' (some.inj ?_)
  rw [← encodes.reads, ← encodes.reads]
  exact congrArg p.toByteArray same

end Texts

/-! ### Parts between periods -/

section Parts

theorem cutAtPeriod_some {text front back : JsString} (cut : cutAtPeriod text = some (front, back)) :
    text = front ++ period :: back ∧ period ∉ front := by
  have ⟨i, found, parts⟩ := Option.map_eq_some_iff.mp cut
  have ⟨bound, here, first⟩ := List.findIdx?_eq_some_iff_getElem.mp found
  have ⟨fronts, backs⟩ := Prod.mk.inj parts
  have unit : text[i] = period := by simpa using here
  constructor
  · rw [← fronts, ← backs, ← unit, List.getElem_cons_drop, List.take_append_drop]
  · intro member
    rw [← fronts] at member
    have ⟨j, small, same⟩ := List.mem_iff_getElem.mp member
    rw [List.length_take] at small
    have before := first j (by omega)
    rw [List.getElem_take] at same
    rw [same] at before
    exact before (by simp)

theorem append_period_inj {front front' back back' : JsString} (absent : period ∉ front)
    (absent' : period ∉ front') (same : front ++ period :: back = front' ++ period :: back') :
    front = front' ∧ back = back' := by
  have cut := congrArg cutAtPeriod same
  rw [cutAtPeriod_append front back absent, cutAtPeriod_append front' back' absent'] at cut
  exact Prod.mk.inj (some.inj cut)

theorem withoutVersion_some {version key rest : JsString} (cut : withoutVersion version key = some rest) :
    key = version ++ rest := by
  unfold withoutVersion at cut
  split at cut
  · rename_i starts
    obtain ⟨later, rfl⟩ := starts
    rw [← some.inj cut, List.drop_left]
  · cases cut

end Parts

/-! ### Formats -/

section Formats

variable {p : Platform}

/-- A text that is worth a field of a key. -/
structure Field (text : JsString) : Prop where
  formed : WellFormed text
  filled : text ≠ []

theorem wellFormed_ofInt (n : Int) : WellFormed (ofInt n) := by
  refine ⟨_, wellFormed_ascii _ (fun u member => ?_)⟩
  have code := ofInt_code n u member
  omega

theorem ofInt_ne_nil (n : Int) : ofInt n ≠ [] := by
  cases n with
  | ofNat n => exact fun nothing => Nat.toDigits_ne_nil (List.map_eq_nil_iff.mp nothing)
  | negSucc n => exact List.cons_ne_nil _ _

theorem readBack_ofInt (n : Int) : readBack (ofInt n) = ofInt n := by
  refine (readBack_eq_iff _).mpr (fun marked => ?_)
  have code := ofInt_code n 0xFEFF (List.mem_of_head? marked)
  have mark : ((0xFEFF : CodeUnit)).val = 0xFEFF := rfl
  omega

variable {secret name key secret' : JsString}

theorem parse_formatSession (encodes : p.Encodes) {userId sessionId : JsString} (user : Field userId)
    (session : Field sessionId) (password : Field secret) (expireTimeMs : Int) :
    parseV1SessionKey p (formatV1SessionKey p userId sessionId secret expireTimeMs) =
      some ⟨readBack userId, readBack sessionId, readBack secret, some expireTimeMs⟩ := by
  have time : Field (ofInt expireTimeMs) := ⟨wellFormed_ofInt _, ofInt_ne_nil _⟩
  rw [formatV1SessionKey, lit_toString]
  simp [parseV1SessionKey, withoutVersion_append, cutAtPeriod_append _ _ (toBase64String_period encodes _),
    toBase64String_filled encodes _ user.filled, toBase64String_filled encodes _ session.filled,
    toBase64String_filled encodes _ password.filled, toBase64String_filled encodes _ time.filled,
    fromBase64String_readBack encodes user.formed, fromBase64String_readBack encodes session.formed,
    fromBase64String_readBack encodes password.formed, fromBase64String_readBack encodes time.formed,
    readBack_ofInt, parseInt_ofInt]

theorem parse_formatV1 (encodes : p.Encodes) (named : Field name)
    (password : Field secret) : p.parseV1RecordKey (p.formatV1RecordKey name secret) =
      some ⟨readBack name, readBack secret, defaultPolicy⟩ := by
  simp [parseV1RecordKey, Platform.formatV1RecordKey, withoutVersion_append,
    cutAtPeriod_append _ _ (toBase64String_period encodes _),
    toBase64String_filled encodes _ named.filled, toBase64String_filled encodes _ password.filled,
    fromBase64String_readBack encodes named.formed, fromBase64String_readBack encodes password.formed]

def Known (policy : Option JsString) : Prop :=
  policy = none ∨ policy = some subjectfull ∨ policy = some subjectless

theorem parse_formatV2 (encodes : p.Encodes) {policy : Option JsString}
    (named : Field name) (password : Field secret) (known : Known policy) :
    p.parseV2RecordKey (p.formatV2RecordKey name secret policy) =
      some ⟨readBack name, readBack secret, policy.getD defaultPolicy⟩ := by
  have accepted : policy.getD defaultPolicy ≠ [] ∧
      ¬ (policy.getD defaultPolicy ≠ subjectfull ∧ policy.getD defaultPolicy ≠ subjectless) := by
    rcases known with rfl | rfl | rfl <;> decide
  simp [parseV2RecordKey, Platform.formatV2RecordKey, withoutVersion_append,
    cutAtPeriod_append _ _ (toBase64String_period encodes _),
    toBase64String_filled encodes _ named.filled, toBase64String_filled encodes _ password.filled,
    fromBase64String_readBack encodes named.formed, fromBase64String_readBack encodes password.formed, accepted]

/-! ### One format and another -/

theorem withoutVersion_other {version other rest : JsString} (i : Nat) (inside : i < version.length)
    (inside' : i < other.length) (differ : version[i] ≠ other[i]) : withoutVersion version (other ++ rest) = none := by
  rw [withoutVersion, if_neg]
  rintro ⟨later, same⟩
  have here := congrArg (fun text : JsString => text[i]?) same
  simp only [List.getElem?_append_left inside, List.getElem?_append_left inside', List.getElem?_eq_getElem inside,
    List.getElem?_eq_getElem inside'] at here
  exact differ (some.inj here)

theorem session_not_record (rest : JsString) : p.parseRecordKey (sessionVersionOne ++ rest) = none := by
  have second : withoutVersion versionTwo (sessionVersionOne ++ rest) = none :=
    withoutVersion_other 1 (by decide) (by decide) (by decide)
  have first : withoutVersion versionOne (sessionVersionOne ++ rest) = none :=
    withoutVersion_other 1 (by decide) (by decide) (by decide)
  rw [parseRecordKey, parseV2RecordKey, parseV1RecordKey, second, first]
  rfl

theorem record_not_session (version rest : JsString) (record : version = versionOne ∨ version = versionTwo) :
    parseV1SessionKey p (version ++ rest) = none := by
  have apart : withoutVersion sessionVersionOne (version ++ rest) = none := by
    rcases record with rfl | rfl
    · exact withoutVersion_other 1 (by decide) (by decide) (by decide)
    · exact withoutVersion_other 1 (by decide) (by decide) (by decide)
  rw [parseV1SessionKey, apart]
  rfl

theorem first_not_second (rest : JsString) : p.parseV2RecordKey (versionOne ++ rest) = none := by
  have apart : withoutVersion versionTwo (versionOne ++ rest) = none :=
    withoutVersion_other 3 (by decide) (by decide) (by decide)
  rw [parseV2RecordKey, apart]
  rfl

theorem second_not_first (rest : JsString) : p.parseV1RecordKey (versionTwo ++ rest) = none := by
  have apart : withoutVersion versionOne (versionTwo ++ rest) = none :=
    withoutVersion_other 3 (by decide) (by decide) (by decide)
  rw [parseV1RecordKey, apart]
  rfl

/-! ### The shape of what is read -/

/-- A part of a key between two periods. -/
structure Part (text : JsString) : Prop where
  filled : text ≠ []
  whole : period ∉ text

def ShapedV1 (key : JsString) : Prop :=
  ∃ name secret, Part name ∧ Part secret ∧ key = versionOne ++ (name ++ period :: secret)

def ShapedV2 (key : JsString) : Prop :=
  ∃ name secret policy, Part name ∧ Part secret ∧ (policy = subjectfull ∨ policy = subjectless) ∧
    key = versionTwo ++ (name ++ period :: (secret ++ period :: policy))

def ShapedSession (key : JsString) : Prop :=
  ∃ userId sessionId secret time, Part userId ∧ Part sessionId ∧ Part secret ∧ Part time ∧
    key = sessionVersionOne ++ (userId ++ period :: (sessionId ++ period :: (secret ++ period :: time)))

theorem Part.count {text : JsString} (part : Part text) : text.count period = 0 :=
  List.count_eq_zero_of_not_mem part.whole

theorem cut_part {text : JsString} {parts : JsString × JsString} (cut : cutAtPeriod text = some parts)
    (filled : ¬ (parts.1 = [] ∨ parts.2 = [])) :
    Part parts.1 ∧ parts.2 ≠ [] ∧ text = parts.1 ++ period :: parts.2 := by
  have ⟨text', absent⟩ := cutAtPeriod_some cut
  exact ⟨⟨fun nothing => filled (.inl nothing), absent⟩, fun nothing => filled (.inr nothing), text'⟩

theorem shapedV1_iff (read : p.parseV1RecordKey key ≠ none) : ShapedV1 key ↔ key.count period = 2 := by
  have version : versionOne.count period = 1 := by decide
  constructor
  · rintro ⟨name, secret, named, password, rfl⟩
    simp [List.count_append, version, named.count, password.count]
  · intro periods
    obtain ⟨parsed, found⟩ := Option.ne_none_iff_exists'.mp read
    simp only [parseV1RecordKey, bind_eq_bind, bind_eq_some_iff] at found
    obtain ⟨rest, cut, parts, cut', inner⟩ := found
    split at inner
    · cases inner
    · rename_i filled
      obtain ⟨named, ends, split⟩ := cut_part cut' filled
      have whole := withoutVersion_some cut
      rw [whole, split] at periods
      simp only [List.count_append, List.count_cons, version, named.count, beq_self_eq_true, if_true] at periods
      have absent : period ∉ parts.2 := List.count_eq_zero.mp (by omega)
      exact ⟨parts.1, parts.2, named, ⟨ends, absent⟩, by rw [whole, split]⟩

theorem shapedV2_of_parse (read : p.parseV2RecordKey key ≠ none) : ShapedV2 key := by
  obtain ⟨parsed, found⟩ := Option.ne_none_iff_exists'.mp read
  simp only [parseV2RecordKey, bind_eq_bind, bind_eq_some_iff] at found
  obtain ⟨rest, cut, parts, cut', inner⟩ := found
  split at inner
  · cases inner
  · rename_i filled
    obtain ⟨named, _, split⟩ := cut_part cut' filled
    obtain ⟨parts', cut'', later⟩ := bind_eq_some_iff.mp inner
    split at later
    · cases later
    · rename_i filled'
      obtain ⟨password, _, split'⟩ := cut_part cut'' filled'
      split at later
      · cases later
      · rename_i known
        rw [← or_iff_not_and_not] at known
        exact ⟨parts.1, parts'.1, parts'.2, named, password, known, by rw [withoutVersion_some cut, split, ← split']⟩

theorem shapedSession_iff (read : parseV1SessionKey p key ≠ none) : ShapedSession key ↔ key.count period = 4 := by
  have version : sessionVersionOne.count period = 1 := by decide
  constructor
  · rintro ⟨userId, sessionId, secret, time, user, session, password, expires, rfl⟩
    simp [List.count_append, version, user.count, session.count, password.count, expires.count]
  · intro periods
    have ⟨parsed, found⟩ := Option.ne_none_iff_exists'.mp read
    simp only [parseV1SessionKey, bind_eq_bind, bind_eq_some_iff] at found
    have ⟨rest, cut, first, cutFirst, inner⟩ := found
    split at inner
    · cases inner
    · rename_i filled
      have ⟨user, _, split⟩ := cut_part cutFirst filled
      have ⟨second, cutSecond, later⟩ := bind_eq_some_iff.mp inner
      split at later
      · cases later
      · rename_i filled'
        have ⟨session, _, split'⟩ := cut_part cutSecond filled'
        have ⟨third, cutThird, last⟩ := bind_eq_some_iff.mp later
        split at last
        · cases last
        · rename_i filled''
          have ⟨password, ends, split''⟩ := cut_part cutThird filled''
          have whole : key = sessionVersionOne ++
              (first.1 ++ period :: (second.1 ++ period :: (third.1 ++ period :: third.2))) := by
            rw [withoutVersion_some cut, split, ← split'', ← split']
          rw [whole] at periods
          simp only [List.count_append, List.count_cons, version, user.count, session.count, password.count,
            beq_self_eq_true, if_true] at periods
          have absent : period ∉ third.2 := List.count_eq_zero.mp (by omega)
          exact ⟨first.1, second.1, third.1, third.2, user, session, password, ⟨ends, absent⟩, whole⟩

/-! ### Keys that are equal -/

theorem formatV1_inj (encodes : p.Encodes) {name' : JsString} (named : Field name)
    (password : Field secret) (named' : Field name') (password' : Field secret')
    (same : p.formatV1RecordKey name secret = p.formatV1RecordKey name' secret') :
    name = name' ∧ secret = secret' := by
  have ⟨names, secrets⟩ := append_period_inj (toBase64String_period encodes name)
    (toBase64String_period encodes name') (List.append_cancel_left same)
  exact ⟨toBase64String_injective encodes named.formed named'.formed names,
    toBase64String_injective encodes password.formed password'.formed secrets⟩

theorem formatV2_inj (encodes : p.Encodes) {name' : JsString} {policy policy' : Option JsString}
    (named : Field name) (password : Field secret) (named' : Field name') (password' : Field secret')
    (same : p.formatV2RecordKey name secret policy = p.formatV2RecordKey name' secret' policy') :
    name = name' ∧ secret = secret' ∧ policy.getD defaultPolicy = policy'.getD defaultPolicy := by
  have ⟨names, rest⟩ := append_period_inj (toBase64String_period encodes name)
    (toBase64String_period encodes name') (List.append_cancel_left same)
  have ⟨secrets, policies⟩ := append_period_inj (toBase64String_period encodes secret)
    (toBase64String_period encodes secret') rest
  exact ⟨toBase64String_injective encodes named.formed named'.formed names,
    toBase64String_injective encodes password.formed password'.formed secrets, policies⟩

theorem formatSession_inj (encodes : p.Encodes) {userId sessionId userId' sessionId' : JsString}
    {time time' : Int} (user : Field userId) (session : Field sessionId) (password : Field secret)
    (user' : Field userId') (session' : Field sessionId') (password' : Field secret')
    (same : formatV1SessionKey p userId sessionId secret time =
      formatV1SessionKey p userId' sessionId' secret' time') :
    userId = userId' ∧ sessionId = sessionId' ∧ secret = secret' ∧ time = time' := by
  rw [formatV1SessionKey, formatV1SessionKey, lit_toString, lit_toString] at same
  simp only [List.append_assoc, List.cons_append] at same
  have ⟨users, afterUser⟩ := append_period_inj (toBase64String_period encodes userId)
    (toBase64String_period encodes userId') (List.append_cancel_left same)
  have ⟨sessions, afterSession⟩ := append_period_inj (toBase64String_period encodes sessionId)
    (toBase64String_period encodes sessionId') afterUser
  have ⟨secrets, times⟩ := append_period_inj (toBase64String_period encodes secret)
    (toBase64String_period encodes secret') afterSession
  exact ⟨toBase64String_injective encodes user.formed user'.formed users,
    toBase64String_injective encodes session.formed session'.formed sessions,
    toBase64String_injective encodes password.formed password'.formed secrets,
    JsString.ofInt_injective time time'
      (toBase64String_injective encodes (wellFormed_ofInt time) (wellFormed_ofInt time') times)⟩

end Formats

/-! ### All of it -/

/-- What the formats do: which keys come back, that they are apart, and which texts have the shape of a
key. -/
structure Formats (p : Platform) : Prop where
  session : ∀ userId sessionId secret time, Field userId → Field sessionId → Field secret →
    (parseV1SessionKey p (formatV1SessionKey p userId sessionId secret time) =
        some ⟨userId, sessionId, secret, some time⟩ ↔
      ¬ Marked userId ∧ ¬ Marked sessionId ∧ ¬ Marked secret)
  first : ∀ name secret, Field name → Field secret →
    (p.parseRecordKey (p.formatV1RecordKey name secret) = some ⟨name, secret, subjectfull⟩ ↔
      ¬ Marked name ∧ ¬ Marked secret)
  second : ∀ name secret policy, Field name → Field secret → Known policy →
    (p.parseRecordKey (p.formatV2RecordKey name secret policy) =
        some ⟨name, secret, policy.getD subjectfull⟩ ↔ ¬ Marked name ∧ ¬ Marked secret)
  sessions_apart : ∀ userId sessionId secret time userId' sessionId' secret' time', Field userId →
    Field sessionId → Field secret → Field userId' → Field sessionId' → Field secret' →
    formatV1SessionKey p userId sessionId secret time = formatV1SessionKey p userId' sessionId' secret' time' →
    userId = userId' ∧ sessionId = sessionId' ∧ secret = secret' ∧ time = time'
  firsts_apart : ∀ name secret name' secret', Field name → Field secret → Field name' → Field secret' →
    p.formatV1RecordKey name secret = p.formatV1RecordKey name' secret' → name = name' ∧ secret = secret'
  seconds_apart : ∀ name secret policy name' secret' policy', Field name → Field secret → Field name' →
    Field secret' → p.formatV2RecordKey name secret policy = p.formatV2RecordKey name' secret' policy' →
    name = name' ∧ secret = secret' ∧ policy.getD subjectfull = policy'.getD subjectfull
  session_not_record : ∀ userId sessionId secret time,
    p.parseRecordKey (formatV1SessionKey p userId sessionId secret time) = none
  first_not_other : ∀ name secret, parseV1SessionKey p (p.formatV1RecordKey name secret) = none ∧
    p.parseV2RecordKey (p.formatV1RecordKey name secret) = none
  second_not_other : ∀ name secret policy,
    parseV1SessionKey p (p.formatV2RecordKey name secret policy) = none ∧
      p.parseV1RecordKey (p.formatV2RecordKey name secret policy) = none
  session_shape : ∀ key, parseV1SessionKey p key ≠ none → (ShapedSession key ↔ key.count period = 4)
  first_shape : ∀ key, p.parseV1RecordKey key ≠ none → (ShapedV1 key ↔ key.count period = 2)
  second_shape : ∀ key, p.parseV2RecordKey key ≠ none → ShapedV2 key

theorem key_formats (p : Platform) (encodes : p.Encodes) : Formats p where
  session userId sessionId secret time user session password := by
    rw [parse_formatSession encodes user session password, Option.some.injEq, ParsedSessionKey.mk.injEq,
      readBack_eq_iff, readBack_eq_iff, readBack_eq_iff]
    simp only [and_true]
  first name secret named password := by
    have other : p.parseV2RecordKey (p.formatV1RecordKey name secret) = none := first_not_second _
    rw [parseRecordKey, other, Option.none_or, parse_formatV1 encodes named password, Option.some.injEq,
      ParsedKey.mk.injEq, readBack_eq_iff, readBack_eq_iff, defaultPolicy]
    simp only [and_true]
  second name secret policy named password known := by
    rw [parseRecordKey, parse_formatV2 encodes named password known, Option.some_or, Option.some.injEq,
      ParsedKey.mk.injEq, readBack_eq_iff, readBack_eq_iff, defaultPolicy]
    simp only [and_true]
  sessions_apart _ _ _ _ _ _ _ _ user session password user' session' password' same :=
    formatSession_inj encodes user session password user' session' password' same
  firsts_apart _ _ _ _ named password named' password' same :=
    formatV1_inj encodes named password named' password' same
  seconds_apart _ _ _ _ _ _ named password named' password' same :=
    formatV2_inj encodes named password named' password' same
  session_not_record userId sessionId secret time := by
    rw [formatV1SessionKey]
    simp only [List.append_assoc]
    exact session_not_record _
  first_not_other _ _ := ⟨record_not_session versionOne _ (.inl rfl), first_not_second _⟩
  second_not_other _ _ _ := ⟨record_not_session versionTwo _ (.inr rfl), second_not_first _⟩
  session_shape _ read := shapedSession_iff read
  first_shape _ read := shapedV1_iff read
  second_shape _ read := shapedV2_of_parse read

theorem pairing_formats : Formats KeyCreation.pairing :=
  key_formats KeyCreation.pairing KeyCreation.pairing_encodes

/-- The name of a record that starts with a byte order mark. -/
def markedName : JsString := 0xFEFF :: lit ['a']

theorem markedName_field : Field markedName := ⟨⟨[byteOrderMark, 'a'], by decide⟩, by decide⟩

theorem mark_dropped :
    Field markedName ∧ KeyCreation.pairing.parseRecordKey
        (KeyCreation.pairing.formatV1RecordKey markedName (lit ['x'])) =
      some ⟨lit ['a'], lit ['x'], subjectfull⟩ ∧ markedName ≠ lit ['a'] :=
  ⟨markedName_field, by decide +kernel⟩

end CasualOS.KeyFormats
