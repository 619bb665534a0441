import Mathlib
import CasualOS.Lib.Run
import CasualOS.Lib.Base64
import CasualOS.RecordKeys

/-! `createPublicRecordKey`, its calls cut at their awaits, over `MemoryRecordsStore`. -/

namespace CasualOS.KeyCreation

open Run
open List (mem_cons_of_mem mem_cons_self mem_map)
open JsString (lit)
open MemoryRecordsStore (addRecord addRecordKey getRecordByName)
open Option (some)

inductive CreateFailure where
  | notLoggedIn
  | invalidPolicy
  | unauthorizedToCreateRecordKey
  | serverError
  deriving DecidableEq, Repr

namespace CreateFailure

def errorCode : CreateFailure → String
  | notLoggedIn => "not_logged_in"
  | invalidPolicy => "invalid_policy"
  | unauthorizedToCreateRecordKey => "unauthorized_to_create_record_key"
  | serverError => "server_error"

def errorReason : CreateFailure → String
  | notLoggedIn => "not_logged_in"
  | invalidPolicy => "invalid_policy"
  | unauthorizedToCreateRecordKey => "record_owned_by_different_user"
  | serverError => "server_error"

def errorMessage : CreateFailure → Option String
  | notLoggedIn => some "The user must be logged in in order to create a record key."
  | invalidPolicy => some "The record key policy must be either \"subjectfull\" or \"subjectless\"."
  | unauthorizedToCreateRecordKey => some "Another user has already created this record."
  | serverError => none

end CreateFailure

/-- What a call makes for its key. -/
structure Secret where
  password : JsString
  salt : JsString
  passwordHash : JsString
  deriving DecidableEq, Repr

/-- Where a call stands: at one of its awaits, or at its end. -/
inductive Stage where
  | reading (record : Option Record)
  | addingRecord (secret : Secret)
  | addingKey (secret : Secret)
  | returned (secret : Secret) (recordKey : JsString)
  | refused (failure : CreateFailure)
  deriving DecidableEq, Repr

namespace Stage

def secret : Stage → Option Secret
  | addingRecord secret | addingKey secret | returned secret _ => some secret
  | reading _ | refused _ => none

def stored : Stage → Option Secret
  | addingKey secret | returned secret _ => some secret
  | addingRecord _ | reading _ | refused _ => none

theorem secret_of_stored {stage : Stage} {secret : Secret} (holds : stage.stored = some secret) :
    stage.secret = some secret := by
  cases stage with
  | addingKey _ => exact holds
  | returned _ _ => exact holds
  | addingRecord _ => cases holds
  | reading _ => cases holds
  | refused _ => cases holds

end Stage

structure Call where
  name : JsString
  policy : Option JsString
  userId : JsString
  stage : Stage
  deriving DecidableEq, Repr

namespace Call

def keyPolicy (call : Call) : JsString := call.policy.getD defaultPolicy

def recordKey (call : Call) (secret : Secret) (creatorId : JsString) : RecordKey where
  recordName := call.name
  secretHash := secret.passwordHash
  policy := call.keyPolicy
  creatorId := creatorId

def record (call : Call) (salt : JsString) : Record where
  name := call.name
  ownerId := call.userId
  secretHashes := []
  secretSalt := salt

/-- An empty policy is no policy to the check. -/
def policyRefused (call : Call) : Bool :=
  match call.policy with
  | none => false
  | some policy => policy ≠ [] ∧ policy ≠ subjectfull ∧ policy ≠ subjectless

end Call

/-- The store and the calls. `drawn` and `overtaken` are history: the random bytes that were drawn, and
the calls that found no record but came second with theirs. -/
structure Server where
  store : MemoryRecordsStore
  calls : List Call
  drawn : List ByteArray
  overtaken : List Nat
  deriving DecidableEq

def idle : Server where
  store := { records := [], recordKeys := [] }
  calls := []
  drawn := []
  overtaken := []

inductive Label where
  | createPublicRecordKey (name : JsString) (policy : Option JsString) (userId : JsString)
  /-- A call goes on from reading the record; the bytes are those that it may draw. -/
  | draw (call : Nat) (passwordBytes saltBytes : ByteArray)
  | resume (call : Nat)

/-- A call up to its first await. -/
def begin (store : MemoryRecordsStore) (name : JsString) (policy : Option JsString)
    (userId : JsString) : Call where
  name := name
  policy := policy
  userId := userId
  stage := if userId = [] then .refused .notLoggedIn else .reading (store.getRecordByName name)

section Steps

variable (p : Platform)

/-- A call that has read the record goes on to the next await. -/
def resumeReading (store : MemoryRecordsStore) (call : Call) (record : Option Record)
    (password salt : JsString) : MemoryRecordsStore × Stage :=
  if call.policyRefused then (store, .refused .invalidPolicy)
  else match record with
    | some record =>
      if record.ownerId ≠ call.userId then (store, .refused .unauthorizedToCreateRecordKey)
      else match p.hashHighEntropyPasswordWithSalt password record.secretSalt with
        | none => (store, .refused .serverError)
        | some passwordHash =>
          let secret := ⟨password, record.secretSalt, passwordHash⟩
          (store.addRecordKey (call.recordKey secret record.ownerId), .addingKey secret)
    | none =>
      match p.hashHighEntropyPasswordWithSalt password salt with
      | none => (store, .refused .serverError)
      | some passwordHash =>
        (store.addRecord (call.record salt), .addingRecord ⟨password, salt, passwordHash⟩)

def resumeAdding (store : MemoryRecordsStore) (call : Call) : MemoryRecordsStore × Stage :=
  match call.stage with
  | .addingRecord secret =>
    (store.addRecordKey (call.recordKey secret call.userId), .addingKey secret)
  | .addingKey secret =>
    (store, .returned secret (p.formatV2RecordKey call.name secret.password call.policy))
  | stage => (store, stage)

namespace Server

def set (s : Server) (i : Nat) (call : Call) (made : MemoryRecordsStore × Stage) : Server :=
  { s with store := made.1, calls := s.calls.set i { call with stage := made.2 } }

/-- The call did not find the record that is there now. -/
def Overtakes (s : Server) (call : Call) : Prop :=
  call.stage = .reading none ∧ s.store.getRecordByName call.name ≠ none

instance (s : Server) (call : Call) : Decidable (s.Overtakes call) := inferInstanceAs (Decidable (_ ∧ _))

end Server

def step (s : Server) : Label → Option Server
  | .createPublicRecordKey name policy userId =>
    some { s with calls := s.calls ++ [begin s.store name policy userId] }
  | .draw i passwordBytes saltBytes =>
    match s.calls[i]? with
    | none => none
    | some call =>
      match call.stage with
      | .reading record =>
        let made := resumeReading p s.store call record (p.fromByteArray passwordBytes)
          (p.fromByteArray saltBytes)
        some { s.set i call made with
          drawn := passwordBytes :: saltBytes :: s.drawn
          overtaken := if s.Overtakes call then i :: s.overtaken else s.overtaken }
      | _ => none
  | .resume i =>
    match s.calls[i]? with
    | none => none
    | some call =>
      match call.stage with
      | .addingRecord _ | .addingKey _ => some (s.set i call (resumeAdding p s.store call))
      | _ => none

/-- Random bytes are new. -/
def Fresh (s : Server) : Label → Prop
  | .draw _ passwordBytes saltBytes =>
    passwordBytes.size = 16 ∧ saltBytes.size = 16 ∧ passwordBytes ∉ s.drawn ∧ saltBytes ∉ s.drawn
  | _ => True

end Steps

/-! ### What every run keeps -/

section Kept

variable (p : Platform)

structure Made (drawn : List ByteArray) (secret : Secret) : Prop where
  password : ∃ bytes ∈ drawn, bytes.size = 16 ∧ secret.password = p.fromByteArray bytes
  salt : ∃ bytes ∈ drawn, secret.salt = p.fromByteArray bytes
  hash : p.hashHighEntropyPasswordWithSalt secret.password secret.salt = some secret.passwordHash

/-- The record under which the key of the call stands. -/
def Owned (store : MemoryRecordsStore) (overtaken : Prop) (call : Call) (secret : Secret) : Prop :=
  ∃ record, store.getRecordByName call.name = some record ∧
    (¬ overtaken → record.secretSalt = secret.salt) ∧
    (record.secretSalt = secret.salt → record.ownerId = call.userId)

structure Inv (s : Server) : Prop where
  unique : ∀ record ∈ s.store.records, s.store.getRecordByName record.name = some record
  records : ∀ record ∈ s.store.records, record.secretHashes = [] ∧
    ∃ bytes ∈ s.drawn, record.secretSalt = p.fromByteArray bytes
  read : ∀ (i : Nat) (call : Call) (record : Record), s.calls[i]? = some call →
    call.stage = .reading (some record) → s.store.getRecordByName call.name = some record
  made : ∀ (i : Nat) (call : Call) (secret : Secret), s.calls[i]? = some call →
    call.stage.secret = some secret → Made p s.drawn secret
  owned : ∀ (i : Nat) (call : Call) (secret : Secret), s.calls[i]? = some call →
    call.stage.secret = some secret → Owned s.store (i ∈ s.overtaken) call secret
  apart : ∀ (i j : Nat) (call other : Call) (secret secret' : Secret), s.calls[i]? = some call →
    s.calls[j]? = some other → call.stage.secret = some secret → other.stage.secret = some secret' →
    secret.password = secret'.password → i = j
  keys : ∀ key, key ∈ s.store.recordKeys ↔ ∃ (i : Nat) (call : Call) (secret : Secret),
    s.calls[i]? = some call ∧ call.stage.stored = some secret ∧ key = call.recordKey secret call.userId
  returned : ∀ (i : Nat) (call : Call) (secret : Secret) (key : JsString), s.calls[i]? = some call →
    call.stage = .returned secret key → key = p.formatV2RecordKey call.name secret.password call.policy

end Kept

section Store

variable {store : MemoryRecordsStore}

@[simp] theorem getRecordByName_addRecordKey (key : RecordKey) (name : JsString) :
    (store.addRecordKey key).getRecordByName name = store.getRecordByName name := by
  unfold addRecordKey
  split <;> rfl

@[simp] theorem records_addRecordKey (key : RecordKey) : (store.addRecordKey key).records = store.records := by
  unfold addRecordKey
  split <;> rfl

@[simp] theorem recordKeys_addRecord (record : Record) : (store.addRecord record).recordKeys = store.recordKeys := by
  unfold addRecord
  split <;> rfl

theorem mem_addRecordKey (key : RecordKey)
    (new : ∀ other ∈ store.recordKeys, other.secretHash ≠ key.secretHash) (other : RecordKey) :
    other ∈ (store.addRecordKey key).recordKeys ↔ other ∈ store.recordKeys ∨ other = key := by
  have absent : store.recordKeys.any
      (fun k => k.recordName = key.recordName ∧ k.secretHash = key.secretHash) = false := by
    apply List.any_eq_false.mpr
    intro k member same
    exact new k member (of_decide_eq_true same).2
  rw [addRecordKey, absent]
  simp

variable {name : JsString}

theorem name_of_get {record : Record}
    (got : store.getRecordByName name = some record) : record ∈ store.records ∧ record.name = name := by
  have same := List.find?_some got
  exact ⟨List.mem_of_find?_eq_some got, of_decide_eq_true same⟩

theorem found_key {hash : JsString} {key : RecordKey} (found : store.getRecordKeyByRecordAndHash name hash = some key) :
    key ∈ store.recordKeys ∧ key.recordName = name ∧ key.secretHash = hash := by
  have same := List.find?_some found
  exact ⟨List.mem_of_find?_eq_some found, of_decide_eq_true same⟩

theorem get_addRecord_kept (record found : Record) (name : JsString) (got : store.getRecordByName name = some found) :
    (store.addRecord record).getRecordByName name = some found := by
  unfold addRecord
  split
  · exact got
  · rw [getRecordByName, List.find?_append]
    exact Option.or_eq_some_iff.mpr (.inl got)

theorem any_name : store.records.any (fun r => r.name = name) = (store.getRecordByName name).isSome := by
  rw [getRecordByName, List.isSome_find?]

theorem get_addRecord_new (record : Record) (absent : store.getRecordByName record.name = none) :
    (store.addRecord record).getRecordByName record.name = some record := by
  have free : store.records.any (fun r => r.name = record.name) = false := by rw [any_name, absent]; rfl
  rw [addRecord, free]
  rw [getRecordByName] at absent ⊢
  simp [List.find?_append, absent]

theorem mem_addRecord (record other : Record) (member : other ∈ (store.addRecord record).records) :
    other ∈ store.records ∨ other = record ∧ store.getRecordByName record.name = none := by
  unfold addRecord at member
  split at member
  · exact .inl member
  · rename_i free
    have absent : store.getRecordByName record.name = none := by
      cases got : store.getRecordByName record.name with
      | none => rfl
      | some found => simp [any_name, got] at free
    cases List.mem_append.mp member with
    | inl old => exact .inl old
    | inr new => exact .inr ⟨List.mem_singleton.mp new, absent⟩

end Store

section Keeping

variable {p : Platform} {s : Server}

variable {calls : List Call} {i : Nat} {call : Call} {drawn : List ByteArray} {password salt hash : JsString}

theorem get_set {j : Nat} {other : Call} (got : (calls.set i call)[j]? = some other) :
    j = i ∧ other = call ∨ j ≠ i ∧ calls[j]? = some other := by
  rw [List.getElem?_set] at got
  split at got
  · rename_i same
    split at got
    · exact .inl ⟨same.symm, (some.inj got).symm⟩
    · cases got
  · rename_i apart
    exact .inr ⟨fun same => apart same.symm, got⟩

theorem set_self (other : Call) (got : calls[i]? = some call) : (calls.set i other)[i]? = some other := by
  have ⟨small, _⟩ := List.getElem?_eq_some_iff.mp got
  simp [small]

theorem set_other {j : Nat} (other : Call) (apart : j ≠ i) : (calls.set i other)[j]? = calls[j]? := by
  rw [List.getElem?_set, if_neg (fun same => apart same.symm)]

theorem Made.mono {drawn' : List ByteArray} {secret : Secret} (made : Made p drawn secret)
    (grows : drawn ⊆ drawn') : Made p drawn' secret := by
  have ⟨bytes, member, rest⟩ := made.password
  have ⟨salt, saltMember, same⟩ := made.salt
  exact ⟨⟨bytes, grows member, rest⟩, ⟨salt, grows saltMember, same⟩, made.hash⟩

theorem Owned.mono {store store' : MemoryRecordsStore} {overtaken overtaken' : Prop}
    {secret : Secret} (owned : Owned store overtaken call secret)
    (lookups : ∀ name record, store.getRecordByName name = some record →
      store'.getRecordByName name = some record)
    (grows : overtaken → overtaken') : Owned store' overtaken' call secret := by
  have ⟨record, got, own, owner⟩ := owned
  exact ⟨record, lookups _ _ got, fun free => own (fun late => free (grows late)), owner⟩

theorem Inv.create (inv : Inv p s) (name : JsString) (policy : Option JsString) (userId : JsString) :
    Inv p { s with calls := s.calls ++ [begin s.store name policy userId] } := by
  have older : ∀ (i : Nat) (call : Call), (s.calls ++ [begin s.store name policy userId])[i]? = some call →
      s.calls[i]? = some call ∨ call = begin s.store name policy userId := by
    intro i call got
    rw [List.getElem?_append] at got
    split at got
    · exact .inl got
    · have member := List.mem_of_getElem? got
      exact .inr (List.mem_singleton.mp member)
  have secretless : ∀ secret, (begin s.store name policy userId).stage.secret ≠ some secret := by
    intro secret holds
    simp only [begin] at holds
    split at holds <;> cases holds
  have old : ∀ (i : Nat) (call : Call) (secret : Secret),
      (s.calls ++ [begin s.store name policy userId])[i]? = some call →
      call.stage.secret = some secret → s.calls[i]? = some call := by
    intro i call secret got holds
    cases older i call got with
    | inl earlier => exact earlier
    | inr new => exact absurd (new ▸ holds) (secretless secret)
  constructor
  · exact inv.unique
  · exact inv.records
  · intro i call record got stage
    cases older i call got with
    | inl earlier => exact inv.read i call record earlier stage
    | inr new =>
      rw [new] at stage ⊢
      simp only [begin] at stage ⊢
      split at stage
      · cases stage
      · exact Stage.reading.inj stage
  · intro i call secret got holds
    exact inv.made i call secret (old i call secret got holds) holds
  · intro i call secret got holds
    exact inv.owned i call secret (old i call secret got holds) holds
  · intro i j call other secret secret' got got' holds holds' same
    exact inv.apart i j call other secret secret' (old i call secret got holds)
      (old j other secret' got' holds') holds holds' same
  · intro key
    rw [inv.keys key]
    constructor
    · intro ⟨i, call, secret, got, holds, same⟩
      have ⟨small, _⟩ := List.getElem?_eq_some_iff.mp got
      exact ⟨i, call, secret, by rw [List.getElem?_append_left small, got], holds, same⟩
    · intro ⟨i, call, secret, got, holds, same⟩
      exact ⟨i, call, secret, old i call secret got (Stage.secret_of_stored holds), holds, same⟩
  · intro i call secret key got stage
    cases older i call got with
    | inl earlier => exact inv.returned i call secret key earlier stage
    | inr new =>
      rw [new] at stage
      exact absurd (stage ▸ rfl : (begin s.store name policy userId).stage.secret = some secret) (secretless secret)

/-- What the next stage of a call needs. -/
structure Advances (p : Platform) (s : Server) (i : Nat) (call : Call) (store : MemoryRecordsStore)
    (stage : Stage) (drawn : List ByteArray) (overtaken : List Nat) : Prop where
  unique : ∀ record ∈ store.records, store.getRecordByName record.name = some record
  records : ∀ record ∈ store.records, record ∈ s.store.records ∨
    record.secretHashes = [] ∧ ∃ bytes ∈ drawn, record.secretSalt = p.fromByteArray bytes
  lookups : ∀ name record, s.store.getRecordByName name = some record →
    store.getRecordByName name = some record
  drawnKept : s.drawn ⊆ drawn
  overtakenKept : s.overtaken ⊆ overtaken
  read : ∀ record, stage ≠ .reading record
  made : ∀ secret, stage.secret = some secret → Made p drawn secret
  owned : ∀ secret, stage.secret = some secret → Owned store (i ∈ overtaken) call secret
  apart : ∀ secret, stage.secret = some secret → ∀ (j : Nat) (other : Call) (secret' : Secret), j ≠ i →
    s.calls[j]? = some other → other.stage.secret = some secret' → secret'.password ≠ secret.password
  keys : ∀ key, key ∈ store.recordKeys ↔ key ∈ s.store.recordKeys ∨
    ∃ secret, stage.stored = some secret ∧ key = call.recordKey secret call.userId
  stored : ∀ secret, call.stage.stored = some secret → stage.stored = some secret
  returned : ∀ secret key, stage = .returned secret key →
    key = p.formatV2RecordKey call.name secret.password call.policy

theorem Inv.advance (inv : Inv p s) (here : s.calls[i]? = some call)
    {store : MemoryRecordsStore} {stage : Stage} {overtaken : List Nat}
    (next : Advances p s i call store stage drawn overtaken) :
    Inv p ⟨store, s.calls.set i { call with stage := stage }, drawn, overtaken⟩ where
  unique := next.unique
  records record member := by
    cases next.records record member with
    | inl old =>
      have ⟨hashes, bytes, inside, same⟩ := inv.records record old
      exact ⟨hashes, bytes, next.drawnKept inside, same⟩
    | inr new => exact new
  read j other record got reading := by
    cases get_set got with
    | inl now =>
      rw [now.2] at reading
      exact absurd reading (next.read (some record))
    | inr before => exact next.lookups _ _ (inv.read j other record before.2 reading)
  made j other secret got holds := by
    cases get_set got with
    | inl now =>
      rw [now.2] at holds
      exact next.made secret holds
    | inr before => exact (inv.made j other secret before.2 holds).mono next.drawnKept
  owned j other secret got holds := by
    cases get_set got with
    | inl now =>
      rw [now.2] at holds ⊢
      rw [now.1]
      exact next.owned secret holds
    | inr before =>
      exact (inv.owned j other secret before.2 holds).mono next.lookups (fun late => next.overtakenKept late)
  apart j k first second secret secret' got got' holds holds' same := by
    cases get_set got with
    | inl now =>
      cases get_set got' with
      | inl now' => exact now.1.trans now'.1.symm
      | inr before =>
        rw [now.2] at holds
        have apart := next.apart secret holds k second secret' before.1 before.2 holds'
        exact absurd same.symm apart
    | inr before =>
      cases get_set got' with
      | inl now' =>
        rw [now'.2] at holds'
        have apart := next.apart secret' holds' j first secret before.1 before.2 holds
        exact absurd same apart
      | inr before' =>
        exact inv.apart j k first second secret secret' before.2 before'.2 holds holds' same
  keys key := by
    rw [next.keys, inv.keys key]
    constructor
    · intro known
      cases known with
      | inl old =>
        have ⟨j, other, secret, got, holds, same⟩ := old
        by_cases now : j = i
        · subst now
          have equal : other = call := some.inj (got.symm.trans here)
          subst equal
          exact ⟨j, _, secret, set_self _ here, next.stored secret holds, same⟩
        · exact ⟨j, other, secret, by rw [set_other _ now, got], holds, same⟩
      | inr new =>
        have ⟨secret, holds, same⟩ := new
        exact ⟨i, _, secret, set_self _ here, holds, same⟩
    · intro ⟨j, other, secret, got, holds, same⟩
      cases get_set got with
      | inl now =>
        rw [now.2] at holds same
        exact .inr ⟨secret, holds, same⟩
      | inr before => exact .inl ⟨j, other, secret, before.2, holds, same⟩
  returned j other secret key got ends := by
    cases get_set got with
    | inl now =>
      rw [now.2] at ends ⊢
      exact next.returned secret key ends
    | inr before => exact inv.returned j other secret key before.2 ends

/-- The digests behind the hashes of different passwords or salts differ. -/
def HashesApart (p : Platform) : Prop := ∀ password salt password' salt' : ByteArray,
  p.hmac password salt = p.hmac password' salt' → password = password' ∧ salt = salt'

theorem fromByteArray_injective (encodes : p.Encodes) {first second : ByteArray}
    (same : p.fromByteArray first = p.fromByteArray second) : first = second := by
  have read := congrArg p.toByteArray same
  rw [encodes.reads, encodes.reads] at read
  exact some.inj read

theorem fromByteArray_texts (encodes : p.Encodes) (bytes : ByteArray) (size : bytes.size = 16) :
    p.fromByteArray bytes ≠ [] ∧ Plain (p.fromByteArray bytes) ∧ WellFormed (p.fromByteArray bytes) := by
  have filled : bytes ≠ ByteArray.empty := by
    intro empty
    rw [empty] at size
    exact absurd size (by decide)
  have ascii : ∀ u ∈ p.fromByteArray bytes, u.val < 128 :=
    fun u member => (encodes.digits bytes u member).2
  exact ⟨encodes.filled bytes filled, plain_ascii _ ascii, _, wellFormed_ascii _ ascii⟩

theorem hash_eq (hashed : p.hashHighEntropyPasswordWithSalt password salt = some hash) :
    ∃ bytes, p.toByteArray salt = some bytes ∧
      hash = lit ['v', 'H', '2', '.'] ++ p.hmac (encodeText password) bytes := by
  unfold Platform.hashHighEntropyPasswordWithSalt at hashed
  split at hashed
  · cases hashed
  · have ⟨bytes, read, same⟩ := Option.map_eq_some_iff.mp hashed
    exact ⟨bytes, read, same.symm⟩

theorem hash_injective (apart : HashesApart p) {password' salt' : JsString}
    (wellPassword : WellFormed password) (wellPassword' : WellFormed password')
    (hashed : p.hashHighEntropyPasswordWithSalt password salt = some hash)
    (hashed' : p.hashHighEntropyPasswordWithSalt password' salt' = some hash) :
    password = password' ∧ p.toByteArray salt = p.toByteArray salt' := by
  have ⟨bytes, read, same⟩ := hash_eq hashed
  have ⟨bytes', read', same'⟩ := hash_eq hashed'
  have equal := apart _ _ _ _ (List.append_cancel_left (same.symm.trans same'))
  exact ⟨encodeText_injective wellPassword wellPassword' equal.1, by rw [read, read', equal.2]⟩

theorem Inv.new_hash (encodes : p.Encodes) (apart : HashesApart p) (inv : Inv p s) (secret : Secret)
    (made : Made p drawn secret)
    (own : ∀ (j : Nat) (other : Call) (secret' : Secret), s.calls[j]? = some other →
      other.stage.stored = some secret' → secret'.password ≠ secret.password) :
    ∀ other ∈ s.store.recordKeys, other.secretHash ≠ secret.passwordHash := by
  intro key member same
  have ⟨j, other, secret', got, holds, equal⟩ := (inv.keys key).mp member
  have made' := inv.made j other secret' got (Stage.secret_of_stored holds)
  have ⟨bytes, _, size, text⟩ := made.password
  have ⟨bytes', _, size', text'⟩ := made'.password
  have sameHash : secret'.passwordHash = secret.passwordHash := by
    rw [equal] at same
    exact same
  have hashed' := made'.hash
  rw [sameHash] at hashed'
  have well : WellFormed secret.password := text ▸ (fromByteArray_texts encodes bytes size).2.2
  have well' : WellFormed secret'.password := text' ▸ (fromByteArray_texts encodes bytes' size').2.2
  exact own j other secret' got holds (hash_injective apart well' well hashed' made.hash).1

theorem Inv.new_password (encodes : p.Encodes) (inv : Inv p s) (bytes : ByteArray)
    (fresh : bytes ∉ s.drawn) (j : Nat) (other : Call) (secret : Secret)
    (got : s.calls[j]? = some other) (holds : other.stage.secret = some secret) :
    secret.password ≠ p.fromByteArray bytes := by
  intro same
  have ⟨old, member, _, text⟩ := (inv.made j other secret got holds).password
  have equal := fromByteArray_injective encodes (text.symm.trans same)
  exact fresh (equal ▸ member)

theorem Inv.refuse (inv : Inv p s) (here : s.calls[i]? = some call)
    (secretless : call.stage.secret = none) (failure : CreateFailure)
    {overtaken : List Nat} (drawnKept : s.drawn ⊆ drawn) (overtakenKept : s.overtaken ⊆ overtaken) :
    Inv p ⟨s.store, s.calls.set i { call with stage := .refused failure }, drawn, overtaken⟩ := by
  apply inv.advance here
  exact
    { unique := inv.unique
      records := fun _ member => .inl member
      lookups := fun _ _ got => got
      drawnKept := drawnKept
      overtakenKept := overtakenKept
      read := fun _ same => by cases same
      made := fun _ holds => by cases holds
      owned := fun _ holds => by cases holds
      apart := fun _ holds => by cases holds
      keys := fun _ => ⟨.inl, fun known => known.elim id (fun ⟨_, holds, _⟩ => by cases holds)⟩
      stored := fun _ holds => by
        rw [Stage.secret_of_stored holds] at secretless
        cases secretless
      returned := fun _ _ same => by cases same }

theorem Inv.draw (encodes : p.Encodes) (apart : HashesApart p) (inv : Inv p s)
    (here : s.calls[i]? = some call) (record : Option Record) (stage : call.stage = .reading record)
    (passwordBytes saltBytes : ByteArray) (size : passwordBytes.size = 16)
    (newPassword : passwordBytes ∉ s.drawn) (newSalt : saltBytes ∉ s.drawn) :
    Inv p { s.set i call (resumeReading p s.store call record (p.fromByteArray passwordBytes)
        (p.fromByteArray saltBytes)) with
      drawn := passwordBytes :: saltBytes :: s.drawn
      overtaken := if s.Overtakes call then i :: s.overtaken else s.overtaken } := by
  have secretless : call.stage.secret = none := by rw [stage]; rfl
  have drawnKept : s.drawn ⊆ passwordBytes :: saltBytes :: s.drawn :=
    fun _ member => mem_cons_of_mem _ (mem_cons_of_mem _ member)
  have overtakenKept : s.overtaken ⊆ if s.Overtakes call then i :: s.overtaken else s.overtaken := by
    split
    · exact fun _ member => mem_cons_of_mem _ member
    · exact fun _ member => member
  have other : ∀ (j : Nat) (other : Call) (secret : Secret), s.calls[j]? = some other →
      other.stage.secret = some secret → secret.password ≠ p.fromByteArray passwordBytes :=
    fun j other secret got holds => inv.new_password encodes passwordBytes newPassword j other secret got holds
  simp only [Server.set, resumeReading]
  split
  · exact inv.refuse here secretless _ drawnKept overtakenKept
  · cases record with
    | some record =>
      have got := inv.read i call record here stage
      simp only
      split
      · exact inv.refuse here secretless _ drawnKept overtakenKept
      · rename_i owner
        have owns : record.ownerId = call.userId := by simpa using owner
        split
        · exact inv.refuse here secretless _ drawnKept overtakenKept
        · rename_i hash hashed
          have ⟨_, saltOld, member, salt⟩ := inv.records record (name_of_get got).1
          have made : Made p (passwordBytes :: saltBytes :: s.drawn)
              ⟨p.fromByteArray passwordBytes, record.secretSalt, hash⟩ :=
            ⟨⟨passwordBytes, mem_cons_self, size, rfl⟩, ⟨saltOld, drawnKept member, salt⟩, hashed⟩
          have newHash := inv.new_hash encodes apart _ made
            (fun j before secret got' holds => other j before secret got' (Stage.secret_of_stored holds))
          apply inv.advance here
          exact
            { unique := by simpa using inv.unique
              records := fun r inside => .inl (by simpa using inside)
              lookups := by simp
              drawnKept := drawnKept
              overtakenKept := overtakenKept
              read := fun _ same => by cases same
              made := fun secret holds => some.inj holds ▸ made
              owned := fun secret holds => by
                rw [← some.inj holds]
                exact ⟨record, by simpa using got, fun _ => rfl, fun _ => owns⟩
              apart := fun secret holds j before secret' _ got' holds' => by
                rw [← some.inj holds]
                exact other j before secret' got' holds'
              keys := fun key => by
                rw [mem_addRecordKey _ newHash]
                simp [Stage.stored, owns]
              stored := fun secret holds => by
                rw [Stage.secret_of_stored holds] at secretless
                cases secretless
              returned := fun _ _ same => by cases same }
    | none =>
      simp only
      split
      · exact inv.refuse here secretless _ drawnKept overtakenKept
      · rename_i hash hashed
        have made : Made p (passwordBytes :: saltBytes :: s.drawn)
            ⟨p.fromByteArray passwordBytes, p.fromByteArray saltBytes, hash⟩ :=
          ⟨⟨passwordBytes, mem_cons_self, size, rfl⟩,
            ⟨saltBytes, mem_cons_of_mem _ mem_cons_self, rfl⟩, hashed⟩
        have saltNew : ∀ record ∈ s.store.records, record.secretSalt ≠ p.fromByteArray saltBytes := by
          intro record member same
          have ⟨_, old, inside, text⟩ := inv.records record member
          exact newSalt (fromByteArray_injective encodes (text.symm.trans same) ▸ inside)
        apply inv.advance here
        exact
          { unique := by
              intro record member
              cases mem_addRecord _ _ member with
              | inl old => exact get_addRecord_kept _ _ _ (inv.unique record old)
              | inr new =>
                rw [new.1]
                exact get_addRecord_new _ new.2
            records := by
              intro record member
              cases mem_addRecord _ _ member with
              | inl old => exact .inl old
              | inr new =>
                rw [new.1]
                exact .inr ⟨rfl, saltBytes, mem_cons_of_mem _ mem_cons_self, rfl⟩
            lookups := fun name found got => get_addRecord_kept _ _ _ got
            drawnKept := drawnKept
            overtakenKept := overtakenKept
            read := fun _ same => by cases same
            made := fun secret holds => some.inj holds ▸ made
            owned := by
              intro secret holds
              rw [← some.inj holds]
              cases got : s.store.getRecordByName call.name with
              | none =>
                exact ⟨call.record (p.fromByteArray saltBytes), get_addRecord_new _ got,
                  fun _ => rfl, fun _ => rfl⟩
              | some record =>
                have late : s.Overtakes call := ⟨stage, by rw [got]; exact Option.some_ne_none _⟩
                refine ⟨record, get_addRecord_kept _ _ _ got, fun free => ?_, fun same => ?_⟩
                · rw [if_pos late] at free
                  exact absurd mem_cons_self free
                · exact absurd same (saltNew record (name_of_get got).1)
            apart := fun secret holds j before secret' _ got' holds' => by
              rw [← some.inj holds]
              exact other j before secret' got' holds'
            keys := fun key => by simp [Stage.stored]
            stored := fun secret holds => by
              rw [Stage.secret_of_stored holds] at secretless
              cases secretless
            returned := fun _ _ same => by cases same }

theorem Inv.resume (encodes : p.Encodes) (apart : HashesApart p) (inv : Inv p s) (here : s.calls[i]? = some call)
    (stage : ∃ secret, call.stage = .addingRecord secret ∨ call.stage = .addingKey secret) :
    Inv p (s.set i call (resumeAdding p s.store call)) := by
  have ⟨secret, either⟩ := stage
  have holds : call.stage.secret = some secret := by
    cases either with
    | inl adding => rw [adding]; rfl
    | inr adding => rw [adding]; rfl
  have made := inv.made i call secret here holds
  have owned := inv.owned i call secret here holds
  have other : ∀ (j : Nat) (before : Call) (secret' : Secret), j ≠ i → s.calls[j]? = some before →
      before.stage.secret = some secret' → secret'.password ≠ secret.password :=
    fun j before secret' different got holds' same =>
      different (inv.apart j i before call secret' secret got here holds' holds same)
  simp only [Server.set, resumeAdding]
  cases either with
  | inl adding =>
    rw [adding]
    have newHash := inv.new_hash encodes apart secret made (by
      intro j before secret' got holds'
      apply other j before secret' (fun same => ?_) got (Stage.secret_of_stored holds')
      subst same
      rw [some.inj (got.symm.trans here), adding] at holds'
      cases holds')
    apply inv.advance here
    exact
      { unique := by simpa using inv.unique
        records := fun r inside => .inl (by simpa using inside)
        lookups := by simp
        drawnKept := fun _ member => member
        overtakenKept := fun _ member => member
        read := fun _ same => by cases same
        made := fun secret' same => some.inj same ▸ made
        owned := fun secret' same => by
          rw [← some.inj same]
          exact owned.mono (by simp) id
        apart := fun secret' same => by
          rw [← some.inj same]
          exact other
        keys := fun key => by
          rw [mem_addRecordKey _ newHash]
          simp [Stage.stored]
        stored := fun secret' same => by
          rw [adding] at same
          cases same
        returned := fun _ _ same => by cases same }
  | inr adding =>
    rw [adding]
    apply inv.advance here
    exact
      { unique := inv.unique
        records := fun _ inside => .inl inside
        lookups := fun _ _ got => got
        drawnKept := fun _ member => member
        overtakenKept := fun _ member => member
        read := fun _ same => by cases same
        made := fun secret' same => some.inj same ▸ made
        owned := fun secret' same => some.inj same ▸ owned
        apart := fun secret' same => by
          rw [← some.inj same]
          exact other
        keys := fun key => by
          refine ⟨.inl, fun known => known.elim id (fun ⟨secret', same, equal⟩ => ?_)⟩
          rw [← some.inj same] at equal
          exact (inv.keys key).mpr ⟨i, call, secret, here, by rw [adding]; rfl, equal⟩
        stored := fun secret' same => by
          rw [adding] at same
          exact same
        returned := fun secret' key same => by
          have parts := Stage.returned.inj same
          rw [← parts.1, ← parts.2] }

theorem Inv.idle : Inv p idle where
  unique _ member := by cases member
  records _ member := by cases member
  read _ _ _ got := by cases got
  made _ _ _ got := by cases got
  owned _ _ _ got := by cases got
  apart _ _ _ _ _ _ got := by cases got
  keys _ := by
    constructor
    · intro member
      cases member
    · intro ⟨_, _, _, got, _⟩
      cases got
  returned _ _ _ _ got := by cases got

theorem Inv.step (encodes : p.Encodes) (apart : HashesApart p) (inv : Inv p s) (label : Label)
    (fresh : Fresh s label) (next : Server) (ran : step p s label = some next) : Inv p next := by
  cases label with
  | createPublicRecordKey name policy userId =>
    rw [← some.inj ran]
    exact inv.create name policy userId
  | draw i passwordBytes saltBytes =>
    have ⟨size, _, newPassword, newSalt⟩ := fresh
    simp only [KeyCreation.step] at ran
    cases here : s.calls[i]? with
    | none => simp [here] at ran
    | some call =>
      simp only [here] at ran
      split at ran
      · rename_i record stage
        rw [← some.inj ran]
        exact inv.draw encodes apart here record stage passwordBytes saltBytes size newPassword newSalt
      · cases ran
  | resume i =>
    simp only [KeyCreation.step] at ran
    cases here : s.calls[i]? with
    | none => simp [here] at ran
    | some call =>
      simp only [here] at ran
      split at ran
      · rename_i secret stage
        rw [← some.inj ran]
        exact inv.resume encodes apart here ⟨secret, .inl stage⟩
      · rename_i secret stage
        rw [← some.inj ran]
        exact inv.resume encodes apart here ⟨secret, .inr stage⟩
      · cases ran

theorem Inv.run (encodes : p.Encodes) (apart : HashesApart p) (labels : List Label)
    (fresh : AllAllowed (KeyCreation.step p) Fresh KeyCreation.idle labels) (last : Server)
    (ran : runAll (KeyCreation.step p) KeyCreation.idle labels = some last) : Inv p last :=
  (reaches_of_runAll labels fresh ran).invariant (Inv p) Inv.idle
    (fun _ label next inv allowed ran => inv.step encodes apart label allowed next ran)

theorem Inv.lookup (encodes : p.Encodes) (apart : HashesApart p) (inv : Inv p s)
    {secret : Secret} (here : s.calls[i]? = some call) (holds : call.stage.stored = some secret) :
    s.store.getRecordKeyByRecordAndHash call.name secret.passwordHash =
      some (call.recordKey secret call.userId) := by
  have kept := (inv.keys _).mpr ⟨i, call, secret, here, holds, rfl⟩
  cases found : s.store.getRecordKeyByRecordAndHash call.name secret.passwordHash with
  | none =>
    have none := List.find?_eq_none.mp found _ kept
    exact absurd (decide_eq_true ⟨rfl, rfl⟩) none
  | some key =>
    have ⟨j, other, secret', got, holds', same⟩ := (inv.keys key).mp (found_key found).1
    have parts := (found_key found).2
    have made := inv.made i call secret here (Stage.secret_of_stored holds)
    have made' := inv.made j other secret' got (Stage.secret_of_stored holds')
    have ⟨bytes, _, size, text⟩ := made.password
    have ⟨bytes', _, size', text'⟩ := made'.password
    have hashed := made'.hash
    have sameHash : secret'.passwordHash = secret.passwordHash := by
      rw [same] at parts
      exact parts.2
    rw [sameHash] at hashed
    have equal := (hash_injective apart (text ▸ (fromByteArray_texts encodes bytes size).2.2)
      (text' ▸ (fromByteArray_texts encodes bytes' size').2.2) made.hash hashed).1
    have place := inv.apart i j call other secret secret' here got (Stage.secret_of_stored holds)
      (Stage.secret_of_stored holds') equal
    subst place
    have sameCall : call = other := some.inj (here.symm.trans got)
    subst sameCall
    rw [same, some.inj (holds.symm.trans holds')]

theorem v1_hash_apart {password' salt' hash' : JsString} (first : p.hashPasswordWithSalt password salt = some hash)
    (second : p.hashHighEntropyPasswordWithSalt password' salt' = some hash') : hash ≠ hash' := by
  intro same
  have ⟨bytes, _, text⟩ := hash_eq second
  unfold Platform.hashPasswordWithSalt at first
  split at first
  · cases first
  · have ⟨bytes', _, text'⟩ := Option.map_eq_some_iff.mp first
    have third := congrArg (fun text : JsString => text[2]?) (text'.trans (same.trans text))
    change (lit ['v', 'H', '1', '.'])[2]? = (lit ['v', 'H', '2', '.'])[2]? at third
    exact absurd third (by decide)

theorem Inv.validates_iff (encodes : p.Encodes) (apart : HashesApart p) (inv : Inv p s)
    (key : JsString) (success : ValidateSuccess) :
    p.validatePublicRecordKey s.store key = .ok success ↔
      ∃ (i : Nat) (call : Call) (secret : Secret) (record : Record),
        s.calls[i]? = some call ∧ call.stage.stored = some secret ∧
        p.parseRecordKey key = some ⟨call.name, secret.password, call.keyPolicy⟩ ∧
        s.store.getRecordByName call.name = some record ∧ record.secretSalt = secret.salt ∧
        success = ⟨call.name, call.keyPolicy, call.userId, call.userId⟩ := by
  constructor
  · intro valid
    unfold Platform.validatePublicRecordKey at valid
    split at valid
    · cases valid
    · rename_i parsed read
      split at valid
      · cases valid
      · rename_i record got
        have noHashes := (inv.records record (name_of_get got).1).1
        split at valid
        · cases valid
        · rename_i found looked
          split at valid
          · cases valid
          · rename_i policy
            have samePolicy : found.policy = parsed.policy := by simpa using policy
            split at valid
            · rename_i good
              simp only [Platform.findSecret, Option.bind_eq_bind, Option.bind_eq_some_iff,
                Platform.findHash, noHashes, List.not_mem_nil, if_false] at looked
              have ⟨hash, hashed, inner⟩ := looked
              cases first : s.store.getRecordKeyByRecordAndHash parsed.name hash with
              | none =>
                simp only [first, Option.map_none, Option.bind_eq_some_iff] at inner
                have ⟨hash1, hashed1, last⟩ := inner
                cases second : s.store.getRecordKeyByRecordAndHash parsed.name hash1 with
                | none =>
                  rw [second] at last
                  rw [← some.inj last] at good
                  cases good
                | some key1 =>
                  have ⟨j, other, secret, gotCall, holds, same⟩ :=
                    (inv.keys key1).mp (found_key second).1
                  have parts := (found_key second).2
                  rw [same] at parts
                  have made := inv.made j other secret gotCall (Stage.secret_of_stored holds)
                  exact absurd parts.2.symm (v1_hash_apart hashed1 made.hash)
              | some key2 =>
                have ⟨i, call, secret, gotCall, holds, same⟩ :=
                  (inv.keys key2).mp (found_key first).1
                have parts := (found_key first).2
                simp only [first, Option.map_some, some.injEq] at inner
                rw [← inner] at samePolicy valid
                rw [same] at parts samePolicy valid
                have made := inv.made i call secret gotCall (Stage.secret_of_stored holds)
                have ⟨bytes, _, size, text⟩ := made.password
                have ⟨saltBytes, _, saltText⟩ := made.salt
                have ⟨_, recordBytes, _, recordText⟩ := inv.records record (name_of_get got).1
                rw [← parts.2] at hashed
                have equal := hash_injective apart (Platform.wellFormed_password key parsed read)
                  (text ▸ (fromByteArray_texts encodes bytes size).2.2) hashed made.hash
                have sameSalt : record.secretSalt = secret.salt := by
                  rw [recordText, saltText]
                  rw [recordText, saltText, encodes.reads, encodes.reads] at equal
                  rw [some.inj equal.2]
                have ⟨record', got', _, owner⟩ :=
                  inv.owned i call secret gotCall (Stage.secret_of_stored holds)
                have sameName : call.name = parsed.name := parts.1
                rw [← sameName] at got valid
                have sameRecord : record' = record := some.inj (got'.symm.trans got)
                have owns : record.ownerId = call.userId := sameRecord ▸ owner (sameRecord ▸ sameSalt)
                refine ⟨i, call, secret, record, gotCall, holds, ?_, got, sameSalt, ?_⟩
                · have policies : parsed.policy = call.keyPolicy := samePolicy.symm
                  rw [read, sameName, ← equal.1, ← policies]
                · have result := Except.ok.inj valid
                  rw [← result, ← samePolicy, owns]
                  rfl
            · cases valid
  · intro ⟨i, call, secret, record, here, holds, read, got, salt, same⟩
    have made := inv.made i call secret here (Stage.secret_of_stored holds)
    have noHashes := (inv.records record (name_of_get got).1).1
    have ⟨record', got', _, owner⟩ := inv.owned i call secret here (Stage.secret_of_stored holds)
    have sameRecord : record' = record := some.inj (got'.symm.trans got)
    have owns : record.ownerId = call.userId := sameRecord ▸ owner (sameRecord ▸ salt)
    have hashed := made.hash
    rw [← salt] at hashed
    have looked : p.findSecret s.store record call.name secret.password =
        some ⟨true, call.keyPolicy, some call.userId⟩ := by
      simp [Platform.findSecret, hashed, Platform.findHash, noHashes,
        inv.lookup encodes apart here holds, Call.recordKey]
    simp [Platform.validatePublicRecordKey, read, got, looked, same, owns]

theorem step_lookup (label : Label) (next : Server) (ran : step p s label = some next)
    (name : JsString) (record : Record) (got : s.store.getRecordByName name = some record) :
    next.store.getRecordByName name = some record := by
  cases label with
  | createPublicRecordKey name policy userId =>
    rw [← some.inj ran]
    exact got
  | draw i passwordBytes saltBytes =>
    simp only [KeyCreation.step] at ran
    split at ran
    · cases ran
    · split at ran
      · rw [← some.inj ran]
        simp only [Server.set, resumeReading]
        split
        · exact got
        · split
          · split
            · exact got
            · split
              · exact got
              · simpa using got
          · split
            · exact got
            · exact get_addRecord_kept _ _ _ got
      · cases ran
  | resume i =>
    simp only [KeyCreation.step] at ran
    split at ran
    · cases ran
    · split at ran
      · rename_i stage
        rw [← some.inj ran]
        simpa [Server.set, resumeAdding, stage] using got
      · rename_i stage
        rw [← some.inj ran]
        simpa [Server.set, resumeAdding, stage] using got
      · cases ran

theorem runAll_lookup (labels : List Label) (last : Server)
    (ran : runAll (step p) s labels = some last) (name : JsString) (record : Record)
    (got : s.store.getRecordByName name = some record) : last.store.getRecordByName name = some record :=
  (reaches_of_runAll labels (allAllowed_true s labels) ran).invariant
    (fun t => t.store.getRecordByName name = some record) got
    (fun _ label next before _ ran => step_lookup label next ran name record before)

/-- A name and a policy whose key can be read again. -/
structure Readable (call : Call) : Prop where
  filled : call.name ≠ []
  plain : Plain call.name
  policy : call.policy = none ∨ call.policy = some subjectfull ∨ call.policy = some subjectless

theorem Inv.parse_returned (encodes : p.Encodes) (inv : Inv p s)
    {secret : Secret} {key : JsString} (here : s.calls[i]? = some call)
    (stage : call.stage = .returned secret key) (readable : Readable call) :
    p.parseRecordKey key = some ⟨call.name, secret.password, call.keyPolicy⟩ := by
  have holds : call.stage.secret = some secret := by rw [stage]; rfl
  have ⟨bytes, _, size, text⟩ := (inv.made i call secret here holds).password
  have ⟨filled, plain, _⟩ := fromByteArray_texts encodes bytes size
  have known : call.policy.getD defaultPolicy = subjectfull ∨ call.policy.getD defaultPolicy = subjectless := by
    rcases readable.policy with none | full | less
    · exact .inl (by rw [none]; rfl)
    · exact .inl (by rw [full]; rfl)
    · exact .inr (by rw [less]; rfl)
  rw [inv.returned i call secret key here stage]
  exact Platform.parse_formatV2 encodes call.name secret.password call.policy readable.plain
    (text ▸ plain) readable.filled (text ▸ filled) known

end Keeping

/-- The owner of a record is one for ever and made its keys, every returned key is good, and nothing is
good but what reads as a stored key. -/
theorem record_keys_good (p : Platform) (encodes : p.Encodes) (apart : HashesApart p)
    (labels : List Label) (fresh : AllAllowed (step p) Fresh idle labels) (s : Server)
    (ran : runAll (step p) idle labels = some s) :
    (∀ later t name record, runAll (step p) s later = some t →
      s.store.getRecordByName name = some record → t.store.getRecordByName name = some record) ∧
    (∀ key ∈ s.store.recordKeys, ∃ (i : Nat) (call : Call) (secret : Secret),
      s.calls[i]? = some call ∧ call.stage.stored = some secret ∧
      key = call.recordKey secret call.userId ∧
      (i ∉ s.overtaken → validateRecordName s.store key.recordName = .ok key.creatorId)) ∧
    (∀ (i : Nat) (call : Call) (secret : Secret) (key : JsString), s.calls[i]? = some call →
      call.stage = .returned secret key → i ∉ s.overtaken → Readable call →
      p.validatePublicRecordKey s.store key =
        .ok ⟨call.name, call.keyPolicy, call.userId, call.userId⟩) ∧
    (∀ key success, p.validatePublicRecordKey s.store key = .ok success →
      ∃ (i : Nat) (call : Call) (secret : Secret),
        s.calls[i]? = some call ∧ call.stage.stored = some secret ∧
        p.parseRecordKey key = some ⟨call.name, secret.password, call.keyPolicy⟩ ∧
        success = ⟨call.name, call.keyPolicy, call.userId, call.userId⟩ ∧
        ∀ (j : Nat) (other : Call) (secret' : Secret), s.calls[j]? = some other →
          other.stage.secret = some secret' → secret'.password = secret.password → j = i) := by
  have inv := Inv.run encodes apart labels fresh s ran
  refine ⟨?_, ?_, ?_, ?_⟩
  · intro later t name record ranLater got
    exact runAll_lookup later t ranLater name record got
  · intro key member
    have ⟨i, call, secret, here, holds, same⟩ := (inv.keys key).mp member
    refine ⟨i, call, secret, here, holds, same, fun free => ?_⟩
    have ⟨record, got, own, owner⟩ := inv.owned i call secret here (Stage.secret_of_stored holds)
    have looked : s.store.getRecordByName key.recordName = some record := same ▸ got
    have created : key.creatorId = call.userId := same ▸ rfl
    rw [validateRecordName, looked, created, ← owner (own free)]
  · intro i call secret key here stage free readable
    have holds : call.stage.stored = some secret := by rw [stage]; rfl
    have ⟨record, got, own, _⟩ := inv.owned i call secret here (Stage.secret_of_stored holds)
    exact (inv.validates_iff encodes apart key _).mpr ⟨i, call, secret, record, here, holds,
      inv.parse_returned encodes here stage readable, got, own free, rfl⟩
  · intro key success valid
    have ⟨i, call, secret, record, here, holds, read, _, _, same⟩ :=
      (inv.validates_iff encodes apart key success).mp valid
    refine ⟨i, call, secret, here, holds, read, same, fun j other secret' got holds' equal => ?_⟩
    exact inv.apart j i other call secret' secret got here holds' (Stage.secret_of_stored holds) equal

/-! ### A call by itself -/

section Single

variable {p : Platform}

def alone (name : JsString) (policy : Option JsString) (userId : JsString)
    (passwordBytes saltBytes : ByteArray) : List Label :=
  [.createPublicRecordKey name policy userId, .draw 0 passwordBytes saltBytes, .resume 0, .resume 0]

theorem alone_fresh (name userId : JsString) (policy : Option JsString)
    (passwordBytes saltBytes : ByteArray) (size : passwordBytes.size = 16) (saltSize : saltBytes.size = 16) :
    AllAllowed (step p) Fresh idle (alone name policy userId passwordBytes saltBytes) := by
  refine ⟨trivial, fun next ran => ⟨?_, fun _ _ => ⟨trivial, fun _ _ => ⟨trivial, fun _ _ => trivial⟩⟩⟩⟩
  have nothing : next.drawn = [] := some.inj ran ▸ rfl
  simp [Fresh, size, saltSize, nothing]

theorem hash_of_bytes (encodes : p.Encodes) (passwordBytes saltBytes : ByteArray)
    (size : passwordBytes.size = 16) (saltSize : saltBytes.size = 16) :
    ∃ hash, p.hashHighEntropyPasswordWithSalt (p.fromByteArray passwordBytes)
      (p.fromByteArray saltBytes) = some hash := by
  have filled := (fromByteArray_texts encodes passwordBytes size).1
  have saltFilled := (fromByteArray_texts encodes saltBytes saltSize).1
  rw [Platform.hashHighEntropyPasswordWithSalt, if_neg (fun either => either.elim filled saltFilled), encodes.reads]
  exact ⟨_, rfl⟩

/-- A call that nothing interrupts returns a key of a new record. -/
theorem runs_alone (encodes : p.Encodes) (name userId : JsString) (policy : Option JsString)
    (passwordBytes saltBytes : ByteArray) (loggedIn : userId ≠ [])
    (known : policy = none ∨ policy = some subjectfull ∨ policy = some subjectless)
    (size : passwordBytes.size = 16) (saltSize : saltBytes.size = 16) :
    ∃ s secret, runAll (step p) idle (alone name policy userId passwordBytes saltBytes) = some s ∧
      s.calls = [⟨name, policy, userId, .returned secret (p.formatV2RecordKey name secret.password policy)⟩] ∧
      s.overtaken = [] ∧ secret.password = p.fromByteArray passwordBytes := by
  have ⟨hash, hashed⟩ := hash_of_bytes encodes passwordBytes saltBytes size saltSize
  have accepted : Call.policyRefused ⟨name, policy, userId, .reading none⟩ = false := by
    rcases known with none | full | less
    · rw [none]; rfl
    · rw [full]; rfl
    · rw [less]; rfl
  let secret : Secret := ⟨p.fromByteArray passwordBytes, p.fromByteArray saltBytes, hash⟩
  let call : Call :=
    ⟨name, policy, userId, .returned secret (p.formatV2RecordKey name secret.password policy)⟩
  let store : MemoryRecordsStore := ⟨[call.record secret.salt], [call.recordKey secret userId]⟩
  refine ⟨⟨store, [call], [passwordBytes, saltBytes], []⟩, secret, ?_, rfl, rfl, rfl⟩
  simp [alone, runAll, step, idle, begin, loggedIn, resumeReading, accepted, hashed, Server.set, resumeAdding,
    getRecordByName, addRecord, addRecordKey,
    Server.Overtakes]
  exact ⟨rfl, rfl⟩

end Single

/-! ### A platform -/

def bytesToBase64 (bytes : ByteArray) : JsString :=
  (Base64.encode (bytes.data.toList.map UInt8.toNat)).map (Fin.ofNat 65536)

def base64ToBytes (text : JsString) : Option ByteArray :=
  (Base64.decode (text.map Fin.val)).map (fun values => ⟨(values.map UInt8.ofNat).toArray⟩)

/-- Strict base64, and digests that are the texts of what they are made of. -/
def pairing : Platform where
  fromByteArray := bytesToBase64
  toByteArray := base64ToBytes
  readMalformed _ := [Utf16.replacement]
  scrypt password salt := bytesToBase64 password ++ period :: bytesToBase64 salt
  hmac password salt := bytesToBase64 password ++ period :: bytesToBase64 salt

theorem units_small (bytes : ByteArray) (unit : Nat)
    (member : unit ∈ Base64.encode (bytes.data.toList.map UInt8.toNat)) : unit ≠ 46 ∧ unit < 128 := by
  apply Base64.encode_units _ _ unit member
  intro a inside
  have ⟨byte, _, same⟩ := mem_map.mp inside
  exact same ▸ byte.toNat_lt

theorem base64ToBytes_bytesToBase64 (bytes : ByteArray) : base64ToBytes (bytesToBase64 bytes) = some bytes := by
  have values : (bytesToBase64 bytes).map Fin.val = Base64.encode (bytes.data.toList.map UInt8.toNat) := by
    rw [bytesToBase64, List.map_map]
    conv => rhs; rw [← List.map_id (Base64.encode _)]
    apply List.map_congr_left
    intro unit member
    have small := (units_small bytes unit member).2
    exact Nat.mod_eq_of_lt (by omega)
  have back : UInt8.ofNat ∘ UInt8.toNat = id := funext (fun _ => UInt8.ofNat_toNat)
  rw [base64ToBytes, values, Base64.decode_encode]
  · simp [back]
  · intro a inside
    have ⟨byte, _, same⟩ := mem_map.mp inside
    exact same ▸ byte.toNat_lt

theorem pairing_encodes : pairing.Encodes where
  reads := base64ToBytes_bytesToBase64
  digits bytes u member := by
    have ⟨unit, inside, same⟩ := mem_map.mp member
    have ⟨notPeriod, small⟩ := units_small bytes unit inside
    have value : u.val = unit := by
      rw [← same]
      exact Nat.mod_eq_of_lt (by omega)
    refine ⟨fun equal => notPeriod ?_, by omega⟩
    rw [← value, equal]
    rfl
  filled bytes filled none := by
    have empty := List.map_eq_nil_iff.mp none
    apply Base64.encode_ne_nil _ _ empty
    intro nothing
    have noData : bytes.data.toList = [] := List.map_eq_nil_iff.mp nothing
    exact filled (ByteArray.ext (by simpa using noData))

theorem pairing_apart : HashesApart pairing := by
  intro password salt password' salt' same
  have absent : ∀ bytes, period ∉ bytesToBase64 bytes :=
    fun bytes member => (pairing_encodes.digits bytes _ member).1 rfl
  have cut := cutAtPeriod_append (bytesToBase64 password) (bytesToBase64 salt) (absent password)
  have cut' := cutAtPeriod_append (bytesToBase64 password') (bytesToBase64 salt') (absent password')
  have parts := Prod.mk.inj (some.inj (cut.symm.trans ((congrArg cutAtPeriod same).trans cut')))
  exact ⟨fromByteArray_injective pairing_encodes parts.1, fromByteArray_injective pairing_encodes parts.2⟩

def sixteen (byte : UInt8) : ByteArray := ⟨(List.replicate 16 byte).toArray⟩

theorem r_plain : Plain (lit ['r']) := by
  apply plain_ascii
  intro u member
  rw [List.mem_singleton.mp member]
  decide

theorem first_key_good : ∃ s secret key,
    runAll (step pairing) idle
      (alone (lit ['r']) none (lit ['a']) (sixteen 1) (sixteen 2)) = some s ∧
    s.calls = [⟨lit ['r'], none, lit ['a'], .returned secret key⟩] ∧
    pairing.validatePublicRecordKey s.store key =
      .ok ⟨lit ['r'], subjectfull, lit ['a'], lit ['a']⟩ := by
  have ⟨s, secret, ran, calls, free, _⟩ := runs_alone pairing_encodes (lit ['r'])
    (lit ['a']) none (sixteen 1) (sixteen 2) (by decide) (.inl rfl) rfl rfl
  have filled : lit ['r'] ≠ [] := by decide
  have good := (record_keys_good pairing pairing_encodes pairing_apart _
    (alone_fresh (lit ['r']) (lit ['a']) none (sixteen 1) (sixteen 2) rfl rfl) s ran).2.2.1
  have here : s.calls[0]? = some ⟨lit ['r'], none, lit ['a'],
      .returned secret (pairing.formatV2RecordKey (lit ['r']) secret.password none)⟩ := by
    rw [calls]
    rfl
  exact ⟨s, secret, _, ran, calls, good 0 _ secret _ here rfl (by rw [free]; exact List.not_mem_nil)
    ⟨filled, r_plain, .inl rfl⟩⟩

/-- The V1 text of a name and a secret is as good as the returned one. -/
theorem v1_text_accepted : pairing.Encodes ∧ HashesApart pairing ∧ ∃ s text success,
    AllAllowed (step pairing) Fresh idle
      (alone (lit ['r']) none (lit ['a']) (sixteen 1) (sixteen 2)) ∧
    runAll (step pairing) idle
      (alone (lit ['r']) none (lit ['a']) (sixteen 1) (sixteen 2)) = some s ∧
    (∀ call ∈ s.calls, ∀ secret key, call.stage = .returned secret key → text ≠ key) ∧
    pairing.validatePublicRecordKey s.store text = .ok success := by
  have ⟨s, secret, ran, calls, free, password⟩ := runs_alone pairing_encodes (lit ['r'])
    (lit ['a']) none (sixteen 1) (sixteen 2) (by decide) (.inl rfl) rfl rfl
  have fresh : AllAllowed (step pairing) Fresh idle
      (alone (lit ['r']) none (lit ['a']) (sixteen 1) (sixteen 2)) :=
    alone_fresh _ _ none (sixteen 1) (sixteen 2) rfl rfl
  have inv := Inv.run pairing_encodes pairing_apart _ fresh s ran
  have here : s.calls[0]? = some ⟨lit ['r'], none, lit ['a'],
      .returned secret (pairing.formatV2RecordKey (lit ['r']) secret.password none)⟩ := by
    rw [calls]
    rfl
  have ⟨record, got, own, _⟩ := inv.owned 0 _ secret here rfl
  have ⟨filled, plain, _⟩ := fromByteArray_texts pairing_encodes (sixteen 1) rfl
  have salt : record.secretSalt = secret.salt := own (by rw [free]; exact List.not_mem_nil)
  have read := Platform.parse_formatV1 pairing_encodes (lit ['r']) secret.password r_plain
    (password ▸ plain) (by decide) (password ▸ filled)
  have valid := (inv.validates_iff pairing_encodes pairing_apart _ _).mpr
    ⟨0, _, secret, record, here, rfl, read, got, salt, rfl⟩
  refine ⟨pairing_encodes, pairing_apart, s, _, _, fresh, ran, ?_, valid⟩
  · intro call member secret' key stage same
    rw [calls, List.mem_singleton] at member
    rw [member] at stage
    rw [← (Stage.returned.inj stage).2] at same
    have fourth := congrArg (fun text : JsString => text[3]?) same
    change versionOne[3]? = versionTwo[3]? at fourth
    exact absurd fourth (by decide)

end CasualOS.KeyCreation
