import CasualOS.JsString
import CasualOS.Lib.Handlers
import CasualOS.Lib.OrderedMap

/-! Updates of the device directory that are made at the same time. -/

namespace CasualOS.Directory

open OrderedMap Run Handlers

structure DirectoryUpdate where
  publicName : JsString
  key : JsString
  password : JsString
  privateIpAddress : JsString
  publicIpAddress : JsString
  deriving DecidableEq

structure DirectoryEntry (Hash : Type) where
  publicName : JsString
  key : JsString
  passwordHash : Hash
  privateIpAddress : JsString
  publicIpAddress : JsString
  lastUpdateTime : Int
  webhookSucceeded : Option Bool

structure BadRequestError where
  path : List JsString
  message : JsString
  deriving DecidableEq

/-- The token is signed with the key and the addresses of the entry. -/
inductive DirectoryResult where
  | entryUpdated (key publicIpAddress privateIpAddress : JsString)
  | notAuthorized
  | badRequest (errors : List BadRequestError)
  deriving DecidableEq

/-- What the packages for schemas and password hashes give. -/
structure Platform (Hash : Type) where
  validate : DirectoryUpdate → Option (List BadRequestError)
  hashSync : JsString → JsString → Hash
  compareSync : JsString → Hash → Bool

/-- A hash is that of one password. -/
def Valid {Hash : Type} (p : Platform Hash) (passwordHash : Hash) (password : JsString) : Prop :=
  ∀ other, p.compareSync other passwordHash = true ↔ other = password

def Ideal {Hash : Type} (p : Platform Hash) : Prop := ∀ password salt, Valid p (p.hashSync password salt) password

/-- The map of `MemoryDirectoryStore`. History: the password that each key was first stored with, the key
and the presented password of every write, and the update of the last call that was completed. -/
structure Store (Hash : Type) where
  map : List (JsString × DirectoryEntry Hash)
  registered : List (JsString × JsString)
  writes : List (JsString × JsString)
  completed : List (JsString × DirectoryUpdate)

inductive Stage (Hash : Type) where
  | finding (existing : Option (DirectoryEntry Hash))
  | sending (entry : DirectoryEntry Hash) (previous : Option (DirectoryEntry Hash))
  | done (result : DirectoryResult)

structure Call (Hash : Type) where
  update : DirectoryUpdate
  stage : Stage Hash

/-- The salt of a new hash, and whether the webhook answered. -/
structure Given where
  salt : JsString
  responded : Bool

section Steps

variable {Hash : Type} (p : Platform Hash) (webhook : Bool)

abbrev Server (Hash : Type) := State (Store Hash) (Call Hash)

/-- `update` up to its first await, at which the entry has been read. -/
def begin (s : Server Hash) (update : DirectoryUpdate) : Call Hash :=
  match p.validate update with
  | some errors => { update := update, stage := .done (.badRequest errors) }
  | none => { update := update, stage := .finding (lookup update.key s.store.map) }

def write (store : Store Hash) (update : DirectoryUpdate) (entry : DirectoryEntry Hash) : Store Hash × Call Hash :=
  ({ map := assign entry.key entry store.map
     registered :=
       if (lookup entry.key store.registered).isSome then store.registered
       else assign entry.key update.password store.registered
     writes := store.writes ++ [(entry.key, update.password)]
     completed := assign entry.key update store.completed },
    { update := update, stage := .done (.entryUpdated entry.key entry.publicIpAddress entry.privateIpAddress) })

def updateEntry (store : Store Hash) (update : DirectoryUpdate) (entry : DirectoryEntry Hash)
    (previous : Option (DirectoryEntry Hash)) : Store Hash × Call Hash :=
  if webhook then (store, { update := update, stage := .sending entry previous })
  else write store update entry

/-- Without a change of the addresses no request is sent after one that succeeded. -/
def sendWebhook (previous : Option (DirectoryEntry Hash)) (entry : DirectoryEntry Hash) (responded : Bool) : Bool :=
  match previous with
  | some before =>
    if before.webhookSucceeded = some true ∧ before.privateIpAddress = entry.privateIpAddress ∧
        before.publicIpAddress = entry.publicIpAddress then true
    else responded
  | none => responded

/-- `Date.now` counts milliseconds. -/
def unixTime (now : Int) : Int := now / 1000

def newEntry (update : DirectoryUpdate) (salt : JsString) (now : Int) : DirectoryEntry Hash :=
  { publicName := update.publicName
    key := update.key
    passwordHash := p.hashSync update.password salt
    privateIpAddress := update.privateIpAddress
    publicIpAddress := update.publicIpAddress
    lastUpdateTime := unixTime now
    webhookSucceeded := none }

def updatedEntry (update : DirectoryUpdate) (existing : DirectoryEntry Hash) (now : Int) : DirectoryEntry Hash :=
  { existing with
    privateIpAddress := update.privateIpAddress
    publicIpAddress := update.publicIpAddress
    publicName := update.publicName
    lastUpdateTime := unixTime now }

def resume (s : Server Hash) (call : Call Hash) (given : Given) : Option (Store Hash × Call Hash) :=
  match call.stage with
  | .finding none =>
    some (updateEntry webhook s.store call.update (newEntry p call.update given.salt s.now) none)
  | .finding (some existing) =>
    if p.compareSync call.update.password existing.passwordHash then
      some (updateEntry webhook s.store call.update (updatedEntry call.update existing s.now) (some existing))
    else some (s.store, { call with stage := .done .notAuthorized })
  | .sending entry previous =>
    some (write s.store call.update
      { entry with webhookSucceeded := some (sendWebhook previous entry given.responded) })
  | .done _ => none

abbrev step : Server Hash → Label DirectoryUpdate Given → Option (Server Hash) :=
  Handlers.step (begin p) (resume p webhook)

end Steps

def start {Hash : Type} : Server Hash := idle { map := [], registered := [], writes := [], completed := [] } 0

/-! ### Whose entry it is -/

section Owners

variable {Hash : Type} (p : Platform Hash) (webhook : Bool)

def shown (entry : DirectoryEntry Hash) : JsString × JsString × JsString :=
  (entry.publicName, entry.privateIpAddress, entry.publicIpAddress)

def asked (update : DirectoryUpdate) : JsString × JsString × JsString :=
  (update.publicName, update.privateIpAddress, update.publicIpAddress)

/-- Every stored hash is that of the password that the key was first stored with, every write presented
that password, and what is stored is what the last completed call asked for. -/
structure Owned (s : Server Hash) : Prop where
  hashes : ∀ key entry, lookup key s.store.map = some entry →
    ∃ password, lookup key s.store.registered = some password ∧ Valid p entry.passwordHash password
  writes : ∀ write ∈ s.store.writes, lookup write.1 s.store.registered = some write.2
  last : ∀ key, (lookup key s.store.map).map shown = (lookup key s.store.completed).map asked

/-- The call stores an entry for a key that it found none for. -/
def registers : Stage Hash → Bool
  | .finding none => !webhook
  | .sending _ none => true
  | _ => false

/-- A call that found no entry finds none when it stores its own, or one with its password. -/
def Allowed (s : Server Hash) : Label DirectoryUpdate Given → Prop
  | .resume i _ => ∀ call ∈ s.calls[i]?, registers webhook call.stage = true →
      ∀ entry ∈ lookup call.update.key s.store.map, p.compareSync call.update.password entry.passwordHash = true
  | _ => True

/-- Besides, entries stand under their keys, and what a call has found or is about to store belongs to the
password of its key. -/
structure Inv (s : Server Hash) : Prop extends Owned p s where
  keyed : ∀ key entry, lookup key s.store.map = some entry → entry.key = key
  known : ∀ key, lookup key s.store.registered = none ↔ lookup key s.store.map = none
  found : ∀ call ∈ s.calls, ∀ existing, call.stage = .finding (some existing) → existing.key = call.update.key ∧
    ∃ password, lookup call.update.key s.store.registered = some password ∧ Valid p existing.passwordHash password
  sent : ∀ call ∈ s.calls, ∀ entry previous, call.stage = .sending entry previous →
    entry.key = call.update.key ∧ shown entry = asked call.update ∧ Valid p entry.passwordHash call.update.password ∧
      (previous ≠ none → lookup call.update.key s.store.registered = some call.update.password)

instance (s : Server Hash) : (label : Label DirectoryUpdate Given) → Decidable (Allowed p webhook s label)
  | .call _ => .isTrue trivial
  | .pass _ => .isTrue trivial
  | .resume i _ => inferInstanceAs (Decidable
      (∀ call ∈ s.calls[i]?, registers webhook call.stage = true → ∀ entry ∈ lookup call.update.key s.store.map,
        p.compareSync call.update.password entry.passwordHash = true))

end Owners

section Writes

variable {Hash : Type} {p : Platform Hash} {webhook : Bool} {s : Server Hash} {update : DirectoryUpdate}
  {entry : DirectoryEntry Hash}

variable {calls : List (Call Hash)} {i : Nat}

theorem mem_set_cases {next other : Call Hash}
    (member : other ∈ calls.set i next) : other ∈ calls ∨ other = next := List.mem_or_eq_of_mem_set member

theorem lookup_registered (store : Store Hash) (key : JsString) : lookup key (write store update entry).1.registered =
    if key = entry.key then some ((lookup entry.key store.registered).getD update.password)
    else lookup key store.registered := by
  rw [write]
  cases known : lookup entry.key store.registered with
  | some password =>
    by_cases same : key = entry.key
    · simp [same, known]
    · simp [same]
  | none => simp [lookup_assign]

theorem inv_write (inv : Inv p s) (key : entry.key = update.key) (shows : shown entry = asked update)
    (valid : Valid p entry.passwordHash update.password)
    (own : ∀ password, lookup update.key s.store.registered = some password → password = update.password) :
    Inv p { s with
      store := (write s.store update entry).1
      calls := s.calls.set i (write s.store update entry).2 } := by
  have registered : ∀ other, lookup other (write s.store update entry).1.registered =
      if other = update.key then some update.password else lookup other s.store.registered := by
    intro other
    rw [lookup_registered, key]
    cases known : lookup update.key s.store.registered with
    | none => rfl
    | some password => rw [own password known, Option.getD_some]
  have map : ∀ other, lookup other (write s.store update entry).1.map =
      if other = update.key then some entry else lookup other s.store.map := by
    intro other
    rw [← key]
    exact lookup_assign entry.key other entry s.store.map
  have kept : ∀ other password, lookup other s.store.registered = some password →
      lookup other (write s.store update entry).1.registered = some password := by
    intro other password known
    rw [registered other]
    split
    · next same => rw [own password (same ▸ known)]
    · exact known
  refine { hashes := ?_, writes := ?_, last := ?_, keyed := ?_, known := ?_, found := ?_, sent := ?_ }
  · intro other stored isStored
    rw [map] at isStored
    split at isStored
    · next same =>
        cases isStored
        exact ⟨update.password, (registered other).trans (if_pos same), valid⟩
    · obtain ⟨password, known, isValid⟩ := inv.hashes other stored isStored
      exact ⟨password, kept other password known, isValid⟩
  · intro made member
    rcases List.mem_append.mp member with old | new
    · exact kept _ _ (inv.writes made old)
    · cases List.mem_singleton.mp new
      exact (registered entry.key).trans (if_pos key)
  · intro other
    have completed : lookup other (write s.store update entry).1.completed =
        if other = update.key then some update else lookup other s.store.completed := by
      rw [← key]
      exact lookup_assign entry.key other update s.store.completed
    rw [map, completed]
    split
    · exact congrArg some shows
    · exact inv.last other
  · intro other stored isStored
    rw [map] at isStored
    split at isStored
    · next same =>
        cases isStored
        exact key.trans same.symm
    · exact inv.keyed other stored isStored
  · intro other
    rw [registered, map]
    split
    · exact iff_of_false (Option.some_ne_none _) (Option.some_ne_none _)
    · exact inv.known other
  · intro call member existing isFinding
    rcases mem_set_cases member with old | new
    · obtain ⟨isKey, password, known, isValid⟩ := inv.found call old existing isFinding
      exact ⟨isKey, password, kept _ _ known, isValid⟩
    · rw [new] at isFinding
      cases isFinding
  · intro call member sending previous isSending
    rcases mem_set_cases member with old | new
    · obtain ⟨isKey, isShown, isValid, before⟩ := inv.sent call old sending previous isSending
      exact ⟨isKey, isShown, isValid, fun some => kept _ _ (before some)⟩
    · rw [new] at isSending
      cases isSending

theorem inv_calls (inv : Inv p s)
    (found : ∀ call ∈ calls, ∀ existing, call.stage = .finding (some existing) → existing.key = call.update.key ∧
      ∃ password, lookup call.update.key s.store.registered = some password ∧ Valid p existing.passwordHash password)
    (sent : ∀ call ∈ calls, ∀ entry previous, call.stage = .sending entry previous → entry.key = call.update.key ∧
      shown entry = asked call.update ∧ Valid p entry.passwordHash call.update.password ∧
        (previous ≠ none → lookup call.update.key s.store.registered = some call.update.password)) :
    Inv p { s with calls := calls } :=
  { hashes := inv.hashes, writes := inv.writes, last := inv.last, keyed := inv.keyed, known := inv.known, found, sent }

theorem inv_begun (inv : Inv p s) (update : DirectoryUpdate) :
    Inv p { s with calls := s.calls ++ [begin p s update] } := by
  refine inv_calls inv (fun call member existing isFinding => ?_) (fun call member entry previous isSending => ?_)
  · rcases List.mem_append.mp member with old | new
    · exact inv.found call old existing isFinding
    · have same := List.mem_singleton.mp new
      subst same
      cases invalid : p.validate update with
      | some errors =>
        simp only [begin, invalid] at isFinding
        cases isFinding
      | none =>
        simp only [begin, invalid, Stage.finding.injEq] at isFinding ⊢
        exact ⟨inv.keyed update.key existing isFinding, inv.hashes update.key existing isFinding⟩
  · rcases List.mem_append.mp member with old | new
    · exact inv.sent call old entry previous isSending
    · have same := List.mem_singleton.mp new
      subst same
      cases invalid : p.validate update with
      | some errors =>
        simp only [begin, invalid] at isSending
        cases isSending
      | none =>
        simp only [begin, invalid] at isSending
        cases isSending

theorem inv_done (inv : Inv p s) {result : DirectoryResult} :
    Inv p { s with calls := s.calls.set i { update := update, stage := .done result } } := by
  refine inv_calls inv (fun other member existing isFinding => ?_) (fun other member entry previous isSending => ?_)
  · rcases mem_set_cases member with old | new
    · exact inv.found other old existing isFinding
    · rw [new] at isFinding
      cases isFinding
  · rcases mem_set_cases member with old | new
    · exact inv.sent other old entry previous isSending
    · rw [new] at isSending
      cases isSending

theorem inv_updateEntry (inv : Inv p s) {previous : Option (DirectoryEntry Hash)}
    (key : entry.key = update.key) (shows : shown entry = asked update)
    (valid : Valid p entry.passwordHash update.password)
    (authorized : previous ≠ none → lookup update.key s.store.registered = some update.password)
    (own : webhook = false → ∀ password, lookup update.key s.store.registered = some password →
      password = update.password) :
    Inv p { s with
      store := (updateEntry webhook s.store update entry previous).1
      calls := s.calls.set i (updateEntry webhook s.store update entry previous).2 } := by
  cases webhook with
  | false => exact inv_write inv key shows valid (own rfl)
  | true =>
    refine inv_calls inv (fun call member existing isFinding => ?_) (fun call member sending before isSending => ?_)
    · rcases mem_set_cases member with old | new
      · exact inv.found call old existing isFinding
      · rw [new] at isFinding
        cases isFinding
    · rcases mem_set_cases member with old | new
      · exact inv.sent call old sending before isSending
      · rw [new] at isSending ⊢
        cases isSending
        exact ⟨key, shows, valid, authorized⟩

theorem own_of_stored (inv : Inv p s)
    (stored : ∀ entry ∈ lookup update.key s.store.map, p.compareSync update.password entry.passwordHash = true)
    (password : JsString) (known : lookup update.key s.store.registered = some password) :
    password = update.password := by
  cases found : lookup update.key s.store.map with
  | none => cases known.symm.trans ((inv.known update.key).mpr found)
  | some entry =>
    obtain ⟨other, isOther, valid⟩ := inv.hashes update.key entry found
    cases known.symm.trans isOther
    exact ((valid update.password).mp (stored entry found)).symm

theorem inv_resumed (ideal : Ideal p) (inv : Inv p s) {given : Given} {call : Call Hash}
    {made : Store Hash × Call Hash} (here : s.calls[i]? = some call) (allowed : Allowed p webhook s (.resume i given))
    (ran : resume p webhook s call given = some made) :
    Inv p { s with store := made.1, calls := s.calls.set i made.2 } := by
  have member : call ∈ s.calls := List.mem_of_getElem? here
  obtain ⟨update, stage⟩ := call
  cases stage with
  | done result => cases ran
  | finding existing =>
    cases existing with
    | none =>
      cases ran
      refine inv_updateEntry inv rfl rfl (ideal _ _) (fun impossible => absurd rfl impossible) fun unhooked => ?_
      have registers : registers webhook (.finding none : Stage Hash) = true := by rw [unhooked]; rfl
      exact own_of_stored inv (allowed _ here registers)
    | some existing =>
      obtain ⟨key, password, known, valid⟩ := inv.found _ member existing rfl
      rw [resume] at ran
      simp only at ran
      split at ran
      · next matched =>
          cases ran
          have same : update.password = password := (valid update.password).mp matched
          refine inv_updateEntry inv key rfl (same ▸ valid) (fun _ => same ▸ known) fun _ other isOther => ?_
          cases known.symm.trans isOther
          exact same.symm
      · cases ran
        exact inv_done inv
  | sending entry previous =>
    obtain ⟨key, shows, valid, authorized⟩ := inv.sent _ member entry previous rfl
    cases ran
    refine inv_write inv key shows valid ?_
    cases previous with
    | none => exact own_of_stored inv (allowed _ here rfl)
    | some before =>
      intro password known
      cases known.symm.trans (authorized (Option.some_ne_none before))
      rfl

/-- A registration that keeps the owners finds the entry of its own password, or none. -/
theorem needed (inv : Inv p s) {entry : DirectoryEntry Hash} (key : entry.key = update.key)
    (kept : Owned p { s with store := (write s.store update entry).1, calls := calls })
    (stored : DirectoryEntry Hash) (found : lookup update.key s.store.map = some stored) :
    p.compareSync update.password stored.passwordHash = true := by
  obtain ⟨password, known, valid⟩ := inv.hashes update.key stored found
  have written : lookup entry.key (write s.store update entry).1.registered = some update.password :=
    kept.writes (entry.key, update.password) (List.mem_append_right _ List.mem_cons_self)
  rw [lookup_registered, if_pos rfl, key, known] at written
  cases written
  exact (valid update.password).mpr rfl

end Writes

/-- Exactly in the runs in which no call that found no entry for its key stores one over that of another
password, every entry stays with the password that it was first stored with, every change presented it,
and what is stored is what the last completed call asked for. -/
theorem entries_owned {Hash : Type} (p : Platform Hash) (ideal : Ideal p) (webhook : Bool)
    (labels : List (Label DirectoryUpdate Given)) :
    Throughout (step p webhook) (Owned p) start labels ↔ AllAllowed (step p webhook) (Allowed p webhook) start labels := by
  refine throughout_iff (fun state (inv : Inv p state) => inv.toOwned) (fun state label next inv allowed ran => ?_)
    (fun state label inv kept => ?_) start ?_ labels
  · cases label with
    | call update =>
      cases ran
      exact inv_begun inv update
    | pass later =>
      obtain ⟨_, same⟩ := step_pass ran
      subst same
      exact { inv with }
    | resume i given =>
      obtain ⟨call, made, here, resumed, same⟩ := step_resume ran
      subst same
      exact inv_resumed ideal inv here allowed resumed
  · cases label with
    | call update => trivial
    | pass later => trivial
    | resume i given =>
      intro call here registering stored found
      have isCall : state.calls[i]? = some call := here
      obtain ⟨update, stage⟩ := call
      have goes : ∀ made, resume p webhook state ⟨update, stage⟩ given = some made →
          Owned p { state with store := made.1, calls := state.calls.set i made.2 } := by
        intro made resumed
        apply kept
        simp only [step, Handlers.step, isCall, resumed, Option.map_some]
      cases stage with
      | done result => cases registering
      | finding existing =>
        cases existing with
        | some existing => cases registering
        | none =>
          have unhooked : webhook = false := by simpa [registers] using registering
          subst unhooked
          exact needed inv rfl (goes _ rfl) stored found
      | sending entry previous =>
        cases previous with
        | some before => cases registering
        | none =>
          obtain ⟨key, _⟩ := inv.sent _ (List.mem_of_getElem? isCall) entry none rfl
          refine needed inv ?_ (goes _ rfl) stored found
          exact key
  · refine { hashes := ?_, writes := ?_, last := ?_, keyed := ?_, known := ?_, found := ?_, sent := ?_ }
    · exact fun key entry stored => by cases stored
    · exact fun made member => by cases member
    · exact fun key => rfl
    · exact fun key entry stored => by cases stored
    · exact fun key => iff_of_true rfl rfl
    · exact fun call member => by cases member
    · exact fun call member => by cases member

section Devices

def plain : Platform (JsString × JsString) where
  validate update := if update.key = [] then some [{ path := [[107, 101, 121]], message := [] }] else none
  hashSync password salt := (password, salt)
  compareSync password passwordHash := password = passwordHash.1

theorem plain_ideal : Ideal plain := by
  intro password salt other
  exact decide_eq_true_iff

def update (password address : JsString) : DirectoryUpdate :=
  { publicName := [110], key := [107], password := password, privateIpAddress := address, publicIpAddress := address }

def given : Given := { salt := [115], responded := true }

/-- A device registers and updates its entry while another one presents a wrong password. -/
theorem registered_owned : Throughout (step plain true) (Owned plain) start
    [.call (update [112] [49]), .resume 0 given, .resume 0 given, .call (update [112] [50]), .call (update [113] [51]),
      .resume 1 given, .resume 2 given, .resume 1 given] :=
  (entries_owned plain plain_ideal true _).mpr (by decide)

/-- Two devices register one key at the same time, and the second one takes the entry of the first. -/
theorem registration_overtaken : ¬ Throughout (step plain false) (Owned plain) start
    [.call (update [112] [49]), .call (update [113] [50]), .resume 0 given, .resume 1 given] := by
  intro all
  have presented := (all.last _ rfl).writes ([107], [113]) (by decide)
  revert presented
  decide

end Devices

end CasualOS.Directory
