import CasualOS.LoginCodes
import CasualOS.SessionLineage

/-! Sessions that are validated, revoked and replaced at the same time. -/

namespace CasualOS.Sessions

open Run Handlers AuthController SessionLineage
open LoginCodes (account issuedStore withCode)
open Option (some map_eq_some_iff)
open KeyCreation (pairing)
open MemoryAuthStore (findSession_member findUser_member)

inductive Request where
  | completeLogin (request : CompleteLoginRequest)
  | validateSessionKey (key : JsString)
  | revokeSession (request : RevokeSessionRequest)
  | revokeAllSessions (request : RevokeAllSessionsRequest)
  | replaceSession (request : ReplaceSessionRequest)
  deriving DecidableEq, Repr

inductive Handler where
  | completeLogin (request : CompleteLoginRequest) (stage : CompleteLogin.Stage)
  | validateSessionKey (stage : ValidateSessionKey.Stage)
  | revokeSession (request : RevokeSessionRequest) (stage : Guarded RevokeSession.Stage)
  | revokeAllSessions (request : RevokeAllSessionsRequest) (stage : Guarded (RevokeAllSessions.Stage AuthUser))
  | replaceSession (request : ReplaceSessionRequest) (stage : Guarded ReplaceSession.Stage)
  deriving DecidableEq, Repr

namespace Handler

def validation : Handler → Option ValidateSessionKey.Stage
  | validateSessionKey validation => some validation
  | revokeSession _ (.validating validation) => some validation
  | revokeAllSessions _ (.validating validation) => some validation
  | replaceSession _ (.validating validation) => some validation
  | _ => none

def accepts (handler : Handler) : Option (JsString × JsString) :=
  match handler.validation with
  | some (.accepted userId sessionId _) => some (userId, sessionId)
  | _ => none

/-- What the handler has revoked, when `existed` were the sessions at its end. -/
def revocation (existed : List AuthSession) : Handler → Option Revocation
  | revokeSession request (.entered .succeeded) => some (.session request.userId request.sessionId)
  | revokeAllSessions request (.entered .succeeded) => some (.allSessions request.userId existed)
  | _ => none

def pending : Handler → Option AuthSession
  | completeLogin _ (.marking session _) => some session
  | replaceSession _ (.entered (.findingSession newSession _ _)) => some newSession
  | replaceSession _ (.entered (.savingOld newSession _)) => some newSession
  | _ => none

def replacing : Handler → Option AuthSession
  | replaceSession _ (.entered (.savingOld newSession _)) => some newSession
  | replaceSession _ (.entered (.savingNew newSession _)) => some newSession
  | replaceSession _ (.entered (.succeeded newSession _)) => some newSession
  | _ => none

def replaced : Handler → Option AuthSession
  | replaceSession _ (.entered (.savingNew newSession _)) => some newSession
  | replaceSession _ (.entered (.succeeded newSession _)) => some newSession
  | _ => none

theorem replacing_of_replaced {handler : Handler} {session : AuthSession}
    (there : handler.replaced = some session) : handler.replacing = some session := by
  unfold replaced at there
  split at there
  · exact there
  · exact there
  · cases there

end Handler

/-- A call and its history: what had been revoked when it began, whose key it was accepted for, and which
sessions were stored when it last went on. -/
structure Call where
  handler : Handler
  revoked : List Revocation
  accepted : Option (JsString × JsString)
  existed : List AuthSession
  deriving DecidableEq, Repr

def Call.revocation (call : Call) : Option Revocation := call.handler.revocation call.existed

abbrev Server := State MemoryAuthStore Call

section Steps

variable (p : Platform)

def beginHandler (s : MemoryAuthStore) : Request → Handler
  | .completeLogin request => .completeLogin request (beginCompleteLogin s request)
  | .validateSessionKey key => .validateSessionKey (beginValidateSessionKey p s key)
  | .revokeSession request => .revokeSession request (beginRevokeSession p s request)
  | .revokeAllSessions request => .revokeAllSessions request (beginRevokeAllSessions p s request)
  | .replaceSession request => .replaceSession request (beginReplaceSession p s request)

def begin (s : Server) (request : Request) : Call where
  handler := beginHandler p s.store request
  revoked := s.calls.filterMap Call.revocation
  accepted := none
  existed := []

def saveRevokeTime (s : MemoryAuthStore) (user : AuthUser) (time : Int) : MemoryAuthStore :=
  s.saveUser { user with allSessionRevokeTimeMs := some time }

def resumeHandler (s : MemoryAuthStore) (now : Int) (bytes : SessionBytes) :
    Handler → Option (MemoryAuthStore × Handler)
  | .completeLogin request stage =>
    (resumeCompleteLogin p s now request bytes stage).map
      (fun next => (next.1, .completeLogin request next.2))
  | .validateSessionKey stage =>
    (resumeValidateSessionKey p s now stage).map (fun next => (s, .validateSessionKey next))
  | .revokeSession request stage =>
    (resumeRevokeSession p s now request stage).map (fun next => (next.1, .revokeSession request next.2))
  | .revokeAllSessions request stage =>
    (resumeRevokeAllSessions p s now request s.findUser s (saveRevokeTime s) stage).map
      (fun next => (next.1, .revokeAllSessions request next.2))
  | .replaceSession request stage =>
    (resumeReplaceSession p s now request bytes stage).map
      (fun next => (next.1, .replaceSession request next.2))

def Call.goesOn (call : Call) (next : MemoryAuthStore × Handler) : Call :=
  { call with
    handler := next.2
    accepted := call.accepted.or next.2.accepts
    existed := next.1.sessions }

def resume (s : Server) (call : Call) (bytes : SessionBytes) : Option (MemoryAuthStore × Call) :=
  (resumeHandler p s.store s.now bytes call.handler).map (fun next => (next.1, call.goesOn next))

abbrev step : Server → Label Request SessionBytes → Option Server := Handlers.step (begin p) (resume p)

end Steps

/-! ### What is asked -/

/-- No key is accepted that was revoked before, and no session is replaced twice. -/
structure Final (s : Server) : Prop where
  refused : ∀ call ∈ s.calls, ∀ revocation ∈ call.revoked, ∀ userId sessionId,
    call.accepted = some (userId, sessionId) → ¬ revocation.Forbids s.store.sessions userId sessionId
  replacedOnce : ∀ first ∈ s.store.sessions, ∀ second ∈ s.store.sessions, first.userId = second.userId →
    first.previousSessionId = second.previousSessionId → first.previousSessionId ≠ none →
    first.sessionId = second.sessionId

/-- The random id belongs to no session, saved or not. -/
def Unused (s : Server) (sessionId : JsString) : Prop :=
  (∀ session ∈ s.store.sessions, session.sessionId ≠ sessionId) ∧
    ∀ call ∈ s.calls, ∀ session, call.handler.pending = some session → session.sessionId ≠ sessionId

/-- No other handler is past this point with a session in the same place. -/
def Alone (s : Server) (i : Nat) (newSession : AuthSession) : Prop :=
  ∀ j other session, s.calls[j]? = some other → j ≠ i → other.handler.replacing = some session →
    session.userId = newSession.userId → session.previousSessionId ≠ newSession.previousSessionId

/-- What a handler must find when it goes on. -/
def Orderly (s : Server) (i : Nat) (bytes : SessionBytes) : Handler → Prop
  | .completeLogin _ (.findingUser _ _) => Unused s bytes.sessionId
  | .replaceSession _ (.validating (.accepted _ _ _)) => Unused s bytes.sessionId
  | .replaceSession _ (.entered (.findingSession newSession _ (some _))) => Alone s i newSession
  | .replaceSession _ (.entered (.savingOld newSession _)) =>
    ∀ user session previous, s.store.findUser newSession.userId = some user →
      newSession.previousSessionId = some previous →
      s.store.findSession newSession.userId previous = some session →
      revokesGranted user session = true → revokesGranted user newSession = true
  | .revokeAllSessions request (.entered (.findingUser time (some _))) =>
    ∀ user, s.store.findUser request.userId = some user → ∀ session ∈ s.store.sessions,
      session.userId = request.userId → revokesGranted user session = true → session.grantedTimeMs ≤ time
  | .revokeAllSessions request (.entered .saving) =>
    ∀ user, s.store.findUser request.userId = some user → ∀ session ∈ s.store.sessions,
      session.userId = request.userId → revokesGranted user session = true
  | _ => True

def Allowed (s : Server) : Label Request SessionBytes → Prop
  | .resume i bytes => ∀ call, s.calls[i]? = some call → Orderly s i bytes call.handler
  | _ => True

/-! ### What holds of a call -/

/-- A session that was read, which may be saved again since. -/
def Read (s : MemoryAuthStore) (userId sessionId : JsString) (session : AuthSession) : Prop :=
  ∃ stored, s.findSession userId sessionId = some stored ∧ session.issued = stored.issued

/-- A session that can be added. -/
structure Pending (s : MemoryAuthStore) (session : AuthSession) : Prop where
  unused : ∀ stored ∈ s.sessions, stored.sessionId ≠ session.sessionId
  linked : ∀ previous, session.previousSessionId = some previous →
    (s.findSession session.userId previous).isSome = true

/-- What is known of the session and the user that a validation has read. -/
def Validating (s : MemoryAuthStore) (now : Int) (revoked : List Revocation) :
    ValidateSessionKey.Stage → Prop
  | .findingSession key found =>
    ∀ session, found = some session → Read s key.userId key.sessionId session ∧
      ∀ revocation ∈ revoked, revocation.Forbids s.sessions key.userId key.sessionId →
        isRevoked now session = true ∨ Covered s session
  | .findingUser session found =>
    Read s session.userId session.sessionId session ∧
      ∀ revocation ∈ revoked, revocation.Forbids s.sessions session.userId session.sessionId →
        ∀ user, found = some user → revokesGranted user session = true
  | .accepted userId sessionId _ =>
    (s.findSession userId sessionId).isSome = true ∧
      ∀ revocation ∈ revoked, ¬ revocation.Forbids s.sessions userId sessionId
  | .refused _ _ => True

/-- What is known of the data that a handler holds. -/
def Held (s : MemoryAuthStore) (now : Int) : Handler → Prop
  | .completeLogin _ (.marking session _) => session.previousSessionId = none
  | .revokeSession request (.entered (.findingSession (some session))) =>
    Read s request.userId request.sessionId session
  | .revokeSession request (.entered .saving) => Effective s now (.session request.userId request.sessionId)
  | .revokeAllSessions request (.entered (.findingUser _ (some user))) =>
    user.id = request.userId ∧ (s.findUser request.userId).isSome = true
  | .replaceSession _ (.entered (.findingSession newSession _ found)) =>
    0 < newSession.grantedTimeMs ∧ newSession.grantedTimeMs ≤ now ∧ ∀ session, found = some session →
      ∃ previous, newSession.previousSessionId = some previous ∧ Read s newSession.userId previous session
  | _ => True

structure Good (s : MemoryAuthStore) (now : Int) (call : Call) : Prop where
  pending : ∀ session, call.handler.pending = some session → Pending s session
  held : Held s now call.handler
  revoked : ∀ revocation ∈ call.revoked, Effective s now revocation
  revocation : ∀ revocation, call.revocation = some revocation → Effective s now revocation
  validating : ∀ validation, call.handler.validation = some validation →
    Validating s now call.revoked validation
  accepted : ∀ userId sessionId, call.accepted = some (userId, sessionId) →
    (s.findSession userId sessionId).isSome = true ∧
      ∀ revocation ∈ call.revoked, ¬ revocation.Forbids s.sessions userId sessionId

/-! ### What holds of a call keeps holding -/

section Keeping

variable {now : Int} {s after : MemoryAuthStore} {added : Option AuthSession}

variable {userId sessionId : JsString} {session : AuthSession}

theorem Read.ids (read : Read s userId sessionId session) :
    session.userId = userId ∧ session.sessionId = sessionId := by
  have ⟨stored, found, same⟩ := read
  have ⟨_, users, ids⟩ := findSession_member found
  have ⟨sameUser, sameId, _⟩ := issued_fields same
  exact ⟨sameUser.trans users, sameId.trans ids⟩

theorem Read.later (later : Later now s after added)
    (read : Read s userId sessionId session) : Read after userId sessionId session := by
  have ⟨stored, found, same⟩ := read
  have ⟨kept, there, keptSame, _⟩ := later.found userId sessionId stored found
  exact ⟨kept, there, same.trans keptSame.symm⟩

theorem Read.isSome (read : Read s userId sessionId session) : (s.findSession userId sessionId).isSome = true := by
  have ⟨stored, found, _⟩ := read
  rw [found]
  rfl

theorem Read.covered_later (later : Later now s after added)
    (read : Read s userId sessionId session) (covered : Covered s session) : Covered after session := by
  have ⟨stored, found, same⟩ := read
  have member := (findSession_member found).1
  exact (later.covered stored member (covered.of_issued same)).of_issued same.symm

theorem Validating.later (later : Later now s after added) (rooted : Rooted s) {revoked : List Revocation}
    {validation : ValidateSessionKey.Stage} (validating : Validating s now revoked validation) :
    Validating after now revoked validation := by
  cases validation with
  | findingSession key found =>
    intro session there
    have ⟨read, refused⟩ := validating session there
    refine ⟨read.later later, fun revocation member forbids => ?_⟩
    have past := later.forbids rooted forbids read.isSome
    exact (refused revocation member past).imp_right (read.covered_later later)
  | findingUser session found =>
    have ⟨read, refused⟩ := validating
    refine ⟨read.later later, fun revocation member forbids => ?_⟩
    exact refused revocation member (later.forbids rooted forbids read.isSome)
  | accepted userId sessionId time =>
    have ⟨stored, allowed⟩ := validating
    exact ⟨later.isSome stored,
      fun revocation member forbids => allowed revocation member (later.forbids rooted forbids stored)⟩
  | refused failure banReason => trivial

theorem Validating.pass {later : Int} (past : now ≤ later) {revoked : List Revocation}
    {validation : ValidateSessionKey.Stage} (validating : Validating s now revoked validation) :
    Validating s later revoked validation := by
  cases validation with
  | findingSession key found =>
    intro session there
    have ⟨read, refused⟩ := validating session there
    exact ⟨read, fun revocation member forbids =>
      (refused revocation member forbids).imp_left (isRevoked_later past)⟩
  | findingUser session found => exact validating
  | accepted userId sessionId time => exact validating
  | refused failure banReason => trivial

theorem Pending.later (later : Later now s after added) (pending : Pending s session)
    (apart : ∀ new, added = some new → new.sessionId ≠ session.sessionId) : Pending after session where
  unused stored member := by
    rcases later.members stored member with new | ⟨old, there, same⟩
    · exact apart stored new
    · rw [(issued_fields same).2.1]
      exact pending.unused old there
  linked previous link := later.isSome (pending.linked previous link)

theorem Held.imp {later : Int} (past : now ≤ later)
    (reads : ∀ userId sessionId session, Read s userId sessionId session → Read after userId sessionId session)
    (holds : ∀ revocation, Effective s now revocation → Effective after later revocation)
    (users : ∀ userId, (s.findUser userId).isSome = true → (after.findUser userId).isSome = true)
    {handler : Handler} (held : Held s now handler) : Held after later handler := by
  cases handler with
  | completeLogin request stage => cases stage <;> exact held
  | validateSessionKey stage => trivial
  | revokeSession request stage =>
    cases stage with
    | validating validation => trivial
    | failed failure banReason => trivial
    | entered stage =>
      cases stage with
      | findingSession found =>
        cases found with
        | none => trivial
        | some session => exact reads _ _ _ held
      | saving => exact holds (.session request.userId request.sessionId) held
      | succeeded => trivial
  | revokeAllSessions request stage =>
    cases stage with
    | validating validation => trivial
    | failed failure banReason => trivial
    | entered stage =>
      cases stage with
      | findingUser time found =>
        cases found with
        | none => trivial
        | some user => exact ⟨held.1, users _ held.2⟩
      | saving => trivial
      | succeeded => trivial
  | replaceSession request stage =>
    cases stage with
    | validating validation => trivial
    | failed failure banReason => trivial
    | entered stage =>
      cases stage with
      | findingSession newSession secret found =>
        have ⟨positive, before, read⟩ := held
        refine ⟨positive, le_trans before past, fun session there => ?_⟩
        have ⟨previous, link, isRead⟩ := read session there
        exact ⟨previous, link, reads _ _ _ isRead⟩
      | savingOld newSession secret => trivial
      | savingNew newSession secret => trivial
      | succeeded newSession secret => trivial

theorem Good.later (later : Later now s after added) (rooted : Rooted s) (inherits : Inherits s after added)
    {call : Call} (good : Good s now call)
    (apart : ∀ new session, added = some new → call.handler.pending = some session →
      new.sessionId ≠ session.sessionId) : Good after now call where
  pending session there := (good.pending session there).later later (fun new isNew => apart new session isNew there)
  held := good.held.imp (le_refl now) (fun _ _ _ read => read.later later)
    (fun _ effective => effective.later later rooted inherits) later.users
  revoked revocation member := (good.revoked revocation member).later later rooted inherits
  revocation revocation made := (good.revocation revocation made).later later rooted inherits
  validating validation there := (good.validating validation there).later later rooted
  accepted userId sessionId there := by
    have ⟨stored, allowed⟩ := good.accepted userId sessionId there
    exact ⟨later.isSome stored,
      fun revocation member forbids => allowed revocation member (later.forbids rooted forbids stored)⟩

theorem Good.pass {later : Int} (past : now ≤ later) {call : Call} (good : Good s now call) : Good s later call where
  pending := good.pending
  held := good.held.imp past (fun _ _ _ read => read) (fun _ effective => effective.pass past)
    (fun _ known => known)
  revoked revocation member := (good.revoked revocation member).pass past
  revocation revocation made := (good.revocation revocation made).pass past
  validating validation there := (good.validating validation there).pass past
  accepted := good.accepted

end Keeping

/-! ### A validation that goes on -/

section Validation

variable {p : Platform} {now : Int} {s : MemoryAuthStore} {revoked : List Revocation}

theorem Validating.begin (effective : ∀ revocation ∈ revoked, Effective s now revocation) (key : JsString) :
    Validating s now revoked (beginValidateSessionKey p s key) := by
  rcases beginValidateSessionKey_cases (p := p) (s := s) key with ⟨_, _, begun⟩ | ⟨keyValues, begun⟩
  · rw [begun]
    trivial
  · rw [begun]
    intro session found
    exact ⟨⟨session, found, rfl⟩,
      fun revocation member forbids => (effective revocation member).refuses forbids found⟩

theorem Validating.resume {validation next : ValidateSessionKey.Stage}
    (validating : Validating s now revoked validation)
    (ran : resumeValidateSessionKey p s now validation = some next) : Validating s now revoked next := by
  cases validation with
  | findingSession key found =>
    cases found with
    | none =>
      rw [← some.inj ran]
      trivial
    | some session =>
      rw [← some.inj ran]
      have ⟨read, refused⟩ := validating session rfl
      have ⟨users, ids⟩ := read.ids
      rcases @checkSession_cases p s now key session with
        ⟨_, _, checked⟩ | ⟨notRevoked, checked⟩
      · rw [checked]
        trivial
      · rw [checked]
        refine ⟨by rwa [users, ids], fun revocation member forbids user found => ?_⟩
        rw [users, ids] at forbids
        rcases refused revocation member forbids with isRevoked | covered
        · rw [notRevoked] at isRevoked
          cases isRevoked
        · exact covered user (users ▸ found)
  | findingUser session found =>
    cases found with
    | none =>
      rw [← some.inj ran]
      trivial
    | some user =>
      rw [← some.inj ran]
      have ⟨read, refused⟩ := validating
      rcases checkUser_cases session user with ⟨_, _, checked⟩ | ⟨notRevoked, checked⟩
      · rw [checked]
        trivial
      · rw [checked]
        refine ⟨read.isSome, fun revocation member forbids => ?_⟩
        have covered := refused revocation member forbids user rfl
        rw [notRevoked] at covered
        cases covered
  | accepted userId sessionId time => cases ran
  | refused failure banReason => cases ran

end Validation

/-! ### What a handler does as it goes on -/

/-- What the state before, the call and the added session have to do with what comes of them. -/
structure Follows (s : Server) (i : Nat) (call : Call) (made : MemoryAuthStore × Handler)
    (added : Option AuthSession) : Prop where
  later : Later s.now s.store made.1 added
  inherits : Inherits s.store made.1 added
  pending : ∀ session, made.2.pending = some session →
    added = none ∧ (call.handler.pending = some session ∨
      Unused s session.sessionId ∧ Pending made.1 session)
  saved : ∀ session, added = some session → call.handler.pending = some session
  kept : ∀ session, added = some session → session.previousSessionId ≠ none →
    made.2.replaced = some session
  held : Held made.1 s.now made.2
  revocation : ∀ revocation, made.2.revocation made.1.sessions = some revocation →
    Effective made.1 s.now revocation
  validating : ∀ validation, made.2.validation = some validation →
    Validating made.1 s.now call.revoked validation
  replacing : ∀ session, made.2.replacing = some session →
    call.handler.replacing = some session ∨ Alone s i session
  replaced : ∀ session, call.handler.replaced = some session → made.2.replaced = some session

/-- The handler has no session to save and replaces none. -/
structure Bare (handler : Handler) : Prop where
  pending : handler.pending = none
  replacing : handler.replacing = none

section Going

variable {p : Platform} {s : Server} {i : Nat} {call : Call} {bytes : SessionBytes}

theorem Follows.bare {made : MemoryAuthStore × Handler} (later : Later s.now s.store made.1 none)
    (bare : Bare made.2) (held : Held made.1 s.now made.2)
    (revocation : ∀ revocation, made.2.revocation made.1.sessions = some revocation →
      Effective made.1 s.now revocation)
    (validating : ∀ validation, made.2.validation = some validation →
      Validating made.1 s.now call.revoked validation)
    (before : call.handler.replaced = none) : Follows s i call made none where
  later := later
  inherits := .nothing
  pending session there := by
    rw [bare.pending] at there
    cases there
  saved session new := by cases new
  kept session new := by cases new
  held := held
  revocation := revocation
  validating := validating
  replacing session there := by
    rw [bare.replacing] at there
    cases there
  replaced session there := by
    rw [before] at there
    cases there

theorem Follows.quiet {made : MemoryAuthStore × Handler} (sessions : made.1.sessions = s.store.sessions)
    (users : made.1.users = s.store.users) (bare : Bare made.2) (held : Held made.1 s.now made.2)
    (revocation : made.2.revocation made.1.sessions = none) (validation : made.2.validation = none)
    (before : call.handler.replaced = none) : Follows s i call made none := by
  refine .bare (.unchanged sessions users) bare held (fun _ there => ?_) (fun _ there => ?_) before
  · rw [revocation] at there
    cases there
  · rw [validation] at there
    cases there

theorem Follows.validate {handler : Handler} {stage next : ValidateSessionKey.Stage}
    (good : Good s.store s.now call) (before : call.handler.validation = some stage)
    (ran : resumeValidateSessionKey p s.store s.now stage = some next) (bare : Bare handler)
    (held : Held s.store s.now handler) (revocation : handler.revocation s.store.sessions = none)
    (after : handler.validation = some next) (unreplaced : call.handler.replaced = none) :
    Follows s i call (s.store, handler) none := by
  refine .bare (.unchanged rfl rfl) bare held (fun _ there => ?_) (fun _ there => ?_) unreplaced
  · rw [revocation] at there
    cases there
  · rw [← some.inj (after.symm.trans there)]
    exact (good.validating stage before).resume ran

theorem findingUser_resumed {store : MemoryAuthStore} {now : Int} {request : CompleteLoginRequest}
    {index : Nat} {found : Option AuthUser} {next : MemoryAuthStore × CompleteLogin.Stage}
    (ran : resumeCompleteLogin p store now request bytes (.findingUser index found) = some next) :
    next.1.sessions = store.sessions ∧ next.1.users = store.users ∧
      ((∃ failure, next.2 = .failed failure) ∨ ∃ loginRequest secretHash,
        next.2 = .marking (loginSession now request loginRequest bytes secretHash) bytes.sessionSecret) := by
  have ⟨loginRequest, _, made⟩ := map_eq_some_iff.mp ran
  rw [← made]
  unfold completeLoginRequest
  split
  · exact ⟨rfl, rfl, .inl ⟨_, rfl⟩⟩
  · split
    · exact ⟨rfl, rfl, .inl ⟨_, rfl⟩⟩
    · split
      · exact ⟨rfl, rfl, .inl ⟨_, rfl⟩⟩
      · split
        · exact ⟨rfl, rfl, .inl ⟨_, rfl⟩⟩
        · rename_i mark
          exact ⟨MemoryAuthStore.sessions_mark mark, MemoryAuthStore.users_mark mark, .inr ⟨loginRequest, _, rfl⟩⟩

theorem Follows.completeLogin {request : CompleteLoginRequest} {stage : CompleteLogin.Stage}
    {next : MemoryAuthStore × CompleteLogin.Stage} (good : Good s.store s.now call)
    (here : call.handler = .completeLogin request stage) (orderly : Orderly s i bytes call.handler)
    (ran : resumeCompleteLogin p s.store s.now request bytes stage = some next) :
    ∃ added, Follows s i call (next.1, .completeLogin request next.2) added := by
  have before : call.handler.replaced = none := by
    rw [here]
    rfl
  have resting : ∀ stage, (∀ session sessionSecret, stage ≠ .marking session sessionSecret) →
      Bare (.completeLogin request stage) := by
    intro stage differ
    refine ⟨?_, rfl⟩
    cases stage with
    | marking session sessionSecret => exact absurd rfl (differ session sessionSecret)
    | findingRequest found => rfl
    | counting => rfl
    | findingUser index found => rfl
    | saving session sessionSecret => rfl
    | succeeded session sessionSecret => rfl
    | failed failure => rfl
  cases stage with
  | findingRequest found =>
    cases found with
    | none =>
      rw [← some.inj ran]
      exact ⟨none, .quiet rfl rfl (resting _ (fun _ _ same => by cases same)) trivial rfl rfl before⟩
    | some index =>
      have ⟨loginRequest, _, made⟩ := map_eq_some_iff.mp ran
      rw [← made]
      unfold checkLoginRequest
      split
      · exact ⟨none, .quiet rfl rfl (resting _ (fun _ _ same => by cases same)) trivial rfl rfl before⟩
      · split
        · exact ⟨none, .quiet rfl rfl (resting _ (fun _ _ same => by cases same)) trivial rfl rfl before⟩
        · exact ⟨none, .quiet (MemoryAuthStore.sessions_increment _ _)
            (MemoryAuthStore.users_increment _ _) (resting _ (fun _ _ same => by cases same))
            trivial rfl rfl before⟩
  | counting =>
    rw [← some.inj ran]
    exact ⟨none, .quiet rfl rfl (resting _ (fun _ _ same => by cases same)) trivial rfl rfl before⟩
  | findingUser index found =>
    have ⟨sessions, users, rest⟩ := findingUser_resumed ran
    rcases rest with ⟨failure, same⟩ | ⟨loginRequest, secretHash, same⟩
    · rw [same]
      exact ⟨none, .quiet sessions users (resting _ (fun _ _ same => by cases same)) trivial rfl rfl before⟩
    · rw [here] at orderly
      have unused : Unused s bytes.sessionId := orderly
      rw [same]
      refine ⟨none, ?_⟩
      exact
        { later := .unchanged sessions users
          inherits := .nothing
          pending := fun session there => by
            rw [← some.inj there]
            exact ⟨rfl, .inr ⟨unused,
              { unused := fun stored member => unused.1 stored (sessions ▸ member)
                linked := fun previous link => by cases link }⟩⟩
          saved := fun session new => by cases new
          kept := fun session new => by cases new
          held := rfl
          revocation := fun revocation there => by cases there
          validating := fun validation there => by cases there
          replacing := fun session there => by cases there
          replaced := fun session there => by
            rw [before] at there
            cases there }
  | marking session sessionSecret =>
    rw [← some.inj ran]
    have waits : call.handler.pending = some session := by
      rw [here]
      rfl
    have unused := (good.pending session waits).unused
    have held := good.held
    rw [here] at held
    have first : session.previousSessionId = none := held
    refine ⟨some session, ?_⟩
    exact
      { later := .add unused
        inherits := fun other new previous link => by
          rw [← some.inj new, first] at link
          cases link
        pending := fun other there => by cases there
        saved := fun other new => some.inj new ▸ waits
        kept := fun other new replaces => by
          rw [← some.inj new] at replaces
          exact absurd first replaces
        held := trivial
        revocation := fun revocation there => by cases there
        validating := fun validation there => by cases there
        replacing := fun other there => by cases there
        replaced := fun other there => by
          rw [before] at there
          cases there }
  | saving session sessionSecret =>
    rw [← some.inj ran]
    exact ⟨none, .quiet rfl rfl (resting _ (fun _ _ same => by cases same)) trivial rfl rfl before⟩
  | succeeded session sessionSecret => cases ran
  | failed failure => cases ran

theorem Follows.validateSessionKey {stage next : ValidateSessionKey.Stage} (good : Good s.store s.now call)
    (here : call.handler = .validateSessionKey stage)
    (ran : resumeValidateSessionKey p s.store s.now stage = some next) :
    Follows s i call (s.store, .validateSessionKey next) none :=
  .validate good (by rw [here]; rfl) ran ⟨rfl, rfl⟩ trivial rfl rfl (by rw [here]; rfl)

theorem Follows.revokeSession {request : RevokeSessionRequest} {stage : Guarded RevokeSession.Stage}
    {next : MemoryAuthStore × Guarded RevokeSession.Stage} (positive : 0 < s.now)
    (good : Good s.store s.now call) (here : call.handler = .revokeSession request stage)
    (ran : resumeRevokeSession p s.store s.now request stage = some next) :
    Follows s i call (next.1, .revokeSession request next.2) none := by
  have before : call.handler.replaced = none := by
    rw [here]
    rfl
  rcases resumeGuarded_cases ran with ⟨userId, sessionId, time, same, made⟩ |
    ⟨failure, banReason, same, made⟩ | ⟨validation, later, same, resumed, made⟩ | ⟨inner, same, resumed⟩
  · rw [made]
    simp only
    split
    · exact .quiet rfl rfl ⟨rfl, rfl⟩ trivial rfl rfl before
    · refine .quiet rfl rfl ⟨rfl, rfl⟩ ?_ rfl rfl before
      cases found : s.store.findSession request.userId request.sessionId with
      | none => trivial
      | some session => exact ⟨session, found, rfl⟩
  · rw [made]
    exact .quiet rfl rfl ⟨rfl, rfl⟩ trivial rfl rfl before
  · rw [made]
    exact .validate good (by rw [here, same]; rfl) resumed ⟨rfl, rfl⟩ trivial rfl rfl before
  · have held := good.held
    rw [here, same] at held
    cases inner with
    | findingSession found =>
      cases found with
      | none =>
        rw [← some.inj resumed]
        exact .quiet rfl rfl ⟨rfl, rfl⟩ trivial rfl rfl before
      | some session =>
        simp only at resumed
        split at resumed
        · rw [← some.inj resumed]
          exact .quiet rfl rfl ⟨rfl, rfl⟩ trivial rfl rfl before
        · rw [← some.inj resumed]
          have read : Read s.store request.userId request.sessionId { session with revokeTimeMs := some s.now } := held
          have revoked : isRevoked s.now { session with revokeTimeMs := some s.now } = true :=
            decide_eq_true ⟨ne_of_gt positive, le_refl _⟩
          have ⟨later, found⟩ := Later.revoke read revoked
          exact .bare later ⟨rfl, rfl⟩ ⟨_, found, revoked⟩ (fun _ there => by cases there)
            (fun _ there => by cases there) before
    | saving =>
      rw [← some.inj resumed]
      have effective : Effective s.store s.now (.session request.userId request.sessionId) := held
      exact .bare (.unchanged rfl rfl) ⟨rfl, rfl⟩ trivial
        (fun _ there => some.inj there ▸ effective) (fun _ there => by cases there) before
    | succeeded => cases resumed

theorem Follows.revokeAllSessions {request : RevokeAllSessionsRequest}
    {stage : Guarded (RevokeAllSessions.Stage AuthUser)}
    {next : MemoryAuthStore × Guarded (RevokeAllSessions.Stage AuthUser)}
    (good : Good s.store s.now call) (here : call.handler = .revokeAllSessions request stage)
    (orderly : Orderly s i bytes call.handler)
    (ran : resumeRevokeAllSessions p s.store s.now request s.store.findUser s.store
      (saveRevokeTime s.store) stage = some next) :
    Follows s i call (next.1, .revokeAllSessions request next.2) none := by
  have before : call.handler.replaced = none := by
    rw [here]
    rfl
  rcases resumeGuarded_cases ran with ⟨userId, sessionId, time, same, made⟩ |
    ⟨failure, banReason, same, made⟩ | ⟨validation, later, same, resumed, made⟩ | ⟨inner, same, resumed⟩
  · rw [made]
    simp only
    split
    · exact .quiet rfl rfl ⟨rfl, rfl⟩ trivial rfl rfl before
    · refine .quiet rfl rfl ⟨rfl, rfl⟩ ?_ rfl rfl before
      cases found : s.store.findUser request.userId with
      | none => trivial
      | some user => exact ⟨(findUser_member found).2, by rw [found]; rfl⟩
  · rw [made]
    exact .quiet rfl rfl ⟨rfl, rfl⟩ trivial rfl rfl before
  · rw [made]
    exact .validate good (by rw [here, same]; rfl) resumed ⟨rfl, rfl⟩ trivial rfl rfl before
  · have held := good.held
    rw [here, same] at held orderly
    cases inner with
    | findingUser time found =>
      cases found with
      | none =>
        rw [← some.inj resumed]
        exact .quiet rfl rfl ⟨rfl, rfl⟩ trivial rfl rfl before
      | some user =>
        rw [← some.inj resumed]
        have ⟨own, known⟩ : user.id = request.userId ∧ (s.store.findUser request.userId).isSome = true := held
        refine .bare (.saveUser (by rwa [own]) ?_) ⟨rfl, rfl⟩ trivial (fun _ there => by cases there)
          (fun _ there => by cases there) before
        intro current there session member users covers
        rw [own] at there users
        exact decide_eq_true (orderly current there session member users covers)
    | saving =>
      rw [← some.inj resumed]
      refine .bare (.unchanged rfl rfl) ⟨rfl, rfl⟩ trivial (fun revocation there => ?_)
        (fun _ there => by cases there) before
      rw [← some.inj there]
      refine ⟨fun root member user => ?_, fun session member user _ current found => ?_⟩
      · exact user ▸ MemoryAuthStore.findSession_isSome member
      · exact orderly current (user ▸ found) session member user
    | succeeded => cases resumed

theorem Follows.replaceSession {request : ReplaceSessionRequest} {stage : Guarded ReplaceSession.Stage}
    {next : MemoryAuthStore × Guarded ReplaceSession.Stage} (positive : 0 < s.now)
    (good : Good s.store s.now call) (here : call.handler = .replaceSession request stage)
    (orderly : Orderly s i bytes call.handler)
    (ran : resumeReplaceSession p s.store s.now request bytes stage = some next) :
    ∃ added, Follows s i call (next.1, .replaceSession request next.2) added := by
  rcases resumeGuarded_cases ran with ⟨userId, sessionId, time, same, made⟩ |
    ⟨failure, banReason, same, made⟩ | ⟨validation, later, same, resumed, made⟩ | ⟨inner, same, resumed⟩
  · rw [made]
    have before : call.handler.replaced = none := by
      rw [here, same]
      rfl
    have accepted := (good.validating (.accepted userId sessionId time) (by rw [here, same]; rfl)).1
    rw [here, same] at orderly
    have unused : Unused s bytes.sessionId := orderly
    unfold enterReplaceSession
    simp only
    split
    · exact ⟨none, .quiet rfl rfl ⟨rfl, rfl⟩ trivial rfl rfl before⟩
    · refine ⟨none, ?_⟩
      exact
        { later := .unchanged rfl rfl
          inherits := .nothing
          pending := fun session there => by
            rw [← some.inj there]
            exact ⟨rfl, .inr ⟨unused,
              { unused := unused.1
                linked := fun previous link => by rwa [← some.inj link] }⟩⟩
          saved := fun session new => by cases new
          kept := fun session new => by cases new
          held := ⟨positive, le_refl _, fun session found => ⟨sessionId, rfl, session, found, rfl⟩⟩
          revocation := fun revocation there => by cases there
          validating := fun validation there => by cases there
          replacing := fun session there => by cases there
          replaced := fun session there => by
            rw [before] at there
            cases there }
  · rw [made]
    exact ⟨none, .quiet rfl rfl ⟨rfl, rfl⟩ trivial rfl rfl (by rw [here, same]; rfl)⟩
  · rw [made]
    exact ⟨none, .validate good (by rw [here, same]; rfl) resumed ⟨rfl, rfl⟩ trivial rfl rfl (by rw [here, same]; rfl)⟩
  · have held := good.held
    have pending := good.pending
    rw [here, same] at held pending orderly
    cases inner with
    | findingSession newSession newSessionSecret found =>
      have before : call.handler.replaced = none := by
        rw [here, same]
        rfl
      cases found with
      | none =>
        rw [← some.inj resumed]
        exact ⟨none, .quiet rfl rfl ⟨rfl, rfl⟩ trivial rfl rfl before⟩
      | some session =>
        rw [← some.inj resumed]
        have ⟨granted, past, reads⟩ := held
        have ⟨previous, link, read⟩ := reads session rfl
        have saved : Read s.store newSession.userId previous { session with
              nextSessionId := some newSession.sessionId
              revokeTimeMs := some newSession.grantedTimeMs } := read
        have revoked : isRevoked s.now { session with
              nextSessionId := some newSession.sessionId
              revokeTimeMs := some newSession.grantedTimeMs } = true :=
          decide_eq_true ⟨ne_of_gt granted, past⟩
        refine ⟨none, ?_⟩
        exact
          { later := (Later.revoke saved revoked).1
            inherits := .nothing
            pending := fun other there => ⟨rfl, .inl (by rw [here, same]; exact there)⟩
            saved := fun other new => by cases new
            kept := fun other new => by cases new
            held := trivial
            revocation := fun revocation there => by cases there
            validating := fun validation there => by cases there
            replacing := fun other there => by
              rw [← some.inj there]
              exact .inr orderly
            replaced := fun other there => by
              rw [before] at there
              cases there }
    | savingOld newSession newSessionSecret =>
      rw [← some.inj resumed]
      have ⟨unused, linked⟩ := pending newSession rfl
      refine ⟨some newSession, ?_⟩
      exact
        { later := .add unused
          inherits := fun other new previous link => by
            rw [← some.inj new] at link ⊢
            have ⟨replaced, found⟩ := Option.isSome_iff_exists.mp (linked previous link)
            have user := (findSession_member found).2.1
            refine ⟨replaced, found, fun covered current there => ?_⟩
            unfold MemoryAuthStore.findUser at there
            rw [MemoryAuthStore.users_saveSession] at there
            exact orderly current replaced previous there link found (covered current (user ▸ there))
          pending := fun other there => by cases there
          saved := fun other new => by
            rw [here, same]
            exact new
          kept := fun other new _ => new
          held := trivial
          revocation := fun revocation there => by cases there
          validating := fun validation there => by cases there
          replacing := fun other there => .inl (by rw [here, same]; exact there)
          replaced := fun other there => by
            rw [here, same] at there
            cases there }
    | savingNew newSession newSessionSecret =>
      rw [← some.inj resumed]
      refine ⟨none, ?_⟩
      exact
        { later := .unchanged rfl rfl
          inherits := .nothing
          pending := fun other there => by cases there
          saved := fun other new => by cases new
          kept := fun other new => by cases new
          held := trivial
          revocation := fun revocation there => by cases there
          validating := fun validation there => by cases there
          replacing := fun other there => .inl (by rw [here, same]; exact there)
          replaced := fun other there => by
            rw [here, same] at there
            exact there }
    | succeeded newSession newSessionSecret => cases resumed

end Going

/-! ### What every run keeps -/

structure Inv (s : Server) : Prop where
  positive : 0 < s.now
  rooted : Rooted s.store
  good : ∀ call ∈ s.calls, Good s.store s.now call
  apart : ∀ (i j : Nat) call other session otherSession, s.calls[i]? = some call →
    s.calls[j]? = some other → i ≠ j → call.handler.pending = some session →
    other.handler.pending = some otherSession → session.sessionId ≠ otherSession.sessionId
  once : ∀ (i j : Nat) call other session otherSession, s.calls[i]? = some call →
    s.calls[j]? = some other → call.handler.replacing = some session →
    other.handler.replacing = some otherSession → session.userId = otherSession.userId →
    session.previousSessionId = otherSession.previousSessionId → i = j
  made : ∀ session ∈ s.store.sessions, session.previousSessionId ≠ none →
    ∃ (i : Nat) (call : Call) (newSession : AuthSession), s.calls[i]? = some call ∧
      call.handler.replaced = some newSession ∧ session.issued = newSession.issued

section Running

variable {p : Platform} {s : Server} {i : Nat} {call : Call} {bytes : SessionBytes}

variable {made : MemoryAuthStore × Handler}

theorem follows (positive : 0 < s.now) (good : Good s.store s.now call) (orderly : Orderly s i bytes call.handler)
    (ran : resumeHandler p s.store s.now bytes call.handler = some made) :
    ∃ added, Follows s i call made added := by
  cases here : call.handler with
  | completeLogin request stage =>
    rw [here] at ran
    have ⟨next, resumed, same⟩ := map_eq_some_iff.mp ran
    exact same ▸ Follows.completeLogin good here orderly resumed
  | validateSessionKey stage =>
    rw [here] at ran
    have ⟨next, resumed, same⟩ := map_eq_some_iff.mp ran
    exact same ▸ ⟨none, .validateSessionKey good here resumed⟩
  | revokeSession request stage =>
    rw [here] at ran
    have ⟨next, resumed, same⟩ := map_eq_some_iff.mp ran
    exact same ▸ ⟨none, .revokeSession positive good here resumed⟩
  | revokeAllSessions request stage =>
    rw [here] at ran
    have ⟨next, resumed, same⟩ := map_eq_some_iff.mp ran
    exact same ▸ ⟨none, .revokeAllSessions good here orderly resumed⟩
  | replaceSession request stage =>
    rw [here] at ran
    have ⟨next, resumed, same⟩ := map_eq_some_iff.mp ran
    exact same ▸ Follows.replaceSession positive good here orderly resumed

theorem Follows.good {added : Option AuthSession}
    (follows : Follows s i call made added) (rooted : Rooted s.store) (good : Good s.store s.now call) :
    Good made.1 s.now (call.goesOn made) where
  pending session there := by
    have ⟨nothing, rest⟩ := follows.pending session there
    rcases rest with before | ⟨_, new⟩
    · exact (good.pending session before).later follows.later (fun new isNew => by
        rw [nothing] at isNew
        cases isNew)
    · exact new
  held := follows.held
  revoked revocation member := (good.revoked revocation member).later follows.later rooted follows.inherits
  revocation := follows.revocation
  validating := follows.validating
  accepted userId sessionId there := by
    have accepts : call.accepted.or made.2.accepts = some (userId, sessionId) := there
    rcases Option.or_eq_some_iff.mp accepts with before | ⟨_, now⟩
    · have ⟨stored, allowed⟩ := good.accepted userId sessionId before
      exact ⟨follows.later.isSome stored, fun revocation member forbids =>
        allowed revocation member (follows.later.forbids rooted forbids stored)⟩
    · unfold Handler.accepts at now
      split at now
      · rename_i user session time validation
        have ⟨users, ids⟩ := Prod.mk.inj (some.inj now)
        rw [← users, ← ids]
        exact follows.validating _ validation
      · cases now

theorem Inv.follow (inv : Inv s) (here : s.calls[i]? = some call)
    {added : Option AuthSession} (follows : Follows s i call made added) :
    Inv { s with store := made.1, calls := s.calls.set i (call.goesOn made) } where
  positive := inv.positive
  rooted := inv.rooted.later follows.later follows.inherits
  good other member := by
    have ⟨j, there⟩ := List.getElem?_of_mem member
    rcases getElem?_set_cases here there with ⟨_, new⟩ | ⟨differ, old⟩
    · rw [new]
      exact follows.good inv.rooted (inv.good call (List.mem_of_getElem? here))
    · refine (inv.good other (List.mem_of_getElem? old)).later follows.later inv.rooted follows.inherits ?_
      intro new session isNew waits
      exact inv.apart i j call other new session here old (fun same => differ same.symm) (follows.saved new isNew) waits
  apart j k first second session other one two differ waitsOne waitsTwo := by
    have fresh : ∀ (l : Nat) third session other, s.calls[l]? = some third → l ≠ i →
        made.2.pending = some session → third.handler.pending = some other →
        session.sessionId ≠ other.sessionId := by
      intro l third session other there notHere pending waits
      have ⟨_, rest⟩ := follows.pending session pending
      rcases rest with before | ⟨unused, _⟩
      · exact inv.apart i l call third session other here there (fun same => notHere same.symm) before waits
      · exact fun same => unused.2 third (List.mem_of_getElem? there) other waits same.symm
    rcases getElem?_set_cases here one with ⟨atOne, newOne⟩ | ⟨notOne, oldOne⟩
    · rcases getElem?_set_cases here two with ⟨atTwo, _⟩ | ⟨notTwo, oldTwo⟩
      · exact absurd (atOne.trans atTwo.symm) differ
      · rw [newOne] at waitsOne
        exact fresh k second session other oldTwo notTwo waitsOne waitsTwo
    · rcases getElem?_set_cases here two with ⟨_, newTwo⟩ | ⟨_, oldTwo⟩
      · rw [newTwo] at waitsTwo
        exact (fresh j first other session oldOne notOne waitsTwo waitsOne).symm
      · exact inv.apart j k first second session other oldOne oldTwo differ waitsOne waitsTwo
  once j k first second session other one two replacesOne replacesTwo users links := by
    have alone : ∀ (l : Nat) third session other, s.calls[l]? = some third → l ≠ i →
        made.2.replacing = some session → third.handler.replacing = some other →
        session.userId = other.userId → session.previousSessionId = other.previousSessionId → i = l := by
      intro l third session other there notHere replacing replaces sameUser sameLink
      rcases follows.replacing session replacing with before | alone
      · exact inv.once i l call third session other here there before replaces sameUser sameLink
      · exact absurd sameLink.symm (alone l third other there notHere replaces sameUser.symm)
    rcases getElem?_set_cases here one with ⟨atOne, newOne⟩ | ⟨notOne, oldOne⟩
    · rcases getElem?_set_cases here two with ⟨atTwo, _⟩ | ⟨notTwo, oldTwo⟩
      · exact atOne.trans atTwo.symm
      · rw [newOne] at replacesOne
        exact atOne.trans (alone k second session other oldTwo notTwo replacesOne replacesTwo users links)
    · rcases getElem?_set_cases here two with ⟨atTwo, newTwo⟩ | ⟨_, oldTwo⟩
      · rw [newTwo] at replacesTwo
        exact (atTwo.trans
          (alone j first other session oldOne notOne replacesTwo replacesOne users.symm links.symm)).symm
      · exact inv.once j k first second session other oldOne oldTwo replacesOne replacesTwo users links
  made session member link := by
    rcases follows.later.members session member with new | ⟨old, there, same⟩
    · exact ⟨i, _, session, getElem?_set_here here, follows.kept session new link, rfl⟩
    · have ⟨j, maker, newSession, makes, replaced, equal⟩ :=
        inv.made old there ((issued_fields same).2.2.2 ▸ link)
      by_cases at' : j = i
      · rw [at', here] at makes
        rw [← some.inj makes] at replaced
        exact ⟨i, _, newSession, getElem?_set_here here, follows.replaced newSession replaced, same.trans equal⟩
      · exact ⟨j, maker, newSession, getElem?_set_there here at' makes, replaced, same.trans equal⟩

/-- A handler that has just begun has done nothing but look for the session of its key. -/
theorem beginHandler_fresh (store : MemoryAuthStore) (now : Int) (request : Request) :
    (beginHandler p store request).pending = none ∧ (beginHandler p store request).replacing = none ∧
      (∀ existed, (beginHandler p store request).revocation existed = none) ∧
      Held store now (beginHandler p store request) ∧
      ∀ validation, (beginHandler p store request).validation = some validation →
        ∃ key, validation = beginValidateSessionKey p store key := by
  cases request with
  | completeLogin request =>
    rcases beginCompleteLogin_cases store request with ⟨failure, begun⟩ | begun
    · simp only [beginHandler, begun]
      exact ⟨rfl, rfl, fun _ => rfl, trivial, fun _ there => by cases there⟩
    · simp only [beginHandler, begun]
      exact ⟨rfl, rfl, fun _ => rfl, trivial, fun _ there => by cases there⟩
  | validateSessionKey key =>
    exact ⟨rfl, rfl, fun _ => rfl, trivial, fun _ there => ⟨key, (some.inj there).symm⟩⟩
  | revokeSession request =>
    rcases beginRevokeSession_cases p store request with ⟨failure, begun⟩ | begun
    · simp only [beginHandler, begun]
      exact ⟨rfl, rfl, fun _ => rfl, trivial, fun _ there => by cases there⟩
    · simp only [beginHandler, begun]
      exact ⟨rfl, rfl, fun _ => rfl, trivial, fun _ there => ⟨_, (some.inj there).symm⟩⟩
  | revokeAllSessions request =>
    rcases @beginRevokeAllSessions_cases p store AuthUser request with ⟨failure, begun⟩ | begun
    · simp only [beginHandler, begun]
      exact ⟨rfl, rfl, fun _ => rfl, trivial, fun _ there => by cases there⟩
    · simp only [beginHandler, begun]
      exact ⟨rfl, rfl, fun _ => rfl, trivial, fun _ there => ⟨_, (some.inj there).symm⟩⟩
  | replaceSession request =>
    rcases beginReplaceSession_cases p store request with ⟨failure, begun⟩ | begun
    · simp only [beginHandler, begun]
      exact ⟨rfl, rfl, fun _ => rfl, trivial, fun _ there => by cases there⟩
    · simp only [beginHandler, begun]
      exact ⟨rfl, rfl, fun _ => rfl, trivial, fun _ there => ⟨_, (some.inj there).symm⟩⟩

theorem Inv.begin (inv : Inv s) (request : Request) : Inv { s with calls := s.calls ++ [begin p s request] } := by
  have ⟨pending, replacing, revocation, held, validation⟩ :=
    beginHandler_fresh (p := p) s.store s.now request
  have effective : ∀ revocation ∈ (Sessions.begin p s request).revoked, Effective s.store s.now revocation := by
    intro revocation member
    have ⟨call, inside, made⟩ := List.mem_filterMap.mp member
    exact (inv.good call inside).revocation revocation made
  exact
    { positive := inv.positive
      rooted := inv.rooted
      good := fun call member => by
        rcases List.mem_append.mp member with old | new
        · exact inv.good call old
        · rw [List.mem_singleton.mp new]
          exact
            { pending := fun session there => by cases pending.symm.trans there
              held := held
              revoked := effective
              revocation := fun made there => by cases (revocation []).symm.trans there
              validating := fun stage there => by
                have ⟨key, same⟩ := validation stage there
                exact same ▸ Validating.begin effective key
              accepted := fun userId sessionId there => by cases there }
      apart := fun i j call other session otherSession one two differ waitsOne waitsTwo => by
        rcases getElem?_append_cases one with oldOne | ⟨_, newOne⟩
        · rcases getElem?_append_cases two with oldTwo | ⟨_, newTwo⟩
          · exact inv.apart i j call other session otherSession oldOne oldTwo differ waitsOne waitsTwo
          · rw [newTwo] at waitsTwo
            cases pending.symm.trans waitsTwo
        · rw [newOne] at waitsOne
          cases pending.symm.trans waitsOne
      once := fun i j call other session otherSession one two replacesOne replacesTwo users links => by
        rcases getElem?_append_cases one with oldOne | ⟨_, newOne⟩
        · rcases getElem?_append_cases two with oldTwo | ⟨_, newTwo⟩
          · exact inv.once i j call other session otherSession oldOne oldTwo replacesOne replacesTwo users links
          · rw [newTwo] at replacesTwo
            cases replacing.symm.trans replacesTwo
        · rw [newOne] at replacesOne
          cases replacing.symm.trans replacesOne
      made := fun session member link => by
        have ⟨i, call, newSession, there, replaced, same⟩ := inv.made session member link
        exact ⟨i, call, newSession, getElem?_append_there there, replaced, same⟩ }

theorem Inv.pass (inv : Inv s) {later : Int} (past : s.now ≤ later) : Inv { s with now := later } where
  positive := lt_of_lt_of_le inv.positive past
  rooted := inv.rooted
  good call member := (inv.good call member).pass past
  apart := inv.apart
  once := inv.once
  made := inv.made

theorem Inv.idle {start : MemoryAuthStore} {now : Int} (positive : 0 < now) (empty : start.sessions = []) :
    Inv (Handlers.idle start now) where
  positive := positive
  rooted session member := by
    have inside : session ∈ start.sessions := member
    rw [empty] at inside
    cases inside
  good call member := by cases member
  apart i j call other session otherSession one := by cases one
  once i j call other session otherSession one := by cases one
  made session member := by
    have inside : session ∈ start.sessions := member
    rw [empty] at inside
    cases inside

theorem Inv.reached {start : MemoryAuthStore} {now : Int} (positive : 0 < now) (empty : start.sessions = [])
    (reached : Reaches (step p) Allowed (Handlers.idle start now) s) : Inv s := by
  refine invariant (Inv.idle positive empty) (fun _ request inv _ => inv.begin request) ?_
    (fun _ _ inv past => inv.pass past) reached
  intro state i bytes call made inv allowed here ran
  have ⟨next, resumed, same⟩ := map_eq_some_iff.mp ran
  have ⟨added, follows⟩ := follows inv.positive (inv.good call (List.mem_of_getElem? here)) (allowed call here) resumed
  rw [← same]
  exact inv.follow here follows

end Running

/-- While handlers find what they need, revoked sessions stay revoked, and no session is replaced twice. -/
theorem revocation_final (p : Platform) (start : MemoryAuthStore) (empty : start.sessions = []) (now : Int)
    (positive : 0 < now) (s : Server) (reached : Reaches (step p) Allowed (Handlers.idle start now) s) :
    Final s := by
  have inv := Inv.reached positive empty reached
  refine ⟨fun call member revocation revoked userId sessionId accepted => ?_, ?_⟩
  · exact ((inv.good call member).accepted userId sessionId accepted).2 revocation revoked
  · intro first one second two users links link
    have ⟨i, call, newSession, here, replaced, same⟩ := inv.made first one link
    have ⟨j, other, otherSession, there, otherReplaced, otherSame⟩ := inv.made second two (links ▸ link)
    have ⟨user, id, _, previous⟩ := issued_fields same
    have ⟨otherUser, otherId, _, otherPrevious⟩ := issued_fields otherSame
    have equal : i = j := inv.once i j call other newSession otherSession here there
      (Handler.replacing_of_replaced replaced) (Handler.replacing_of_replaced otherReplaced)
      (user.symm.trans (users.trans otherUser)) (previous.symm.trans (links.trans otherPrevious))
    rw [equal, there] at here
    rw [Option.some.inj here, replaced] at otherReplaced
    rw [id, otherId, Option.some.inj otherReplaced]

/-! ### Sessions of one user -/

def bytes (digit : Char) : SessionBytes where
  sessionId := JsString.lit [digit, 'A', 'A', 'A']
  sessionSecret := JsString.lit [digit, 'B', 'B', 'B']

/-- The key of the session with these bytes that was granted at `time`. -/
def key (digit : Char) (time : Int) : JsString :=
  formatV1SessionKey pairing account.id (bytes digit).sessionId (bytes digit).sessionSecret
    (time + sessionLifetimeMs)

/-- The first session is there, granted at 1. -/
def login : List (Label Request SessionBytes) :=
  [.call (.completeLogin withCode), .resume 0 (bytes 'b'), .resume 0 (bytes 'b'), .resume 0 (bytes 'b'),
    .resume 0 (bytes 'b')]

def replacing : Request :=
  .replaceSession
    { sessionKey := key 'b' 1
      ipAddress := JsString.lit ['i', 'p'] }

def revokingAll : Request :=
  .revokeAllSessions
    { userId := account.id
      sessionKey := key 'b' 1 }

def overtaken : List (Label Request SessionBytes) :=
  login ++
    [.call replacing, .call replacing, .call revokingAll,
      .resume 1 (bytes 'c'), .resume 2 (bytes 'd'), .resume 3 (bytes 'e'),
      .resume 1 (bytes 'c'), .resume 2 (bytes 'd'), .resume 3 (bytes 'e'),
      .resume 3 (bytes 'e'), .pass 2, .resume 3 (bytes 'e'), .resume 3 (bytes 'e'),
      .resume 1 (bytes 'c'), .resume 2 (bytes 'd'),
      .resume 1 (bytes 'c'), .resume 2 (bytes 'd'),
      .resume 1 (bytes 'c'), .resume 2 (bytes 'd'),
      .call (.validateSessionKey (key 'c' 2)), .resume 4 (bytes 'e'), .resume 4 (bytes 'e')]

/-- A session of the first one's place. -/
def isSuccessor (digit : Char) (session : AuthSession) : Bool :=
  session.userId = account.id ∧ session.sessionId = (bytes digit).sessionId ∧
    session.previousSessionId = some (bytes 'b').sessionId

def revokesFirst : Revocation → Bool
  | .session _ _ => false
  | .allSessions userId existed =>
    userId = account.id ∧ existed.any (fun session =>
      session.userId = account.id ∧ session.sessionId = (bytes 'b').sessionId)

def escapes (s : Server) : Bool :=
  s.store.sessions.any (isSuccessor 'c') && s.store.sessions.any (isSuccessor 'd') &&
    s.calls.any (fun call =>
      call.accepted = some (account.id, (bytes 'c').sessionId) ∧ call.revoked.any revokesFirst)

theorem escapes_accepted {s : Server} (there : escapes s = true) : ∃ call ∈ s.calls, ∃ revocation ∈ call.revoked,
      call.accepted = some (account.id, (bytes 'c').sessionId) ∧
        revocation.Forbids s.store.sessions account.id (bytes 'c').sessionId := by
  have ⟨both, accepting⟩ := Bool.and_eq_true_iff.mp there
  have ⟨first, member, isFirst⟩ := List.any_eq_true.mp (Bool.and_eq_true_iff.mp both).1
  have ⟨call, callMember, accepts⟩ := List.any_eq_true.mp accepting
  have ⟨accepted, revoking⟩ := of_decide_eq_true accepts
  have ⟨revocation, revoked, revokes⟩ := List.any_eq_true.mp revoking
  have ⟨user, id, link⟩ := of_decide_eq_true isFirst
  refine ⟨call, callMember, revocation, revoked, accepted, ?_⟩
  cases revocation with
  | session userId sessionId => cases revokes
  | allSessions userId existed =>
    have ⟨users, existing⟩ := of_decide_eq_true revokes
    have ⟨root, rootMember, isRoot⟩ := List.any_eq_true.mp existing
    have ⟨rootUser, rootId⟩ := of_decide_eq_true isRoot
    have descends : Descends s.store.sessions account.id existed (bytes 'b').sessionId :=
      rootId ▸ .root rootMember rootUser
    exact ⟨users, id ▸ .replaced member user link descends⟩

theorem escapes_twice {s : Server} (there : escapes s = true) :
    ∃ first ∈ s.store.sessions, ∃ second ∈ s.store.sessions, first.userId = second.userId ∧
      first.previousSessionId = second.previousSessionId ∧ first.previousSessionId ≠ none ∧
      first.sessionId ≠ second.sessionId := by
  have ⟨one, two⟩ := Bool.and_eq_true_iff.mp (Bool.and_eq_true_iff.mp there).1
  have ⟨first, member, isFirst⟩ := List.any_eq_true.mp one
  have ⟨second, otherMember, isSecond⟩ := List.any_eq_true.mp two
  have ⟨user, id, link⟩ := of_decide_eq_true isFirst
  have ⟨otherUser, otherId, otherLink⟩ := of_decide_eq_true isSecond
  refine ⟨first, member, second, otherMember, user.trans otherUser.symm, link.trans otherLink.symm, ?_, ?_⟩
  · rw [link]
    exact Option.some_ne_none _
  · rw [id, otherId]
    decide

/-- A key is accepted that comes from a session which all were revoked with, and a session has two
successors. -/
theorem revocation_overtaken : ∃ s : Server,
    runAll (step pairing) (Handlers.idle issuedStore 1) overtaken = some s ∧
      (∃ call ∈ s.calls, ∃ revocation ∈ call.revoked,
        call.accepted = some (account.id, (bytes 'c').sessionId) ∧
          revocation.Forbids s.store.sessions account.id (bytes 'c').sessionId) ∧
      (∃ first ∈ s.store.sessions, ∃ second ∈ s.store.sessions, first.userId = second.userId ∧
        first.previousSessionId = second.previousSessionId ∧ first.previousSessionId ≠ none ∧
        first.sessionId ≠ second.sessionId) ∧ ¬ Final s := by
  have ran : (runAll (step pairing) (Handlers.idle issuedStore 1) overtaken).any escapes = true := by
    decide +kernel
  have ⟨s, last, there⟩ := (Option.any_eq_true _ _).mp ran
  have accepted := escapes_accepted there
  refine ⟨s, last, accepted, escapes_twice there, fun final => ?_⟩
  have ⟨call, member, revocation, revoked, accepts, forbids⟩ := accepted
  exact final.refused call member revocation revoked _ _ accepts forbids

/-! ### One handler after the other -/

def alone (s : Server) : Handler → Bool
  | .completeLogin _ (.findingUser _ _) =>
    s.store.sessions.isEmpty && s.calls.all (fun call => call.handler.pending.isNone)
  | .replaceSession _ _ => false
  | .revokeAllSessions _ (.entered (.findingUser time _)) =>
    s.store.sessions.all (fun session => session.grantedTimeMs ≤ time)
  | .revokeAllSessions _ (.entered .saving) =>
    s.store.users.all (fun user => s.store.sessions.all (revokesGranted user))
  | _ => true

theorem alone_orderly {s : Server} {i : Nat} {bytes : SessionBytes} {handler : Handler}
    (free : alone s handler = true) : Orderly s i bytes handler := by
  unfold alone at free
  split at free
  · have ⟨empty, idle⟩ := Bool.and_eq_true_iff.mp free
    refine ⟨fun session member => ?_, fun call member session waits => ?_⟩
    · rw [List.isEmpty_iff.mp empty] at member
      cases member
    · have resting := List.all_eq_true.mp idle call member
      rw [waits] at resting
      cases resting
  · cases free
  · rename_i time found
    cases found with
    | none => trivial
    | some user =>
      intro current _ session member _ _
      exact of_decide_eq_true (List.all_eq_true.mp free session member)
  · intro user found session member _
    exact List.all_eq_true.mp (List.all_eq_true.mp free user (findUser_member found).1) session member
  · unfold Orderly
    split <;> simp_all

def aloneAt (s : Server) : Label Request SessionBytes → Bool
  | .resume i _ => (s.calls[i]?).all (fun call => alone s call.handler)
  | _ => true

theorem aloneAt_allowed {s : Server} {label : Label Request SessionBytes} (free : aloneAt s label = true) :
    Allowed s label := by
  cases label with
  | call request => trivial
  | pass later => trivial
  | resume i bytes =>
    intro call here
    simp only [aloneAt, here, Option.all_some] at free
    exact alone_orderly free

def revokedThenTried : List (Label Request SessionBytes) :=
  login ++
    [.call revokingAll, .resume 1 (bytes 'c'), .resume 1 (bytes 'c'), .resume 1 (bytes 'c'), .pass 2,
      .resume 1 (bytes 'c'), .resume 1 (bytes 'c'),
      .call (.validateSessionKey (key 'b' 1)), .resume 2 (bytes 'c'), .resume 2 (bytes 'c')]

theorem tried_key_refused : ∃ s : Server,
    runAll (step pairing) (Handlers.idle issuedStore 1) revokedThenTried = some s ∧
      (s.calls.map (fun call => call.revoked.length) = [0, 0, 1]) ∧ Final s := by
  have ran : (runAll (step pairing) (Handlers.idle issuedStore 1) revokedThenTried).any
      (fun s => s.calls.map (fun call => call.revoked.length) = [0, 0, 1]) = true := by decide +kernel
  have ⟨s, last, ends⟩ := (Option.any_eq_true _ _).mp ran
  have free : AllAllowed (step pairing) (fun s label => aloneAt s label = true)
      (Handlers.idle issuedStore 1) revokedThenTried := by decide +kernel
  exact ⟨s, last, of_decide_eq_true ends,
    revocation_final pairing issuedStore rfl 1 (by decide) s
      (reaches_of_runAll revokedThenTried
        (free.weaken revokedThenTried (fun _ _ => aloneAt_allowed)) last)⟩

end CasualOS.Sessions
