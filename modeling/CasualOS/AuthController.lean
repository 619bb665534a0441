import CasualOS.AuthStore

/-! The handlers of `AuthController`, cut where they await. -/

namespace CasualOS.AuthController

open JsString (lit)

def maxLoginRequestAttempts : Nat := 5

def sessionLifetimeMs : Int := 1000 * 60 * 60 * 24 * 14

structure Failure where
  errorCode : String
  errorMessage : String
  deriving DecidableEq, Repr

def invalidRequest : Failure where
  errorCode := "invalid_request"
  errorMessage := "The login request is invalid."

def invalidCode : Failure where
  errorCode := "invalid_code"
  errorMessage := "The code is invalid."

def serverError : Failure where
  errorCode := "server_error"
  errorMessage := "A server error occurred."

def unacceptableUserId : Failure where
  errorCode := "unacceptable_user_id"
  errorMessage := "The given userId is invalid. It must be a string."

def unacceptableRequestId : Failure where
  errorCode := "unacceptable_request_id"
  errorMessage := "The given requestId is invalid. It must be a string."

def unacceptableCode : Failure where
  errorCode := "unacceptable_code"
  errorMessage := "The given code is invalid. It must be a string."

def unacceptableIpAddress : Failure where
  errorCode := "unacceptable_ip_address"
  errorMessage := "The given IP address is invalid. It must be a string."

def unacceptableSessionId : Failure where
  errorCode := "unacceptable_session_id"
  errorMessage := "The given sessionId is invalid. It must be a string."

def unacceptableSessionKey : Failure where
  errorCode := "unacceptable_session_key"
  errorMessage := "The given session key is invalid. It must be a string."

/-- As `validateSessionKey` words it. -/
def malformedSessionKey : Failure where
  errorCode := "unacceptable_session_key"
  errorMessage := "The given session key is invalid. It must be a correctly formatted string."

/-- As `replaceSession` words it. -/
def unacceptableReplacedKey : Failure where
  errorCode := "unacceptable_session_key"
  errorMessage := "The given sessionKey is invalid. It must be a string."

def invalidKey : Failure where
  errorCode := "invalid_key"
  errorMessage := "The session key is invalid."

def sessionExpired : Failure where
  errorCode := "session_expired"
  errorMessage := "The session has expired."

def userIsBanned : Failure where
  errorCode := "user_is_banned"
  errorMessage := "The user has been banned."

def sessionNotFound : Failure where
  errorCode := "session_not_found"
  errorMessage := "The session was not found."

def sessionAlreadyRevoked : Failure where
  errorCode := "session_already_revoked"
  errorMessage := "The session has already been revoked."

/-- As `replaceSession` words it. -/
def serverErrorOcurred : Failure where
  errorCode := "server_error"
  errorMessage := "A server error ocurred."

/-! ### Hashes and keys -/

def hashVersionOne : JsString := lit ['v', 'H', '1', '.']

def hashVersionTwo : JsString := lit ['v', 'H', '2', '.']

section Keys

variable (p : Platform)

/-- With one hash. Nothing where the code throws. -/
def verifyPasswordAgainstHashes (password salt hash : JsString) : Option Bool :=
  if password = [] ∨ salt = [] then none
  else match withoutVersion hashVersionOne hash with
    | some digest => (p.toByteArray salt).map (fun bytes => p.scrypt (encodeText password) bytes = digest)
    | none =>
      match withoutVersion hashVersionTwo hash with
      | some digest => (p.toByteArray salt).map (fun bytes => p.hmac (encodeText password) bytes = digest)
      | none => none

def sessionVersionOne : JsString := lit ['v', 'S', 'K', '1', '.']

def formatV1SessionKey (userId sessionId sessionSecret : JsString) (expireTimeMs : Int) : JsString :=
  sessionVersionOne ++ p.toBase64String userId ++ period :: p.toBase64String sessionId ++
    period :: p.toBase64String sessionSecret ++
    period :: p.toBase64String (lit (toString expireTimeMs).toList)

/-- What is read of a session key. Its expire time must be base64 too, and is not used. -/
structure SessionKey where
  userId : JsString
  sessionId : JsString
  sessionSecret : JsString
  deriving DecidableEq, Repr

def parseV1SessionKey (key : JsString) : Option SessionKey := do
  let rest ← withoutVersion sessionVersionOne key
  let (userIdBase64, sessionIdPlusPassword) ← cutAtPeriod rest
  if userIdBase64 = [] ∨ sessionIdPlusPassword = [] then none
  else
    let (sessionIdBase64, passwordPlusExpireTime) ← cutAtPeriod sessionIdPlusPassword
    if sessionIdBase64 = [] ∨ passwordPlusExpireTime = [] then none
    else
      let (passwordBase64, expireTimeBase64) ← cutAtPeriod passwordPlusExpireTime
      if passwordBase64 = [] ∨ expireTimeBase64 = [] then none
      else
        let userId ← p.fromBase64String userIdBase64
        let sessionId ← p.fromBase64String sessionIdBase64
        let password ← p.fromBase64String passwordBase64
        let _ ← p.fromBase64String expireTimeBase64
        some { userId := userId, sessionId := sessionId, sessionSecret := password }

end Keys

/-! ### Completing a login -/

structure CompleteLoginRequest where
  userId : JsString
  requestId : JsString
  code : JsString
  ipAddress : JsString
  deriving DecidableEq, Repr

/-- The random bytes of a new session, as base64. -/
structure SessionBytes where
  sessionId : JsString
  sessionSecret : JsString
  deriving DecidableEq, Repr

namespace CompleteLogin

/-- `index` is where the login request was found, and `sessionSecret` belongs to the key that is returned. -/
inductive Stage where
  | findingRequest (found : Option Nat)
  | counting
  | findingUser (index : Nat) (found : Option AuthUser)
  | marking (session : AuthSession) (sessionSecret : JsString)
  | saving (session : AuthSession) (sessionSecret : JsString)
  | succeeded (session : AuthSession) (sessionSecret : JsString)
  | failed (failure : Failure)
  deriving DecidableEq, Repr

end CompleteLogin

section CompleteLogin

variable (p : Platform) (s : MemoryAuthStore) (now : Int) (request : CompleteLoginRequest)

/-- Up to the first await. -/
def beginCompleteLogin : CompleteLogin.Stage :=
  if request.userId = [] then .failed unacceptableUserId
  else if request.requestId = [] then .failed unacceptableRequestId
  else if request.code = [] then .failed unacceptableCode
  else if request.ipAddress = [] then .failed unacceptableIpAddress
  else .findingRequest (s.findLoginRequest request.userId request.requestId)

theorem beginCompleteLogin_cases : (∃ failure, beginCompleteLogin s request = .failed failure) ∨
    beginCompleteLogin s request =
      .findingRequest (s.findLoginRequest request.userId request.requestId) := by
  unfold beginCompleteLogin
  split
  · exact .inl ⟨_, rfl⟩
  · split
    · exact .inl ⟨_, rfl⟩
    · split
      · exact .inl ⟨_, rfl⟩
      · split
        · exact .inl ⟨_, rfl⟩
        · exact .inr rfl

/-- `validRequest`. -/
def admits (loginRequest : AuthLoginRequest) : Bool :=
  now < loginRequest.expireTimeMs ∧ ¬ positiveTime loginRequest.completedTimeMs ∧
    loginRequest.attemptCount < maxLoginRequestAttempts ∧ loginRequest.ipAddress = request.ipAddress

/-- `validCode`, which is false too where the comparison throws. -/
def codeMatches (loginRequest : AuthLoginRequest) : Bool :=
  verifyPasswordAgainstHashes p request.code loginRequest.requestId loginRequest.secretHash = some true

def loginSession (loginRequest : AuthLoginRequest) (bytes : SessionBytes) (secretHash : JsString) :
    AuthSession where
  userId := loginRequest.userId
  sessionId := bytes.sessionId
  requestId := some loginRequest.requestId
  secretHash := secretHash
  grantedTimeMs := now
  revokeTimeMs := none
  expireTimeMs := now + sessionLifetimeMs
  previousSessionId := none
  nextSessionId := none
  ipAddress := request.ipAddress

def checkLoginRequest (loginRequest : AuthLoginRequest) (index : Nat) : MemoryAuthStore × CompleteLogin.Stage :=
  if ¬ admits now request loginRequest then (s, .failed invalidRequest)
  else if codeMatches p request loginRequest then (s, .findingUser index (s.findUser loginRequest.userId))
  else (s.incrementLoginRequestAttemptCount loginRequest.userId loginRequest.requestId, .counting)

def completeLoginRequest (loginRequest : AuthLoginRequest) (bytes : SessionBytes) (found : Option AuthUser) :
    MemoryAuthStore × CompleteLogin.Stage :=
  match found with
  | none => (s, .failed invalidRequest)
  | some user =>
    if user.currentLoginRequestId ≠ some loginRequest.requestId then (s, .failed invalidRequest)
    else match p.hashHighEntropyPasswordWithSalt bytes.sessionSecret bytes.sessionId with
      | none => (s, .failed serverError)
      | some secretHash =>
        match s.markLoginRequestComplete loginRequest.userId loginRequest.requestId now with
        | none => (s, .failed serverError)
        | some store =>
          (store, .marking (loginSession now request loginRequest bytes secretHash) bytes.sessionSecret)

/-- From one await to the next. The login request is read anew each time, as it is found by reference. -/
def resumeCompleteLogin (bytes : SessionBytes) :
    CompleteLogin.Stage → Option (MemoryAuthStore × CompleteLogin.Stage)
  | .findingRequest none => some (s, .failed invalidRequest)
  | .findingRequest (some index) =>
    (s.loginRequests[index]?).map (fun loginRequest => checkLoginRequest p s now request loginRequest index)
  | .counting => some (s, .failed invalidCode)
  | .findingUser index found =>
    (s.loginRequests[index]?).map (fun loginRequest =>
      completeLoginRequest p s now request loginRequest bytes found)
  | .marking session sessionSecret => some (s.saveSession session, .saving session sessionSecret)
  | .saving session sessionSecret => some (s, .succeeded session sessionSecret)
  | .succeeded _ _ => none
  | .failed _ => none

def returnedKey (session : AuthSession) (sessionSecret : JsString) : JsString :=
  formatV1SessionKey p session.userId session.sessionId sessionSecret session.expireTimeMs

end CompleteLogin

/-! ### Session keys -/

namespace ValidateSessionKey

inductive Stage where
  | findingSession (key : SessionKey) (found : Option AuthSession)
  | findingUser (session : AuthSession) (found : Option AuthUser)
  | accepted (userId sessionId : JsString) (allSessionsRevokedTimeMs : Option Int)
  | refused (failure : Failure) (banReason : Option JsString)
  deriving DecidableEq, Repr

end ValidateSessionKey

def isRevoked (now : Int) (session : AuthSession) : Bool :=
  match session.revokeTimeMs with
  | none => false
  | some revokeTimeMs => revokeTimeMs ≠ 0 ∧ revokeTimeMs ≤ now

def revokesGranted (user : AuthUser) (session : AuthSession) : Bool :=
  match user.allSessionRevokeTimeMs with
  | none => false
  | some revokeTimeMs => session.grantedTimeMs ≤ revokeTimeMs

section ValidateSessionKey

variable (p : Platform) (s : MemoryAuthStore) (now : Int)

def beginValidateSessionKey (key : JsString) : ValidateSessionKey.Stage :=
  if key = [] then .refused malformedSessionKey none
  else match parseV1SessionKey p key with
    | none => .refused malformedSessionKey none
    | some keyValues => .findingSession keyValues (s.findSession keyValues.userId keyValues.sessionId)

def checkSession (key : SessionKey) (session : AuthSession) : ValidateSessionKey.Stage :=
  match verifyPasswordAgainstHashes p key.sessionSecret session.sessionId session.secretHash with
  | none => .refused serverError none
  | some false => .refused invalidKey none
  | some true =>
    if isRevoked now session then .refused invalidKey none
    else if session.expireTimeMs ≤ now then .refused sessionExpired none
    else .findingUser session (s.findUser key.userId)

def checkUser (session : AuthSession) (user : AuthUser) : ValidateSessionKey.Stage :=
  if revokesGranted user session then .refused invalidKey none
  else if positiveTime user.banTimeMs then .refused userIsBanned user.banReason
  else .accepted session.userId session.sessionId user.allSessionRevokeTimeMs

def resumeValidateSessionKey : ValidateSessionKey.Stage → Option ValidateSessionKey.Stage
  | .findingSession _ none => some (.refused invalidKey none)
  | .findingSession key (some session) => some (checkSession p s now key session)
  | .findingUser _ none => some (.refused invalidKey none)
  | .findingUser session (some user) => some (checkUser session user)
  | .accepted _ _ _ => none
  | .refused _ _ => none

end ValidateSessionKey

theorem beginValidateSessionKey_cases {p : Platform} {s : MemoryAuthStore} (key : JsString) :
    (∃ failure banReason, beginValidateSessionKey p s key = .refused failure banReason) ∨
      ∃ keyValues, beginValidateSessionKey p s key =
        .findingSession keyValues (s.findSession keyValues.userId keyValues.sessionId) := by
  unfold beginValidateSessionKey
  split
  · exact .inl ⟨_, _, rfl⟩
  · split
    · exact .inl ⟨_, _, rfl⟩
    · exact .inr ⟨_, rfl⟩

theorem checkSession_cases {p : Platform} {s : MemoryAuthStore} {now : Int} (key : SessionKey)
    (session : AuthSession) : (∃ failure banReason, checkSession p s now key session = .refused failure banReason) ∨
      isRevoked now session = false ∧
        checkSession p s now key session = .findingUser session (s.findUser key.userId) := by
  unfold checkSession
  split
  · exact .inl ⟨_, _, rfl⟩
  · exact .inl ⟨_, _, rfl⟩
  · split
    · exact .inl ⟨_, _, rfl⟩
    · split
      · exact .inl ⟨_, _, rfl⟩
      · rename_i notRevoked _
        exact .inr ⟨Bool.not_eq_true _ |>.mp notRevoked, rfl⟩

theorem checkUser_cases (session : AuthSession) (user : AuthUser) :
    (∃ failure banReason, checkUser session user = .refused failure banReason) ∨ revokesGranted user session = false ∧
        checkUser session user = .accepted session.userId session.sessionId user.allSessionRevokeTimeMs := by
  unfold checkUser
  split
  · exact .inl ⟨_, _, rfl⟩
  · split
    · exact .inl ⟨_, _, rfl⟩
    · rename_i notRevoked _
      exact .inr ⟨Bool.not_eq_true _ |>.mp notRevoked, rfl⟩

/-- A handler that validates a session key before all else. -/
inductive Guarded (Stage : Type) where
  | validating (validation : ValidateSessionKey.Stage)
  | entered (stage : Stage)
  | failed (failure : Failure) (banReason : Option JsString)
  deriving DecidableEq, Repr

/-- `enter` is what follows when the key was accepted for a user and a session. Until then `unchanged` is
what the handler does. -/
def resumeGuarded {Stage Effect : Type} (p : Platform) (s : MemoryAuthStore) (now : Int)
    (unchanged : Effect) (enter : JsString → JsString → Guarded Stage)
    (resume : Stage → Option (Effect × Guarded Stage)) : Guarded Stage → Option (Effect × Guarded Stage)
  | .validating (.accepted userId sessionId _) => some (unchanged, enter userId sessionId)
  | .validating (.refused failure banReason) => some (unchanged, .failed failure banReason)
  | .validating validation =>
    (resumeValidateSessionKey p s now validation).map (fun next => (unchanged, .validating next))
  | .entered stage => resume stage
  | .failed _ _ => none

theorem resumeGuarded_cases {Stage Effect : Type} {p : Platform} {s : MemoryAuthStore} {now : Int}
    {unchanged : Effect} {enter : JsString → JsString → Guarded Stage}
    {resume : Stage → Option (Effect × Guarded Stage)} {stage : Guarded Stage}
    {next : Effect × Guarded Stage} (ran : resumeGuarded p s now unchanged enter resume stage = some next) :
    (∃ userId sessionId time, stage = .validating (.accepted userId sessionId time) ∧
        next = (unchanged, enter userId sessionId)) ∨
      (∃ failure banReason, stage = .validating (.refused failure banReason) ∧
        next = (unchanged, .failed failure banReason)) ∨
      (∃ validation later, stage = .validating validation ∧
        resumeValidateSessionKey p s now validation = some later ∧ next = (unchanged, .validating later)) ∨
      ∃ inner, stage = .entered inner ∧ resume inner = some next := by
  have running : ∀ validation, stage = .validating validation → (resumeValidateSessionKey p s now validation).map
        (fun later => (unchanged, (Guarded.validating later : Guarded Stage))) = some next →
      ∃ validation later, stage = .validating validation ∧
        resumeValidateSessionKey p s now validation = some later ∧ next = (unchanged, .validating later) := by
    intro validation same made
    have ⟨later, resumed, equal⟩ := Option.map_eq_some_iff.mp made
    exact ⟨validation, later, same, resumed, equal.symm⟩
  cases stage with
  | validating validation =>
    cases validation with
    | accepted userId sessionId time => exact .inl ⟨_, _, _, rfl, (Option.some.inj ran).symm⟩
    | refused failure banReason => exact .inr (.inl ⟨_, _, rfl, (Option.some.inj ran).symm⟩)
    | findingSession key found => exact .inr (.inr (.inl (running _ rfl ran)))
    | findingUser session found => exact .inr (.inr (.inl (running _ rfl ran)))
  | entered inner => exact .inr (.inr (.inr ⟨inner, rfl, ran⟩))
  | failed failure banReason => cases ran

/-! ### Revoking and replacing sessions -/

structure RevokeSessionRequest where
  userId : JsString
  sessionId : JsString
  sessionKey : JsString
  deriving DecidableEq, Repr

structure RevokeAllSessionsRequest where
  userId : JsString
  sessionKey : JsString
  deriving DecidableEq, Repr

structure ReplaceSessionRequest where
  sessionKey : JsString
  ipAddress : JsString
  deriving DecidableEq, Repr

namespace RevokeSession

inductive Stage where
  | findingSession (found : Option AuthSession)
  | saving
  | succeeded
  deriving DecidableEq, Repr

end RevokeSession

namespace RevokeAllSessions

/-- `time` is the time that is set, and `User` what stands for a user that was found. -/
inductive Stage (User : Type) where
  | findingUser (time : Int) (found : Option User)
  | saving
  | succeeded
  deriving DecidableEq, Repr

end RevokeAllSessions

namespace ReplaceSession

inductive Stage where
  | findingSession (newSession : AuthSession) (newSessionSecret : JsString) (found : Option AuthSession)
  | savingOld (newSession : AuthSession) (newSessionSecret : JsString)
  | savingNew (newSession : AuthSession) (newSessionSecret : JsString)
  | succeeded (newSession : AuthSession) (newSessionSecret : JsString)
  deriving DecidableEq, Repr

end ReplaceSession

section Sessions

variable (p : Platform) (s : MemoryAuthStore) (now : Int)

def beginRevokeSession (request : RevokeSessionRequest) : Guarded RevokeSession.Stage :=
  if request.userId = [] then .failed unacceptableUserId none
  else if request.sessionId = [] then .failed unacceptableSessionId none
  else if request.sessionKey = [] then .failed unacceptableSessionKey none
  else .validating (beginValidateSessionKey p s request.sessionKey)

def resumeRevokeSession (request : RevokeSessionRequest) :
    Guarded RevokeSession.Stage → Option (MemoryAuthStore × Guarded RevokeSession.Stage) :=
  resumeGuarded p s now s
    (fun userId _ =>
      if userId ≠ request.userId then .failed invalidKey none
      else .entered (.findingSession (s.findSession request.userId request.sessionId)))
    (fun stage =>
      match stage with
      | .findingSession none => some (s, .failed sessionNotFound none)
      | .findingSession (some session) =>
        if truthyTime session.revokeTimeMs then some (s, .failed sessionAlreadyRevoked none)
        else some (s.saveSession { session with revokeTimeMs := some now }, .entered .saving)
      | .saving => some (s, .entered .succeeded)
      | .succeeded => none)

theorem beginRevokeSession_cases (request : RevokeSessionRequest) :
    (∃ failure, beginRevokeSession p s request = .failed failure none) ∨
      beginRevokeSession p s request = .validating (beginValidateSessionKey p s request.sessionKey) := by
  unfold beginRevokeSession
  split
  · exact .inl ⟨_, rfl⟩
  · split
    · exact .inl ⟨_, rfl⟩
    · split
      · exact .inl ⟨_, rfl⟩
      · exact .inr rfl

def beginRevokeAllSessions {User : Type} (request : RevokeAllSessionsRequest) :
    Guarded (RevokeAllSessions.Stage User) :=
  if request.userId = [] then .failed unacceptableUserId none
  else if request.sessionKey = [] then .failed unacceptableSessionKey none
  else .validating (beginValidateSessionKey p s request.sessionKey)

theorem beginRevokeAllSessions_cases {User : Type} (request : RevokeAllSessionsRequest) :
    (∃ failure, @beginRevokeAllSessions p s User request = .failed failure none) ∨
      @beginRevokeAllSessions p s User request =
        .validating (beginValidateSessionKey p s request.sessionKey) := by
  unfold beginRevokeAllSessions
  split
  · exact .inl ⟨_, rfl⟩
  · split
    · exact .inl ⟨_, rfl⟩
    · exact .inr rfl

/-- With `setRevokeAllSessionsTimeForUser`, which saves the user that it has found with the time. -/
def resumeRevokeAllSessions {User Effect : Type} (request : RevokeAllSessionsRequest)
    (findUser : JsString → Option User) (unchanged : Effect) (saveUser : User → Int → Effect) :
    Guarded (RevokeAllSessions.Stage User) → Option (Effect × Guarded (RevokeAllSessions.Stage User)) :=
  resumeGuarded p s now unchanged
    (fun userId _ =>
      if userId ≠ request.userId then .failed invalidKey none
      else .entered (.findingUser now (findUser request.userId)))
    (fun stage =>
      match stage with
      | .findingUser _ none => some (unchanged, .entered .saving)
      | .findingUser time (some user) => some (saveUser user time, .entered .saving)
      | .saving => some (unchanged, .entered .succeeded)
      | .succeeded => none)

def beginReplaceSession (request : ReplaceSessionRequest) : Guarded ReplaceSession.Stage :=
  if request.sessionKey = [] then .failed unacceptableReplacedKey none
  else if request.ipAddress = [] then .failed unacceptableIpAddress none
  else .validating (beginValidateSessionKey p s request.sessionKey)

theorem beginReplaceSession_cases (request : ReplaceSessionRequest) :
    (∃ failure, beginReplaceSession p s request = .failed failure none) ∨
      beginReplaceSession p s request = .validating (beginValidateSessionKey p s request.sessionKey) := by
  unfold beginReplaceSession
  split
  · exact .inl ⟨_, rfl⟩
  · split
    · exact .inl ⟨_, rfl⟩
    · exact .inr rfl

/-- The session that comes in the place of another. -/
def replacement (request : ReplaceSessionRequest) (userId sessionId : JsString) (bytes : SessionBytes)
    (secretHash : JsString) : AuthSession where
  userId := userId
  sessionId := bytes.sessionId
  requestId := none
  secretHash := secretHash
  grantedTimeMs := now
  revokeTimeMs := none
  expireTimeMs := now + sessionLifetimeMs
  previousSessionId := some sessionId
  nextSessionId := none
  ipAddress := request.ipAddress

def enterReplaceSession (request : ReplaceSessionRequest) (bytes : SessionBytes)
    (userId sessionId : JsString) : Guarded ReplaceSession.Stage :=
  match p.hashPasswordWithSalt bytes.sessionSecret bytes.sessionId with
  | none => .failed serverErrorOcurred none
  | some secretHash =>
    .entered (.findingSession (replacement now request userId sessionId bytes secretHash)
      bytes.sessionSecret (s.findSession userId sessionId))

def resumeReplaceSession (request : ReplaceSessionRequest) (bytes : SessionBytes) :
    Guarded ReplaceSession.Stage → Option (MemoryAuthStore × Guarded ReplaceSession.Stage) :=
  resumeGuarded p s now s (enterReplaceSession p s now request bytes)
    (fun stage =>
      match stage with
      | .findingSession _ _ none => some (s, .failed invalidKey none)
      | .findingSession newSession newSessionSecret (some session) =>
        some
          (s.saveSession
            { session with
              nextSessionId := some newSession.sessionId
              revokeTimeMs := some newSession.grantedTimeMs },
            .entered (.savingOld newSession newSessionSecret))
      | .savingOld newSession newSessionSecret =>
        some (s.saveSession newSession, .entered (.savingNew newSession newSessionSecret))
      | .savingNew newSession newSessionSecret =>
        some (s, .entered (.succeeded newSession newSessionSecret))
      | .succeeded _ _ => none)

end Sessions

end CasualOS.AuthController
