import CasualOS.KeyCreation
import CasualOS.AuthController
import CasualOS.Lib.Paging

/-! The sessions of a user, listed page after page. -/

namespace CasualOS.SessionListing

open AuthController Paging
open JsString (lit)
open KeyCreation (pairing)

/-! ### Validation at one time -/

structure Validated where
  userId : JsString
  sessionId : JsString
  allSessionsRevokedTimeMs : Option Int
  deriving DecidableEq, Repr

section Validation

variable (p : Platform) (s : MemoryAuthStore) (now : Int)

def validateSessionKey (key : JsString) : Except (Failure × Option JsString) Validated :=
  if key = [] then .error (malformedSessionKey, none)
  else match parseV1SessionKey p key with
    | none => .error (malformedSessionKey, none)
    | some keyValues =>
      match s.findSession keyValues.userId keyValues.sessionId with
      | none => .error (invalidKey, none)
      | some session =>
        match verifyPasswordAgainstHashes p keyValues.sessionSecret session.sessionId
            session.secretHash with
        | none => .error (serverError, none)
        | some false => .error (invalidKey, none)
        | some true =>
          if isRevoked now session then .error (invalidKey, none)
          else if session.expireTimeMs ≤ now then .error (sessionExpired, none)
          else match s.findUser keyValues.userId with
            | none => .error (invalidKey, none)
            | some user =>
              if revokesGranted user session then .error (invalidKey, none)
              else if positiveTime user.banTimeMs then .error (userIsBanned, user.banReason)
              else .ok ⟨session.userId, session.sessionId, user.allSessionRevokeTimeMs⟩

end Validation

/-! ### Listing -/

structure ListedSession where
  userId : JsString
  sessionId : JsString
  grantedTimeMs : Int
  expireTimeMs : Int
  revokeTimeMs : Option Int
  currentSession : Bool
  ipAddress : JsString
  nextSessionId : Option JsString
  deriving DecidableEq, Repr

structure ListSessionsRequest where
  userId : JsString
  expireTimeMs : Option Int
  sessionKey : JsString
  deriving DecidableEq, Repr

def orderedSessions (s : MemoryAuthStore) (userId : JsString) : List AuthSession :=
  (s.sessions.filter (fun session => session.userId = userId)).insertionSort
    (fun first second => second.expireTimeMs ≤ first.expireTimeMs)

/-- The `listSessions` of the store, which takes a time of zero for no time. -/
def storedSessions (s : MemoryAuthStore) (userId : JsString) (expireTimeMs : Option Int) : List AuthSession :=
  page AuthSession.expireTimeMs (fun time => time = 0) 10 (orderedSessions s userId) expireTimeMs

/-- A missing revoke time is `null`, which compares like zero. -/
def shownRevokeTime (allSessionsRevokedTimeMs : Option Int) (session : AuthSession) : Option Int :=
  if session.grantedTimeMs ≤ allSessionsRevokedTimeMs.getD 0 ∧ (truthyTime session.revokeTimeMs = false ∨
      allSessionsRevokedTimeMs.getD 0 < session.revokeTimeMs.getD 0) then allSessionsRevokedTimeMs
  else session.revokeTimeMs

def listedSession (validated : Validated) (session : AuthSession) : ListedSession where
  userId := session.userId
  sessionId := session.sessionId
  grantedTimeMs := session.grantedTimeMs
  expireTimeMs := session.expireTimeMs
  revokeTimeMs := shownRevokeTime validated.allSessionsRevokedTimeMs session
  currentSession := session.sessionId = validated.sessionId
  ipAddress := session.ipAddress
  nextSessionId := session.nextSessionId

section Listing

variable (p : Platform) (s : MemoryAuthStore)

def listSessions (now : Int) (request : ListSessionsRequest) :
    Except (Failure × Option JsString) (List ListedSession) :=
  if request.userId = [] then .error (unacceptableUserId, none)
  else if request.sessionKey = [] then .error (unacceptableSessionKey, none)
  else match validateSessionKey p s now request.sessionKey with
    | .error failure => .error failure
    | .ok validated =>
      if validated.userId = request.userId then
        .ok ((storedSessions s request.userId request.expireTimeMs).map (listedSession validated))
      else .error (invalidKey, none)

/-- What is listed from the call of a number on, each made at a time of its own with the expire time of the
session that was listed last, until nothing is listed. -/
inductive Yields (userId key : JsString) (time : Nat → Int) : Nat → Option Int → List ListedSession → Prop where
  | done {n : Nat} {after : Option Int} : listSessions p s (time n) ⟨userId, after, key⟩ = .ok [] →
      Yields userId key time n after []
  | page {n : Nat} {after : Option Int} {page rest : List ListedSession} {last : ListedSession} :
      listSessions p s (time n) ⟨userId, after, key⟩ = .ok page → page.getLast? = some last →
      Yields userId key time (n + 1) (some last.expireTimeMs) rest → Yields userId key time n after (page ++ rest)

/-- The key belongs to the session. -/
def IsKeyOf (key : JsString) (session : AuthSession) : Prop :=
  ∃ sessionSecret, parseV1SessionKey p key = some ⟨session.userId, session.sessionId, sessionSecret⟩ ∧
    verifyPasswordAgainstHashes p sessionSecret session.sessionId session.secretHash = some true

/-- No two sessions of a user share an id. -/
def DistinctIds : Prop :=
  s.sessions.Pairwise (fun first second => ¬ (first.userId = second.userId ∧ first.sessionId = second.sessionId))

def revokedWithAll (session : AuthSession) : Bool :=
  (s.findUser session.userId).any (fun user => revokesGranted user session)

/-- The session's own revoke time has come, or else it has none and has not both been revoked with all others
and expired. -/
def TimesAgree (now : Int) (session : AuthSession) : Prop :=
  isRevoked now session = true ∨
    if revokedWithAll s session = true then now < session.expireTimeMs else session.revokeTimeMs = none

end Listing

/-! ### Pages -/

section Pages

variable {p : Platform} {s : MemoryAuthStore}

theorem descending_ordered (s : MemoryAuthStore) (userId : JsString) :
    Descending AuthSession.expireTimeMs (orderedSessions s userId) := List.pairwise_insertionSort _ _

theorem perm_ordered (s : MemoryAuthStore) (userId : JsString) :
    (orderedSessions s userId).Perm (s.sessions.filter (fun session => session.userId = userId)) :=
  List.perm_insertionSort _ _

theorem mem_of_stored {userId : JsString} {after : Option Int} {session : AuthSession}
    (member : session ∈ storedSessions s userId after) : session ∈ s.sessions ∧ session.userId = userId := by
  have ordered : session ∈ orderedSessions s userId := mem_of_below (List.mem_of_mem_take member)
  have ⟨there, same⟩ := List.mem_filter.mp ((perm_ordered s userId).mem_iff.mp ordered)
  exact ⟨there, of_decide_eq_true same⟩

theorem listSessions_ok {now : Int} {request : ListSessionsRequest} {page : List ListedSession}
    (listed : listSessions p s now request = .ok page) :
    ∃ validated, validateSessionKey p s now request.sessionKey = .ok validated ∧ validated.userId = request.userId ∧
      page = (storedSessions s request.userId request.expireTimeMs).map (listedSession validated) := by
  unfold listSessions at listed
  split at listed
  · cases listed
  · split at listed
    · cases listed
    · cases valid : validateSessionKey p s now request.sessionKey with
      | error failure => rw [valid] at listed; cases listed
      | ok validated =>
        rw [valid] at listed
        simp only at listed
        split at listed
        · rename_i same
          exact ⟨validated, rfl, same, (Except.ok.inj listed).symm⟩
        · cases listed

theorem map_listed (validated : Validated) (sessions : List AuthSession) :
    (sessions.map (listedSession validated)).map ListedSession.sessionId = sessions.map AuthSession.sessionId := by
  rw [List.map_map]
  rfl

theorem getLast_listed {validated : Validated} {sessions : List AuthSession} {last : ListedSession}
    (ends : (sessions.map (listedSession validated)).getLast? = some last) :
    ∃ session, sessions.getLast? = some session ∧ last.expireTimeMs = session.expireTimeMs := by
  rw [List.getLast?_map] at ends
  have ⟨session, found, same⟩ := Option.map_eq_some_iff.mp ends
  exact ⟨session, found, same ▸ rfl⟩

abbrev ReadsSessions (s : MemoryAuthStore) (userId : JsString) : Option Int → List AuthSession → Prop :=
  Reads AuthSession.expireTimeMs (fun time => time = 0) 10 (orderedSessions s userId)

theorem reads_of_yields {userId key : JsString} {time : Nat → Int} {n : Nat} {after : Option Int}
    {listed : List ListedSession} (yields : Yields p s userId key time n after listed) :
    ∃ sessions, ReadsSessions s userId after sessions ∧
      listed.map ListedSession.sessionId = sessions.map AuthSession.sessionId := by
  induction yields with
  | done answered =>
    have ⟨_, _, _, nothing⟩ := listSessions_ok answered
    exact ⟨[], .done (List.map_eq_nil_iff.mp nothing.symm), rfl⟩
  | page answered ends _ ih =>
    have ⟨validated, _, _, shown⟩ := listSessions_ok answered
    subst shown
    have ⟨session, found, same⟩ := getLast_listed ends
    have ⟨sessions, reads, ids⟩ := ih
    rw [same] at reads
    exact ⟨_, .page found reads, by rw [List.map_append, List.map_append, map_listed, ids]; rfl⟩

theorem yields_of_reads {userId key : JsString} {time : Nat → Int}
    (answered : ∀ n after, ∃ page, listSessions p s (time n) ⟨userId, after, key⟩ = .ok page)
    {after : Option Int} {sessions : List AuthSession} (reads : ReadsSessions s userId after sessions) (n : Nat) :
    ∃ listed, Yields p s userId key time n after listed ∧
      listed.map ListedSession.sessionId = sessions.map AuthSession.sessionId := by
  induction reads generalizing n with
  | @done after empty =>
    have ⟨page, answer⟩ := answered n after
    have ⟨_, _, _, shown⟩ := listSessions_ok answer
    simp only [storedSessions, empty, List.map_nil] at shown
    exact ⟨[], .done (shown ▸ answer), rfl⟩
  | @page after last rest ends _ ih =>
    have ⟨page, answer⟩ := answered n after
    have ⟨validated, _, _, shown⟩ := listSessions_ok answer
    have ⟨listed, yields, ids⟩ := ih (n + 1)
    have final : page.getLast? = some (listedSession validated last) := by
      rw [shown, List.getLast?_map]
      exact congrArg (Option.map (listedSession validated)) ends
    refine ⟨page ++ listed, .page answer final yields, ?_⟩
    rw [List.map_append, List.map_append, ids, shown, map_listed]
    rfl

end Pages

/-! ### Revoke times -/

section Truth

variable {p : Platform} {s : MemoryAuthStore} {now : Int} {session : AuthSession} {user : AuthUser}

theorem findSession_of_member (distinct : DistinctIds s) (member : session ∈ s.sessions) :
    s.findSession session.userId session.sessionId = some session := by
  unfold MemoryAuthStore.findSession
  unfold DistinctIds at distinct
  generalize s.sessions = sessions at distinct member
  induction sessions with
  | nil => cases member
  | cons first rest ih =>
    have ⟨apart, others⟩ := List.pairwise_cons.mp distinct
    rcases List.mem_cons.mp member with same | later
    · subst same
      simp
    · rw [List.find?_cons_of_neg (by simpa using apart session later)]
      exact ih others later

theorem invalid_iff {key : JsString} (stored : s.findSession session.userId session.sessionId = some session)
    (found : s.findUser session.userId = some user) (isKey : IsKeyOf p key session) :
    validateSessionKey p s now key = .error (invalidKey, none) ↔
      isRevoked now session = true ∨ (now < session.expireTimeMs ∧ revokesGranted user session = true) := by
  have ⟨sessionSecret, parsed, verified⟩ := isKey
  have filled : key ≠ [] := by
    rintro rfl
    cases parsed
  have expired : (sessionExpired, (none : Option JsString)) ≠ (invalidKey, none) := by decide
  unfold validateSessionKey
  rw [if_neg filled]
  simp only [parsed, stored, verified]
  cases revoked : isRevoked now session with
  | true => simp
  | false =>
    by_cases late : session.expireTimeMs ≤ now
    · simp [late, expired, not_lt.mpr late]
    · cases granted : revokesGranted user session with
      | true => simp [late, found, granted, not_le.mp late]
      | false =>
        cases banned : positiveTime user.banTimeMs with
        | true =>
          have apart : userIsBanned ≠ invalidKey := by decide
          have differ : ∀ reason, (userIsBanned, reason) ≠ (invalidKey, (none : Option JsString)) :=
            fun reason same => apart (congrArg Prod.fst same)
          simp [late, found, granted, banned, differ]
        | false => simp [late, found, granted, banned]

theorem shown_iff (granted : 0 < session.grantedTimeMs) :
    shownRevokeTime user.allSessionRevokeTimeMs session = none ↔
      revokesGranted user session = false ∧ session.revokeTimeMs = none := by
  unfold shownRevokeTime revokesGranted
  cases all : user.allSessionRevokeTimeMs with
  | none =>
    rw [if_neg (fun both => absurd both.1 (not_le.mpr granted))]
    simp
  | some time =>
    by_cases covered : session.grantedTimeMs ≤ time
    · have shown : session.revokeTimeMs = none → truthyTime session.revokeTimeMs = false := by
        intro nothing
        rw [nothing]
        rfl
      simp only [Option.getD_some, covered, true_and, decide_true, Bool.true_eq_false, false_and, iff_false]
      split
      · simp
      · rename_i own
        exact fun nothing => own (.inl (shown nothing))
    · simp [covered]

theorem truthful_iff {key : JsString} (stored : s.findSession session.userId session.sessionId = some session)
    (found : s.findUser session.userId = some user) (isKey : IsKeyOf p key session)
    (granted : 0 < session.grantedTimeMs) :
    (shownRevokeTime user.allSessionRevokeTimeMs session = none ↔
      validateSessionKey p s now key ≠ .error (invalidKey, none)) ↔ TimesAgree s now session := by
  rw [shown_iff granted, Ne, invalid_iff stored found isKey]
  have covered : revokedWithAll s session = revokesGranted user session := by
    rw [revokedWithAll, found]
    rfl
  unfold TimesAgree
  rw [covered]
  cases revoked : isRevoked now session with
  | true =>
    have own : session.revokeTimeMs ≠ none := by
      intro nothing
      simp [isRevoked, nothing] at revoked
    simp [own]
  | false =>
    cases revokesGranted user session with
    | true => simp
    | false => simp

theorem validated_user {key : JsString} {validated : Validated}
    (valid : validateSessionKey p s now key = .ok validated) :
    ∃ user, s.findUser validated.userId = some user ∧
      validated.allSessionsRevokedTimeMs = user.allSessionRevokeTimeMs := by
  unfold validateSessionKey at valid
  split at valid
  · cases valid
  · split at valid
    · cases valid
    · rename_i keyValues _
      cases stored : s.findSession keyValues.userId keyValues.sessionId with
      | none => rw [stored] at valid; cases valid
      | some session =>
        have same := (MemoryAuthStore.findSession_member stored).2.1
        simp only [stored] at valid
        split at valid
        · cases valid
        · cases valid
        · split at valid
          · cases valid
          · split at valid
            · cases valid
            · cases found : s.findUser keyValues.userId with
              | none => simp only [found] at valid; cases valid
              | some user =>
                simp only [found] at valid
                split at valid
                · cases valid
                · split at valid
                  · cases valid
                  · rw [← Except.ok.inj valid]
                    exact ⟨user, same ▸ found, rfl⟩

end Truth

/-! ### Sessions that are listed -/

theorem listSessions_answered {p : Platform} {s : MemoryAuthStore} {now : Int} {key : JsString}
    {validated : Validated} (valid : validateSessionKey p s now key = .ok validated)
    (named : validated.userId ≠ []) (after : Option Int) :
    ∃ page, listSessions p s now ⟨validated.userId, after, key⟩ = .ok page := by
  have filled : key ≠ [] := by
    rintro rfl
    cases valid
  refine ⟨(storedSessions s validated.userId after).map (listedSession validated), ?_⟩
  rw [listSessions, if_neg named, if_neg filled]
  simp only [valid, if_true]

/-! ### Sessions that expire at the same time -/

def signedOut : AuthUser where
  id := lit ['u']
  name := none
  email := some (lit ['e'])
  phoneNumber := none
  avatarUrl := none
  avatarPortraitUrl := none
  openAiKey := none
  stripeCustomerId := none
  subscriptionStatus := none
  subscriptionId := none
  allSessionRevokeTimeMs := some 5
  currentLoginRequestId := none
  banTimeMs := none
  banReason := none

def sessionOf (sessionId : JsString) (grantedTimeMs expireTimeMs : Int) : AuthSession where
  userId := lit ['u']
  sessionId := sessionId
  secretHash := (KeyCreation.pairing.hashHighEntropyPasswordWithSalt (lit ['x']) sessionId).getD []
  grantedTimeMs := grantedTimeMs
  expireTimeMs := expireTimeMs
  revokeTimeMs := none
  requestId := none
  previousSessionId := none
  nextSessionId := none
  ipAddress := []

def idOf (letter : Char) : JsString := lit ['A', 'A', 'A', letter]

def keyOf (session : AuthSession) : JsString :=
  returnedKey pairing session (lit ['x'])

def current : AuthSession := sessionOf (idOf 'A') 6 100

/-- The session that is used, and others that were granted before and expire together. -/
def crowded : MemoryAuthStore where
  users := [signedOut]
  loginRequests := []
  sessions :=
    current :: (['B', 'C', 'D', 'E', 'F', 'G', 'H', 'I', 'J', 'K'].map (fun letter => sessionOf (idOf letter) 1 10))

def quiet : MemoryAuthStore where
  users := [signedOut]
  loginRequests := []
  sessions := [current, sessionOf (idOf 'B') 7 50]

theorem current_validated (s : MemoryAuthStore) (now : Int) (kind : (s = crowded ∨ s = quiet) ∧ now = 20) :
    validateSessionKey pairing s now (keyOf current) =
      .ok ⟨lit ['u'], idOf 'A', some 5⟩ := by
  obtain ⟨rfl | rfl, rfl⟩ := kind <;> decide +kernel

theorem quiet_cuts : Cuts AuthSession.expireTimeMs (fun time => time = 0) 10 (orderedSessions quiet (lit ['u'])) := by
  have ordered : orderedSessions quiet (lit ['u']) = [current, sessionOf (idOf 'B') 7 50] := by
    decide +kernel
  rw [ordered]
  intro i last found atPage
  have bound := (List.getElem?_eq_some_iff.mp found).1
  have final : i = 1 := by
    rcases atPage with multiple | final
    · have short : i < 2 := bound
      omega
    · have long : i + 1 = 2 := final
      omega
  subst final
  have same : sessionOf (idOf 'B') 7 50 = last := Option.some.inj found
  subst same
  exact ⟨by decide, fun next beyond => by cases beyond⟩

end CasualOS.SessionListing
