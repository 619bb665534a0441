import CasualOS.AuthController
import CasualOS.KeyCreation
import CasualOS.Lib.Handlers

/-! Logins that are completed at the same time. -/

namespace CasualOS.LoginCodes

open Run Handlers AuthController
open Option (some map_eq_some_iff or_none)
open JsString (lit)
open KeyCreation (pairing)

/-- History: when a code was compared, with which login request, whether it was right, and the user that
was found then. -/
structure Check where
  index : Nat
  time : Int
  matched : Bool
  user : Option AuthUser
  deriving DecidableEq, Repr

/-- Besides the logins, the current login request of a user may change at any time. -/
inductive Request where
  | completeLogin (request : CompleteLoginRequest)
  | setCurrentLoginRequest (userId requestId : JsString)
  deriving DecidableEq, Repr

inductive Call where
  | completeLogin (request : CompleteLoginRequest) (stage : CompleteLogin.Stage) (check : Option Check)
  | setCurrentLoginRequest (userId requestId : JsString) (done : Bool)
  deriving DecidableEq, Repr

abbrev Server := State MemoryAuthStore Call

section Steps

variable (p : Platform)

def begin (s : Server) : Request → Call
  | .completeLogin request => .completeLogin request (beginCompleteLogin s.store request) none
  | .setCurrentLoginRequest userId requestId => .setCurrentLoginRequest userId requestId false

/-- The comparison that a call makes as it goes on. -/
def compared (s : MemoryAuthStore) (now : Int) (request : CompleteLoginRequest) :
    CompleteLogin.Stage → Option Check
  | .findingRequest (some index) =>
    (s.loginRequests[index]?).bind (fun loginRequest =>
      if admits now request loginRequest then
        some
          { index := index
            time := now
            matched := codeMatches p request loginRequest
            user := s.findUser loginRequest.userId }
      else none)
  | _ => none

def resume (s : Server) (call : Call) (bytes : SessionBytes) : Option (MemoryAuthStore × Call) :=
  match call with
  | .completeLogin request stage check =>
    (resumeCompleteLogin p s.store s.now request bytes stage).map (fun next =>
      (next.1, .completeLogin request next.2 (check.or (compared p s.store s.now request stage))))
  | .setCurrentLoginRequest userId requestId done =>
    if done then none
    else some (s.store.setCurrentLoginRequest userId requestId,
      .setCurrentLoginRequest userId requestId true)

abbrev step : Server → Label Request SessionBytes → Option Server := Handlers.step begin (resume p)

end Steps

/-! ### What is asked -/

def isCurrent (found : Option AuthUser) (requestId : JsString) : Bool :=
  found.any (fun user => user.currentLoginRequestId = some requestId)

namespace Call

def waits (index : Nat) (requestId : JsString) : Call → Bool
  | completeLogin _ (.findingUser other found) _ => other = index ∧ isCurrent found requestId
  | _ => false

def comparedWrong (userId requestId : JsString) : Call → Bool
  | completeLogin request _ (some check) =>
    request.userId = userId ∧ request.requestId = requestId ∧ ¬ check.matched
  | _ => false

def saves (session : AuthSession) : Call → Bool
  | completeLogin _ (.saving other _) _ | completeLogin _ (.succeeded other _) _ => other = session
  | _ => false

end Call

/-- A right code for the current login request passes only while no other one waits to mark it. -/
def Alone (p : Platform) (s : Server) : Label Request SessionBytes → Prop
  | .resume i _ =>
    ∀ request index check loginRequest,
      s.calls[i]? = some (.completeLogin request (.findingRequest (some index)) check) →
      s.store.loginRequests[index]? = some loginRequest → admits s.now request loginRequest →
      codeMatches p request loginRequest →
      isCurrent (s.store.findUser loginRequest.userId) loginRequest.requestId →
      ∀ call ∈ s.calls, call.waits index loginRequest.requestId = false
  | _ => True

/-- The code was right, and was given in time and from the address of the request. -/
structure Presented (p : Platform) (request : CompleteLoginRequest) (loginRequest : AuthLoginRequest)
    (time : Int) : Prop where
  inTime : time < loginRequest.expireTimeMs
  ipAddress : loginRequest.ipAddress = request.ipAddress
  code : codeMatches p request loginRequest = true

/-- The session was saved for a call whose code was compared and right while its login request, one of
`start`, was the user's current one. -/
def Granted (p : Platform) (start : MemoryAuthStore) (session : AuthSession) (call : Call) : Prop :=
  call.saves session = true ∧ ∃ request stage index time user loginRequest,
    call = .completeLogin request stage (some ⟨index, time, true, some user⟩) ∧
    start.loginRequests[index]? = some loginRequest ∧ loginRequest.requestId = request.requestId ∧
    loginRequest.userId = request.userId ∧ session.requestId = some request.requestId ∧
    session.userId = request.userId ∧ Presented p request loginRequest time ∧
    user.currentLoginRequestId = some request.requestId

structure UsedOnce (p : Platform) (start : MemoryAuthStore) (s : Server) : Prop where
  once : ∀ (i j : Nat) (request other : CompleteLoginRequest) session sessionSecret check session'
    sessionSecret' check',
    s.calls[i]? = some (.completeLogin request (.succeeded session sessionSecret) check) →
    s.calls[j]? = some (.completeLogin other (.succeeded session' sessionSecret') check') →
    request.userId = other.userId → request.requestId = other.requestId → i = j
  granted : ∀ session ∈ s.store.sessions, session ∈ start.sessions ∨
    ∃ call ∈ s.calls, Granted p start session call
  wrong : ∀ userId requestId, s.calls.countP (Call.comparedWrong userId requestId) ≤ maxLoginRequestAttempts

/-! ### What every run keeps -/

namespace Call

/-- The code was compared with this login request and was wrong. -/
def wrong (index : Nat) : Call → Bool
  | completeLogin _ _ (some check) => check.index = index ∧ ¬ check.matched
  | _ => false

def marked (index : Nat) : Call → Bool
  | completeLogin _ (.marking _ _) (some check) | completeLogin _ (.saving _ _) (some check)
  | completeLogin _ (.succeeded _ _) (some check) => check.index = index
  | _ => false

def passed (index : Nat) (requestId : JsString) (call : Call) : Bool :=
  call.waits index requestId || call.marked index

end Call

section Kept

variable (p : Platform) (start : MemoryAuthStore)

/-- What is known of a call whose code was compared with the login request that it names. -/
structure Compared (request : CompleteLoginRequest) (loginRequest : AuthLoginRequest) (check : Check) :
    Prop where
  found : start.findLoginRequest request.userId request.requestId = some check.index
  there : start.loginRequests[check.index]? = some loginRequest
  matched : check.matched = true → Presented p request loginRequest check.time

/-- What is known of a call from its stage. -/
def Sound : Call → Prop
  | .setCurrentLoginRequest _ _ _ => True
  | .completeLogin request stage check =>
    (∀ known, check = some known → ∃ loginRequest, Compared p start request loginRequest known) ∧
    match stage with
    | .findingRequest found =>
      check = none ∧ found = start.findLoginRequest request.userId request.requestId
    | .counting | .failed _ => True
    | .findingUser index found => ∃ time, check = some ⟨index, time, true, found⟩
    | .marking session _ | .saving session _ | .succeeded session _ =>
      ∃ index time user, check = some ⟨index, time, true, some user⟩ ∧
        user.currentLoginRequestId = some request.requestId ∧
        session.userId = request.userId ∧ session.requestId = some request.requestId

structure Inv (s : Server) : Prop where
  positive : 0 < s.now
  issued : s.store.loginRequests.map AuthLoginRequest.issued =
    start.loginRequests.map AuthLoginRequest.issued
  sound : ∀ (i : Nat) (call : Call), s.calls[i]? = some call → Sound p start call
  attempts : ∀ (index : Nat) (loginRequest : AuthLoginRequest),
    s.store.loginRequests[index]? = some loginRequest →
      s.calls.countP (Call.wrong index) ≤ loginRequest.attemptCount ∧
      (s.calls.countP (Call.wrong index) = 0 ∨ loginRequest.attemptCount ≤ maxLoginRequestAttempts)
  completed : ∀ (i : Nat) (call : Call) (index : Nat) (loginRequest : AuthLoginRequest),
    s.calls[i]? = some call → call.marked index = true →
      s.store.loginRequests[index]? = some loginRequest → positiveTime loginRequest.completedTimeMs = true
  once : ∀ (i j : Nat) (call other : Call) (index : Nat) (loginRequest : AuthLoginRequest),
    s.store.loginRequests[index]? = some loginRequest → s.calls[i]? = some call → s.calls[j]? = some other →
      call.passed index loginRequest.requestId = true → other.passed index loginRequest.requestId = true → i = j
  granted : ∀ session ∈ s.store.sessions, session ∈ start.sessions ∨ ∃ call ∈ s.calls, call.saves session

end Kept

theorem lookup_issued {l other : List AuthLoginRequest} {index : Nat} {loginRequest : AuthLoginRequest}
    (same : l.map AuthLoginRequest.issued = other.map AuthLoginRequest.issued)
    (there : l[index]? = some loginRequest) :
    ∃ found, other[index]? = some found ∧ found.issued = loginRequest.issued := by
  have mapped : (l.map AuthLoginRequest.issued)[index]? = some loginRequest.issued := by
    rw [List.getElem?_map, there]
    rfl
  rw [same, List.getElem?_map] at mapped
  exact map_eq_some_iff.mp mapped

section Keeping

variable {p : Platform} {start : MemoryAuthStore} {s : Server} {i : Nat} {call next : Call}
  {store : MemoryAuthStore}

/-- What a call that goes on may do to the login requests, to the sessions and to itself. -/
structure Follows (p : Platform) (start : MemoryAuthStore) (s : Server) (i : Nat) (call next : Call)
    (store : MemoryAuthStore) : Prop where
  issued : store.loginRequests.map AuthLoginRequest.issued =
    s.store.loginRequests.map AuthLoginRequest.issued
  sound : Sound p start next
  attempts : ∀ (index : Nat) (old new : AuthLoginRequest), s.store.loginRequests[index]? = some old →
    store.loginRequests[index]? = some new →
      (positiveTime old.completedTimeMs = true → positiveTime new.completedTimeMs = true) ∧
      ((new.attemptCount = old.attemptCount ∧ next.wrong index = call.wrong index) ∨
        (new.attemptCount = old.attemptCount + 1 ∧ old.attemptCount < maxLoginRequestAttempts ∧
          call.wrong index = false))
  marked : ∀ index, next.marked index = true → call.marked index = true ∨
    ∀ new, store.loginRequests[index]? = some new → positiveTime new.completedTimeMs = true
  passed : ∀ index loginRequest, s.store.loginRequests[index]? = some loginRequest →
    next.passed index loginRequest.requestId = true → call.passed index loginRequest.requestId = true ∨
      ∀ (j : Nat) (other : Call), s.calls[j]? = some other →
        other.passed index loginRequest.requestId = false
  granted : ∀ session ∈ store.sessions, session ∈ s.store.sessions ∨ next.saves session = true
  saves : ∀ session, call.saves session = true → next.saves session = true

theorem Inv.follow (inv : Inv p start s) (here : s.calls[i]? = some call)
    (follows : Follows p start s i call next store) :
    Inv p start { s with store := store, calls := s.calls.set i next } where
  positive := inv.positive
  issued := follows.issued.trans inv.issued
  sound j other there := by
    rcases getElem?_set_cases here there with ⟨_, new⟩ | ⟨_, old⟩
    · exact new ▸ follows.sound
    · exact inv.sound j other old
  attempts index new there := by
    have ⟨old, before, _⟩ := lookup_issued follows.issued there
    have ⟨atLeast, atMost⟩ := inv.attempts index old before
    have counted := @countP_set _ _ (Call.wrong index) call next i here
    rcases (follows.attempts index old new before there).2 with ⟨same, kind⟩ | ⟨more, few, kind⟩
    · rw [kind] at counted
      simp only
      rw [same]
      omega
    · rw [kind] at counted
      have one : (if next.wrong index = true then 1 else 0) ≤ 1 := by split <;> omega
      simp only [Bool.false_eq_true, if_false] at counted ⊢
      omega
  completed j other index new there mark found := by
    have ⟨old, before, _⟩ := lookup_issued follows.issued found
    have kept := (follows.attempts index old new before found).1
    rcases getElem?_set_cases here there with ⟨_, same⟩ | ⟨_, unchanged⟩
    · rw [same] at mark
      rcases follows.marked index mark with already | done
      · exact kept (inv.completed i call index old here already before)
      · exact done new found
    · exact kept (inv.completed j other index old unchanged mark before)
  once j k first second index new found one two passedOne passedTwo := by
    have ⟨old, before, issued⟩ := lookup_issued follows.issued found
    have ids : new.requestId = old.requestId := (AuthLoginRequest.issued_fields issued).2.1.symm
    rw [ids] at passedOne passedTwo
    rcases getElem?_set_cases here one with ⟨ones, sameOne⟩ | ⟨_, oldOne⟩
    · rcases getElem?_set_cases here two with ⟨twos, _⟩ | ⟨_, oldTwo⟩
      · exact ones.trans twos.symm
      · rw [sameOne] at passedOne
        rcases follows.passed index old before passedOne with already | none
        · exact ones.trans (inv.once i k call second index old before here oldTwo already passedTwo)
        · cases passedTwo.symm.trans (none k second oldTwo)
    · rcases getElem?_set_cases here two with ⟨twos, sameTwo⟩ | ⟨_, oldTwo⟩
      · rw [sameTwo] at passedTwo
        rcases follows.passed index old before passedTwo with already | none
        · exact (inv.once j i first call index old before oldOne here passedOne already).trans twos.symm
        · cases passedOne.symm.trans (none j first oldOne)
      · exact inv.once j k first second index old before oldOne oldTwo passedOne passedTwo
  granted session member := by
    rcases follows.granted session member with old | new
    · rcases inv.granted session old with first | ⟨other, inside, saved⟩
      · exact .inl first
      · have ⟨j, there⟩ := List.getElem?_of_mem inside
        by_cases same : j = i
        · rw [same, here] at there
          rw [← some.inj there] at saved
          exact .inr ⟨next, List.mem_of_getElem? (getElem?_set_here here), follows.saves session saved⟩
        · exact .inr ⟨other, List.mem_of_getElem? (getElem?_set_there here same there), saved⟩
    · exact .inr ⟨next, List.mem_of_getElem? (getElem?_set_here here), new⟩

theorem Follows.quiet (requests : store.loginRequests = s.store.loginRequests) (sound : Sound p start next)
    (wrong : ∀ index, next.wrong index = call.wrong index)
    (marked : ∀ index, next.marked index = true → call.marked index = true)
    (waits : ∀ index requestId, next.waits index requestId = true → call.waits index requestId = true)
    (granted : ∀ session ∈ store.sessions, session ∈ s.store.sessions ∨ next.saves session = true)
    (saves : ∀ session, call.saves session = true → next.saves session = true) :
    Follows p start s i call next store where
  issued := by rw [requests]
  sound := sound
  attempts index old new before after := by
    rw [requests, before] at after
    rw [← some.inj after]
    exact ⟨id, .inl ⟨rfl, wrong index⟩⟩
  marked index mark := .inl (marked index mark)
  passed index loginRequest _ passed := by
    refine .inl ?_
    rcases Bool.or_eq_true_iff.mp passed with waiting | mark
    · exact Bool.or_eq_true_iff.mpr (.inl (waits index _ waiting))
    · exact Bool.or_eq_true_iff.mpr (.inr (marked index mark))
  granted := granted
  saves := saves

variable {request : CompleteLoginRequest} {check : Option Check}

theorem Inv.found (inv : Inv p start s) (userId requestId : JsString) :
    s.store.findLoginRequest userId requestId = start.findLoginRequest userId requestId :=
  MemoryAuthStore.findLoginRequest_congr inv.issued userId requestId

theorem follows_failed {stage : CompleteLogin.Stage} (failure : Failure)
    (known : ∀ known, check = some known → ∃ loginRequest, Compared p start request loginRequest known)
    (unsaved : ∀ session, Call.saves session (.completeLogin request stage check) = false) :
    Follows p start s i (.completeLogin request stage check)
      (.completeLogin request (.failed failure) check) s.store := by
  refine Follows.quiet rfl ⟨known, trivial⟩ (fun index => ?_) (fun index mark => ?_)
    (fun index requestId wait => ?_) (fun session member => .inl member) (fun session saved => ?_)
  · cases check <;> rfl
  · cases mark
  · cases wait
  · cases saved.symm.trans (unsaved session)

variable {loginRequest : AuthLoginRequest} {index : Nat} {session : AuthSession}

theorem matched_issued {other : AuthLoginRequest} (same : other.issued = loginRequest.issued) :
    codeMatches p request other = codeMatches p request loginRequest := by
  have ⟨_, ids, hashes, _, _⟩ := AuthLoginRequest.issued_fields same
  rw [codeMatches, codeMatches, ids, hashes]

theorem compared_known (inv : Inv p start s)
    (found : start.findLoginRequest request.userId request.requestId = some index)
    (there : s.store.loginRequests[index]? = some loginRequest)
    (admitted : admits s.now request loginRequest = true) (user : Option AuthUser) :
    ∃ issued, Compared p start request issued ⟨index, s.now, codeMatches p request loginRequest, user⟩ := by
  have ⟨issued, here, same⟩ := lookup_issued inv.issued there
  have ⟨inTime, _, _, ipAddress⟩ := of_decide_eq_true admitted
  have ⟨_, _, _, expires, address⟩ := AuthLoginRequest.issued_fields same
  refine ⟨issued, found, here, fun matched => ⟨?_, ?_, ?_⟩⟩
  · rw [expires]
    exact inTime
  · rw [address]
    exact ipAddress
  · rw [matched_issued same]
    exact matched

theorem ids_of_found {userId requestId : JsString} (found : store.findLoginRequest userId requestId = some index)
    (there : store.loginRequests[index]? = some loginRequest) :
    loginRequest.userId = userId ∧ loginRequest.requestId = requestId := by
  have ⟨inside, same, _⟩ := List.findIdx?_eq_some_iff_getElem.mp found
  rw [List.getElem?_eq_getElem inside] at there
  rw [← some.inj there]
  exact of_decide_eq_true same

theorem follows_check (inv : Inv p start s)
    (found : start.findLoginRequest request.userId request.requestId = some index)
    (there : s.store.loginRequests[index]? = some loginRequest)
    (alone : admits s.now request loginRequest → codeMatches p request loginRequest →
      isCurrent (s.store.findUser loginRequest.userId) loginRequest.requestId →
      ∀ call ∈ s.calls, call.waits index loginRequest.requestId = false) :
    Follows p start s i (.completeLogin request (.findingRequest (some index)) none)
      (.completeLogin request (checkLoginRequest p s.store s.now request loginRequest index).2
        (compared p s.store s.now request (.findingRequest (some index))))
      (checkLoginRequest p s.store s.now request loginRequest index).1 := by
  have ids : s.store.findLoginRequest loginRequest.userId loginRequest.requestId = some index := by
    have found' := (inv.found _ _).trans found
    have ⟨user, id⟩ := ids_of_found found' there
    rw [user, id]
    exact found'
  simp only [compared, there, Option.bind_some]
  unfold checkLoginRequest
  by_cases admitted : admits s.now request loginRequest = true
  · have known := compared_known inv found there admitted (s.store.findUser loginRequest.userId)
    rw [if_neg (not_not.mpr admitted), if_pos admitted]
    have ⟨_, fresh, few, _⟩ := of_decide_eq_true admitted
    by_cases matched : codeMatches p request loginRequest = true
    · rw [if_pos matched]
      rw [matched] at known ⊢
      refine ⟨rfl, ⟨fun other same => some.inj same ▸ known, s.now, rfl⟩, ?_, ?_, ?_,
        fun session member => .inl member, fun session saved => by cases saved⟩
      · intro other old new before after
        rw [before] at after
        rw [← some.inj after]
        exact ⟨id, .inl ⟨rfl, by simp [Call.wrong]⟩⟩
      · intro other mark
        cases mark
      · intro other found' before passed
        refine .inr (fun j call inside => ?_)
        rcases Bool.or_eq_true_iff.mp passed with waiting | mark
        · have ⟨same, current⟩ := of_decide_eq_true waiting
          rw [← same, there] at before
          rw [← same, ← some.inj before]
          rw [← some.inj before] at current
          have unmarked : call.marked index = false := by
            cases mark : call.marked index with
            | false => rfl
            | true => exact absurd (inv.completed j call index loginRequest inside mark there) fresh
          rw [Call.passed, unmarked, Bool.or_false]
          exact alone admitted matched current call (List.mem_of_getElem? inside)
        · cases mark
    · rw [if_neg matched]
      have wrong : codeMatches p request loginRequest = false := by simpa using matched
      rw [wrong] at known ⊢
      refine ⟨MemoryAuthStore.issued_increment _ _, ⟨fun other same => some.inj same ▸ known, trivial⟩,
        ?_, ?_, ?_, fun session member => ?_, fun session saved => by cases saved⟩
      · intro other old new before after
        simp only [MemoryAuthStore.incrementLoginRequestAttemptCount, ids] at after
        rw [List.getElem?_modify, before] at after
        by_cases same : index = other
        · rw [same] at there
          rw [some.inj (before.symm.trans there)] at after ⊢
          simp only [if_pos same] at after
          rw [← some.inj after]
          exact ⟨id, .inr ⟨rfl, few, rfl⟩⟩
        · simp only [if_neg same] at after
          rw [← some.inj after]
          exact ⟨id, .inl ⟨rfl, by simp [Call.wrong, same]⟩⟩
      · intro other mark
        cases mark
      · intro other found' before passed
        cases passed
      · rw [MemoryAuthStore.sessions_increment] at member
        exact .inl member
  · rw [if_pos admitted, if_neg admitted]
    exact follows_failed invalidRequest (fun other same => by cases same) (fun session => rfl)

theorem follows_mark (inv : Inv p start s) {time : Int} {found : Option AuthUser} (bytes : SessionBytes)
    (known : ∃ issued, Compared p start request issued ⟨index, time, true, found⟩)
    (there : s.store.loginRequests[index]? = some loginRequest) :
    Follows p start s i (.completeLogin request (.findingUser index found) (some ⟨index, time, true, found⟩))
      (.completeLogin request (completeLoginRequest p s.store s.now request loginRequest bytes found).2
        (some ⟨index, time, true, found⟩))
      (completeLoginRequest p s.store s.now request loginRequest bytes found).1 := by
  have all : ∀ other, some (Check.mk index time true found) = some other →
      ∃ issued, Compared p start request issued other := fun other same => some.inj same ▸ known
  have failed : ∀ failure, Follows p start s i
      (.completeLogin request (.findingUser index found) (some ⟨index, time, true, found⟩))
      (.completeLogin request (.failed failure) (some ⟨index, time, true, found⟩)) s.store :=
    fun failure => follows_failed failure all (fun session => rfl)
  have ⟨issued, compared⟩ := known
  have foundHere := (inv.found request.userId request.requestId).trans compared.found
  have ⟨userIds, requestIds⟩ := ids_of_found foundHere there
  unfold completeLoginRequest
  cases found with
  | none => exact failed invalidRequest
  | some user =>
    simp only
    by_cases current : user.currentLoginRequestId = some loginRequest.requestId
    · rw [if_neg (not_not.mpr current)]
      cases p.hashHighEntropyPasswordWithSalt bytes.sessionSecret bytes.sessionId with
      | none => exact failed serverError
      | some secretHash =>
        simp only
        cases mark : s.store.markLoginRequestComplete loginRequest.userId loginRequest.requestId s.now with
        | none => exact failed serverError
        | some store =>
          have completed : store.loginRequests = s.store.loginRequests.modify index
              (fun lr => { lr with completedTimeMs := some s.now }) := by
            rw [userIds, requestIds] at mark
            have ⟨place, placed, same⟩ := map_eq_some_iff.mp mark
            rw [← some.inj (foundHere.symm.trans placed)] at same
            rw [← same]
          refine ⟨MemoryAuthStore.issued_mark mark, ⟨all, index, time, user, rfl, ?_, userIds, ?_⟩, ?_,
            ?_, ?_, fun session member => .inl ?_, fun session saved => by cases saved⟩
          · rw [← requestIds]
            exact current
          · exact congrArg some requestIds
          · intro other old new before after
            rw [completed, List.getElem?_modify, before] at after
            refine ⟨fun positive => ?_, .inl ⟨?_, rfl⟩⟩
            · by_cases same : index = other
              · simp only [if_pos same] at after
                rw [← some.inj after]
                exact decide_eq_true inv.positive
              · simp only [if_neg same] at after
                rw [← some.inj after]
                exact positive
            · by_cases same : index = other
              · simp only [if_pos same] at after
                rw [← some.inj after]
              · simp only [if_neg same] at after
                rw [← some.inj after]
          · intro other marks
            refine .inr (fun new after => ?_)
            have same : index = other := of_decide_eq_true marks
            rw [completed, List.getElem?_modify, ← same, there] at after
            simp only [if_true] at after
            rw [← some.inj after]
            exact decide_eq_true inv.positive
          · intro other old before passed
            refine .inl (Bool.or_eq_true_iff.mpr (.inl ?_))
            rcases Bool.or_eq_true_iff.mp passed with waiting | marks
            · cases waiting
            · have same : index = other := of_decide_eq_true marks
              rw [← same, there] at before
              rw [← some.inj before]
              refine decide_eq_true ⟨same, ?_⟩
              exact decide_eq_true current
          · rw [← MemoryAuthStore.sessions_mark mark]
            exact member
    · rw [if_pos current]
      exact failed invalidRequest

theorem Inv.completeLogin (inv : Inv p start s) {stage : CompleteLogin.Stage} (bytes : SessionBytes)
    (here : s.calls[i]? = some (.completeLogin request stage check))
    (made : MemoryAuthStore × CompleteLogin.Stage)
    (resumed : resumeCompleteLogin p s.store s.now request bytes stage = some made)
    (alone : Alone p s (.resume i bytes)) :
    Follows p start s i (.completeLogin request stage check)
      (.completeLogin request made.2 (check.or (compared p s.store s.now request stage))) made.1 := by
  have ⟨known, rest⟩ := inv.sound i _ here
  cases stage with
  | findingRequest found =>
    have ⟨unchecked, foundAt⟩ := rest
    subst unchecked
    rw [Option.none_or]
    cases found with
    | none =>
      rw [← some.inj resumed]
      exact follows_failed invalidRequest known (fun session => rfl)
    | some index =>
      have ⟨loginRequest, there, same⟩ := map_eq_some_iff.mp resumed
      rw [← same]
      exact follows_check inv foundAt.symm there (alone request index none loginRequest here there)
  | counting =>
    have unchanged : check.or (compared p s.store s.now request .counting) = check := or_none
    rw [← some.inj resumed, unchanged]
    exact follows_failed invalidCode known (fun session => rfl)
  | findingUser index found =>
    have ⟨time, checked⟩ := rest
    have ⟨loginRequest, there, same⟩ := map_eq_some_iff.mp resumed
    have unchanged : check.or (compared p s.store s.now request (.findingUser index found)) = check :=
      or_none
    rw [← same, unchanged, checked]
    exact follows_mark inv bytes (known _ checked) there
  | marking session sessionSecret =>
    have unchanged : check.or (compared p s.store s.now request (.marking session sessionSecret)) = check :=
      or_none
    rw [← some.inj resumed, unchanged]
    refine Follows.quiet (MemoryAuthStore.loginRequests_saveSession session) ⟨known, rest⟩
      (fun index => ?_) (fun index mark => ?_) (fun index requestId wait => ?_)
      (fun other member => ?_) (fun other saved => ?_)
    · cases check <;> rfl
    · cases check with
      | none => cases mark
      | some check => exact mark
    · cases wait
    · rcases MemoryAuthStore.mem_saveSession member with new | old
      · exact .inr (decide_eq_true new.symm)
      · exact .inl old
    · cases saved
  | saving session sessionSecret =>
    have unchanged : check.or (compared p s.store s.now request (.saving session sessionSecret)) = check :=
      or_none
    rw [← some.inj resumed, unchanged]
    refine Follows.quiet rfl ⟨known, rest⟩ (fun index => ?_) (fun index mark => ?_)
      (fun index requestId wait => ?_) (fun other member => .inl member) (fun other saved => saved)
    · cases check <;> rfl
    · cases check with
      | none => cases mark
      | some check => exact mark
    · cases wait
  | succeeded session sessionSecret => cases resumed
  | failed failure => cases resumed

theorem Inv.resumed (inv : Inv p start s) (bytes : SessionBytes) (here : s.calls[i]? = some call)
    (made : MemoryAuthStore × Call) (resumed : resume p s call bytes = some made)
    (alone : Alone p s (.resume i bytes)) :
    Inv p start { s with store := made.1, calls := s.calls.set i made.2 } := by
  cases call with
  | completeLogin request stage check =>
    have ⟨next, ran, same⟩ := map_eq_some_iff.mp resumed
    rw [← same]
    exact inv.follow here (inv.completeLogin bytes here next ran alone)
  | setCurrentLoginRequest userId requestId done =>
    cases done with
    | true => cases resumed
    | false =>
      rw [← some.inj resumed]
      refine inv.follow here (Follows.quiet (MemoryAuthStore.loginRequests_setCurrentLoginRequest _ _)
        trivial (fun _ => rfl) (fun _ mark => mark) (fun _ _ wait => wait)
        (fun session member => .inl ?_) (fun _ saved => saved))
      rw [MemoryAuthStore.sessions_setCurrentLoginRequest] at member
      exact member

theorem begin_idle (request : Request) : (∀ index, Call.wrong index (begin s request) = false) ∧
      (∀ index, Call.marked index (begin s request) = false) ∧
      ∀ index requestId, Call.passed index requestId (begin s request) = false := by
  cases request with
  | setCurrentLoginRequest userId requestId => exact ⟨fun _ => rfl, fun _ => rfl, fun _ _ => rfl⟩
  | completeLogin request =>
    unfold begin
    simp only
    rcases beginCompleteLogin_cases s.store request with ⟨failure, failed⟩ | finding
    · rw [failed]
      exact ⟨fun _ => rfl, fun _ => rfl, fun _ _ => rfl⟩
    · rw [finding]
      exact ⟨fun _ => rfl, fun _ => rfl, fun _ _ => rfl⟩

theorem begin_sound (inv : Inv p start s) (request : Request) : Sound p start (begin s request) := by
  cases request with
  | setCurrentLoginRequest userId requestId => trivial
  | completeLogin request =>
    have unknown : ∀ known : Check, none = some known →
        ∃ loginRequest, Compared p start request loginRequest known := fun known same => by cases same
    unfold begin
    simp only
    rcases beginCompleteLogin_cases s.store request with ⟨failure, failed⟩ | finding
    · rw [failed]
      exact ⟨unknown, trivial⟩
    · rw [finding]
      exact ⟨unknown, rfl, inv.found _ _⟩

theorem Inv.begin (inv : Inv p start s) (request : Request) :
    Inv p start { s with calls := s.calls ++ [LoginCodes.begin s request] } where
  positive := inv.positive
  issued := inv.issued
  sound j other there := by
    rcases getElem?_append_cases there with old | ⟨_, new⟩
    · exact inv.sound j other old
    · exact new ▸ begin_sound inv request
  attempts index loginRequest there := by
    simp only
    rw [List.countP_append, List.countP_singleton, (begin_idle request).1]
    exact inv.attempts index loginRequest there
  completed j other index loginRequest there mark found := by
    rcases getElem?_append_cases there with old | ⟨_, new⟩
    · exact inv.completed j other index loginRequest old mark found
    · rw [new, (begin_idle request).2.1] at mark
      cases mark
  once j k first second index loginRequest found one two passedOne passedTwo := by
    rcases getElem?_append_cases one with oldOne | ⟨_, new⟩
    · rcases getElem?_append_cases two with oldTwo | ⟨_, new⟩
      · exact inv.once j k first second index loginRequest found oldOne oldTwo passedOne passedTwo
      · rw [new, (begin_idle request).2.2] at passedTwo
        cases passedTwo
    · rw [new, (begin_idle request).2.2] at passedOne
      cases passedOne
  granted session member := by
    rcases inv.granted session member with first | ⟨other, inside, saved⟩
    · exact .inl first
    · exact .inr ⟨other, List.mem_append_left _ inside, saved⟩

theorem Inv.pass (inv : Inv p start s) {later : Int} (past : s.now ≤ later) : Inv p start { s with now := later } where
  positive := lt_of_lt_of_le inv.positive past
  issued := inv.issued
  sound := inv.sound
  attempts := inv.attempts
  completed := inv.completed
  once := inv.once
  granted := inv.granted

theorem Inv.idle {now : Int} (positive : 0 < now) : Inv p start (Handlers.idle start now) where
  positive := positive
  issued := rfl
  sound j other there := by cases there
  attempts index loginRequest there := ⟨Nat.zero_le _, .inl rfl⟩
  completed j other index loginRequest there := by cases there
  once j k first second index loginRequest found one := by cases one
  granted session member := .inl member

theorem Inv.reached {now : Int} (positive : 0 < now)
    (reached : Reaches (step p) (Alone p) (Handlers.idle start now) s) : Inv p start s :=
  invariant (Inv.idle positive) (fun _ request inv _ => inv.begin request)
    (fun _ _ bytes _ made inv alone here ran => inv.resumed bytes here made ran alone)
    (fun _ _ inv past => inv.pass past) reached

/-! ### What follows -/

theorem Inv.grants (inv : Inv p start s) (inside : call ∈ s.calls)
    (saved : call.saves session = true) : Granted p start session call := by
  have ⟨j, there⟩ := List.getElem?_of_mem inside
  refine ⟨saved, ?_⟩
  cases call with
  | setCurrentLoginRequest userId requestId done => cases saved
  | completeLogin request stage check =>
    have ⟨known, rest⟩ := inv.sound j _ there
    have held : ∀ other sessionSecret, stage = .saving other sessionSecret ∨
        stage = .succeeded other sessionSecret → other = session := by
      intro other sessionSecret stages
      rcases stages with same | same
      · rw [same] at saved
        exact of_decide_eq_true saved
      · rw [same] at saved
        exact of_decide_eq_true saved
    have granted : ∀ other : AuthSession, other = session →
        (∃ index time user, check = some ⟨index, time, true, some user⟩ ∧
          user.currentLoginRequestId = some request.requestId ∧ other.userId = request.userId ∧
          other.requestId = some request.requestId) →
        ∃ request' stage' index time user loginRequest, Call.completeLogin request stage check =
            .completeLogin request' stage' (some ⟨index, time, true, some user⟩) ∧
          start.loginRequests[index]? = some loginRequest ∧
          loginRequest.requestId = request'.requestId ∧ loginRequest.userId = request'.userId ∧
          session.requestId = some request'.requestId ∧ session.userId = request'.userId ∧
          Presented p request' loginRequest time ∧
          user.currentLoginRequestId = some request'.requestId := by
      intro other same ⟨index, time, user, checked, current, userId, requestId⟩
      have ⟨loginRequest, compared⟩ := known _ checked
      have ⟨userIds, requestIds⟩ := ids_of_found compared.found compared.there
      rw [same] at userId requestId
      exact ⟨request, stage, index, time, user, loginRequest, by rw [checked], compared.there, requestIds,
        userIds, requestId, userId, compared.matched rfl, current⟩
    cases stage with
    | saving other sessionSecret =>
      exact granted other (held other sessionSecret (.inl rfl)) rest
    | succeeded other sessionSecret =>
      exact granted other (held other sessionSecret (.inr rfl)) rest
    | findingRequest found => cases saved
    | counting => cases saved
    | findingUser index found => cases saved
    | marking other sessionSecret => cases saved
    | failed failure => cases saved

theorem Inv.marks (inv : Inv p start s) {sessionSecret : JsString}
    (here : s.calls[i]? = some (.completeLogin request (.succeeded session sessionSecret) check)) :
    ∃ index, start.findLoginRequest request.userId request.requestId = some index ∧
      (∃ loginRequest, s.store.loginRequests[index]? = some loginRequest) ∧
      Call.marked index (.completeLogin request (.succeeded session sessionSecret) check) = true := by
  have ⟨known, index, time, user, checked, _⟩ := inv.sound i _ here
  have ⟨issued, compared⟩ := known _ checked
  have ⟨loginRequest, there, _⟩ := lookup_issued inv.issued.symm compared.there
  refine ⟨index, compared.found, ⟨loginRequest, there⟩, ?_⟩
  rw [checked]
  exact decide_eq_true rfl

theorem Inv.once_only (inv : Inv p start s) {j : Nat} {other : CompleteLoginRequest}
    {session' : AuthSession} {sessionSecret sessionSecret' : JsString} {check' : Option Check}
    (one : s.calls[i]? = some (.completeLogin request (.succeeded session sessionSecret) check))
    (two : s.calls[j]? = some (.completeLogin other (.succeeded session' sessionSecret') check'))
    (users : request.userId = other.userId) (requests : request.requestId = other.requestId) : i = j := by
  have ⟨index, found, ⟨loginRequest, there⟩, markOne⟩ := inv.marks one
  have ⟨index', found', _, markTwo⟩ := inv.marks two
  rw [users, requests] at found
  have same : index' = index := some.inj (found'.symm.trans found)
  rw [same] at markTwo
  exact inv.once i j _ _ index loginRequest there one two (Bool.or_eq_true_iff.mpr (.inr markOne))
    (Bool.or_eq_true_iff.mpr (.inr markTwo))

theorem Inv.few_wrong (inv : Inv p start s) (userId requestId : JsString) :
    s.calls.countP (Call.comparedWrong userId requestId) ≤ maxLoginRequestAttempts := by
  have indexed : ∀ call ∈ s.calls, Call.comparedWrong userId requestId call = true →
      ∃ index loginRequest, start.findLoginRequest userId requestId = some index ∧
        s.store.loginRequests[index]? = some loginRequest ∧ Call.wrong index call = true := by
    intro call inside wrong
    have ⟨j, there⟩ := List.getElem?_of_mem inside
    cases call with
    | setCurrentLoginRequest userId requestId done => cases wrong
    | completeLogin request stage check =>
      cases check with
      | none => cases wrong
      | some check =>
        have ⟨issued, compared⟩ := (inv.sound j _ there).1 check rfl
        have ⟨loginRequest, here, _⟩ := lookup_issued inv.issued.symm compared.there
        have ⟨users, requests, unmatched⟩ := of_decide_eq_true wrong
        have found := compared.found
        rw [users, requests] at found
        exact ⟨check.index, loginRequest, found, here, decide_eq_true ⟨rfl, unmatched⟩⟩
  by_cases none : s.calls.countP (Call.comparedWrong userId requestId) = 0
  · rw [none]
    exact Nat.zero_le _
  · have ⟨call, inside, wrong⟩ := List.countP_pos_iff.mp (Nat.pos_of_ne_zero none)
    have ⟨index, loginRequest, found, there, _⟩ := indexed call inside wrong
    have fewer : s.calls.countP (Call.comparedWrong userId requestId) ≤ s.calls.countP (Call.wrong index) := by
      refine List.countP_mono_left (fun other member wrongs => ?_)
      have ⟨index', _, found', _, counted⟩ := indexed other member wrongs
      rw [some.inj (found.symm.trans found')]
      exact counted
    have ⟨atLeast, atMost⟩ := inv.attempts index loginRequest there
    omega

end Keeping

/-- While no other right code waits, one login at most is completed with a code, sessions are saved for
those who presented it alone, and few wrong codes are compared. -/
theorem login_code_used_once (p : Platform) (start : MemoryAuthStore) (now : Int) (positive : 0 < now)
    (s : Server) (reached : Reaches (step p) (Alone p) (Handlers.idle start now) s) : UsedOnce p start s := by
  have inv := Inv.reached positive reached
  exact
    { once := fun i j request other session secret check session' secret' check' one two users requests =>
        inv.once_only one two users requests
      granted := fun session member =>
        (inv.granted session member).imp_right
          (fun ⟨call, inside, saved⟩ => ⟨call, inside, inv.grants inside saved⟩)
      wrong := inv.few_wrong }

/-! ### Two logins with one code -/

def requestBase64 : JsString := lit ['A', 'A', 'A', 'A']

def code : JsString := lit ['1', '2', '3', '4', '5', '6']

def account : AuthUser where
  id := lit ['u']
  name := none
  email := some (lit ['e'])
  phoneNumber := none
  avatarUrl := none
  avatarPortraitUrl := none
  openAiKey := none
  stripeCustomerId := none
  subscriptionStatus := none
  subscriptionId := none
  allSessionRevokeTimeMs := none
  currentLoginRequestId := some requestBase64
  banTimeMs := none
  banReason := none

def issuedRequest : AuthLoginRequest where
  userId := lit ['u']
  requestId := requestBase64
  secretHash := (KeyCreation.pairing.hashPasswordWithSalt code requestBase64).getD []
  requestTimeMs := 1
  expireTimeMs := 300001
  completedTimeMs := none
  attemptCount := 0
  address := lit ['e']
  addressType := .email
  ipAddress := lit ['i', 'p']

def withCode : CompleteLoginRequest where
  userId := lit ['u']
  requestId := requestBase64
  code := code
  ipAddress := lit ['i', 'p']

def issuedStore : MemoryAuthStore where
  users := [account]
  loginRequests := [issuedRequest]
  sessions := []

def firstBytes : SessionBytes where
  sessionId := lit ['A', 'Q', 'E', 'B']
  sessionSecret := lit ['A', 'g', 'I', 'C']

def secondBytes : SessionBytes where
  sessionId := lit ['A', 'w', 'M', 'D']
  sessionSecret := lit ['B', 'A', 'Q', 'E']

def together : List (Label Request SessionBytes) :=
  [.call (.completeLogin withCode), .call (.completeLogin withCode),
    .resume 0 firstBytes, .resume 1 secondBytes,
    .resume 0 firstBytes, .resume 1 secondBytes,
    .resume 0 firstBytes, .resume 1 secondBytes,
    .resume 0 firstBytes, .resume 1 secondBytes]

def succeededAt (s : Server) (i : Nat) : Bool :=
  match s.calls[i]? with
  | some (.completeLogin request (.succeeded _ _) _) => request = withCode
  | _ => false

theorem succeededAt_call {s : Server} {i : Nat} (ends : succeededAt s i = true) : ∃ session sessionSecret check,
      s.calls[i]? = some (.completeLogin withCode (.succeeded session sessionSecret) check) := by
  unfold succeededAt at ends
  split at ends
  · rename_i request session sessionSecret check here
    rw [of_decide_eq_true ends] at here
    exact ⟨session, sessionSecret, check, here⟩
  · cases ends

def oneAfterTheOther : List (Label Request SessionBytes) :=
  [.call (.completeLogin withCode), .resume 0 firstBytes, .resume 0 firstBytes, .resume 0 firstBytes,
    .resume 0 firstBytes, .call (.completeLogin withCode), .resume 1 secondBytes]

/-- No right code waits when another is compared. -/
def unwaited (s : Server) : Label Request SessionBytes → Bool
  | .resume i _ =>
    match s.calls[i]? with
    | some (.completeLogin _ (.findingRequest (some _)) _) =>
      s.calls.all (fun call =>
        match call with
        | .completeLogin _ (.findingUser _ _) _ => false
        | _ => true)
    | _ => true
  | _ => true

theorem unwaited_alone {p : Platform} {s : Server} {label : Label Request SessionBytes}
    (free : unwaited s label = true) : Alone p s label := by
  cases label with
  | call request => trivial
  | pass later => trivial
  | resume i bytes =>
    intro request index check loginRequest here _ _ _ _ call inside
    simp only [unwaited, here] at free
    have quiet := List.all_eq_true.mp free call inside
    cases call with
    | setCurrentLoginRequest userId requestId done => rfl
    | completeLogin other stage otherCheck =>
      cases stage with
      | findingUser place found => cases quiet
      | findingRequest found => rfl
      | counting => rfl
      | marking session sessionSecret => rfl
      | saving session sessionSecret => rfl
      | succeeded session sessionSecret => rfl
      | failed failure => rfl

theorem second_login_refused : ∃ s : Server,
    runAll (step pairing) (Handlers.idle issuedStore 1) oneAfterTheOther = some s ∧
      succeededAt s 0 = true ∧ succeededAt s 1 = false ∧ UsedOnce pairing issuedStore s := by
  have ran : (runAll (step pairing) (Handlers.idle issuedStore 1) oneAfterTheOther).any
      (fun s => succeededAt s 0 && ! succeededAt s 1) = true := by decide +kernel
  have ⟨s, last, ends⟩ := (Option.any_eq_true _ _).mp ran
  have free : AllAllowed (step pairing) (fun s label => unwaited s label = true)
      (Handlers.idle issuedStore 1) oneAfterTheOther := by decide +kernel
  have alone := free.weaken oneAfterTheOther (fun _ _ => unwaited_alone (p := pairing))
  have ⟨first, second⟩ := Bool.and_eq_true_iff.mp ends
  exact ⟨s, last, first, Bool.not_eq_true'  _ |>.mp second,
    login_code_used_once pairing issuedStore 1 (by decide) s
      (reaches_of_runAll oneAfterTheOther alone last)⟩

/-- Two calls with the right code both complete a login. -/
theorem code_used_twice : ∃ s : Server,
    runAll (step pairing) (Handlers.idle issuedStore 1) together = some s ∧
      ¬ UsedOnce pairing issuedStore s := by
  have ran : (runAll (step pairing) (Handlers.idle issuedStore 1) together).any
      (fun s => succeededAt s 0 && succeededAt s 1) = true := by decide +kernel
  have ⟨s, last, ends⟩ := (Option.any_eq_true _ _).mp ran
  have ⟨first, second⟩ := Bool.and_eq_true_iff.mp ends
  have ⟨session, sessionSecret, check, one⟩ := succeededAt_call first
  have ⟨session', sessionSecret', check', two⟩ := succeededAt_call second
  refine ⟨s, last, fun used => ?_⟩
  have same := used.once 0 1 withCode withCode session sessionSecret check session' sessionSecret' check'
    one two rfl rfl
  cases same

end CasualOS.LoginCodes
