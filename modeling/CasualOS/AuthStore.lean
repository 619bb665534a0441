import CasualOS.RecordKeys

/-! Users, login requests and sessions, and the store in memory that keeps them. -/

namespace CasualOS

inductive AddressType where
  | email
  | phone
  deriving DecidableEq, Repr

structure AuthUser where
  id : JsString
  name : Option JsString
  email : Option JsString
  phoneNumber : Option JsString
  avatarUrl : Option JsString
  avatarPortraitUrl : Option JsString
  openAiKey : Option JsString
  stripeCustomerId : Option JsString
  subscriptionStatus : Option JsString
  subscriptionId : Option JsString
  allSessionRevokeTimeMs : Option Int
  currentLoginRequestId : Option JsString
  banTimeMs : Option Int
  banReason : Option JsString
  deriving DecidableEq, Repr

structure AuthLoginRequest where
  userId : JsString
  requestId : JsString
  secretHash : JsString
  requestTimeMs : Int
  expireTimeMs : Int
  completedTimeMs : Option Int
  attemptCount : Nat
  address : JsString
  addressType : AddressType
  ipAddress : JsString
  deriving DecidableEq, Repr

def AuthLoginRequest.issued (loginRequest : AuthLoginRequest) : AuthLoginRequest :=
  { loginRequest with
    completedTimeMs := none
    attemptCount := 0 }

theorem AuthLoginRequest.issued_fields {first second : AuthLoginRequest} (same : first.issued = second.issued) :
    first.userId = second.userId ∧ first.requestId = second.requestId ∧
      first.secretHash = second.secretHash ∧ first.expireTimeMs = second.expireTimeMs ∧
      first.ipAddress = second.ipAddress := by
  have fields := AuthLoginRequest.mk.inj same
  exact ⟨fields.1, fields.2.1, fields.2.2.1, fields.2.2.2.2.1, fields.2.2.2.2.2.2.2.2.2⟩

structure AuthSession where
  userId : JsString
  sessionId : JsString
  secretHash : JsString
  grantedTimeMs : Int
  expireTimeMs : Int
  revokeTimeMs : Option Int
  requestId : Option JsString
  previousSessionId : Option JsString
  nextSessionId : Option JsString
  ipAddress : JsString
  deriving DecidableEq, Repr

/-- The session as it was granted, which does not change. -/
def AuthSession.issued (session : AuthSession) : AuthSession :=
  { session with
    revokeTimeMs := none
    nextSessionId := none }

/-- A time that is there and greater than zero, as `> 0` asks. -/
def positiveTime (time : Option Int) : Bool :=
  match time with
  | none => false
  | some time => time > 0

def truthyTime (time : Option Int) : Bool :=
  match time with
  | none => false
  | some time => time ≠ 0

structure MemoryAuthStore where
  users : List AuthUser
  loginRequests : List AuthLoginRequest
  sessions : List AuthSession
  deriving DecidableEq, Repr

namespace MemoryAuthStore

variable (s : MemoryAuthStore)

/-! ### Users -/

def findUser (userId : JsString) : Option AuthUser := s.users.find? (fun u => u.id = userId)

def hasAddress (address : JsString) (addressType : AddressType) (u : AuthUser) : Bool :=
  match addressType with
  | .email => u.email = some address
  | .phone => u.phoneNumber = some address

def findUserByAddress (address : JsString) (addressType : AddressType) : Option AuthUser :=
  s.users.find? (hasAddress address addressType)

/-- Writes over the first user of the same id, or adds one. -/
def saveUser (user : AuthUser) : MemoryAuthStore :=
  match s.users.findIdx? (fun u => u.id = user.id) with
  | some index => { s with users := s.users.set index user }
  | none => { s with users := s.users ++ [user] }

def sharesAddress (user other : AuthUser) : Bool :=
  (user.email.getD [] ≠ [] ∧ other.email = user.email) ∨
    (user.phoneNumber.getD [] ≠ [] ∧ other.phoneNumber = user.phoneNumber)

/-- Nothing where the code answers with `user_already_exists`. -/
def saveNewUser (user : AuthUser) : Option MemoryAuthStore :=
  if s.users.any (sharesAddress user) then none else some { s with users := s.users ++ [user] }

def setCurrentLoginRequest (userId requestId : JsString) : MemoryAuthStore :=
  match s.findUser userId with
  | none => s
  | some user => s.saveUser { user with currentLoginRequestId := some requestId }

/-! ### Login requests -/

/-- The place of the request, which stands for the object that is found. -/
def findLoginRequest (userId requestId : JsString) : Option Nat :=
  s.loginRequests.findIdx? (fun lr => lr.userId = userId ∧ lr.requestId = requestId)

def saveLoginRequest (request : AuthLoginRequest) : MemoryAuthStore :=
  match s.findLoginRequest request.userId request.requestId with
  | some index => { s with loginRequests := s.loginRequests.set index request }
  | none => { s with loginRequests := s.loginRequests ++ [request] }

/-- Nothing where the code throws. -/
def markLoginRequestComplete (userId requestId : JsString) (completedTimeMs : Int) :
    Option MemoryAuthStore :=
  (s.findLoginRequest userId requestId).map (fun index =>
    { s with
      loginRequests := s.loginRequests.modify index
        (fun lr => { lr with completedTimeMs := some completedTimeMs }) })

def incrementLoginRequestAttemptCount (userId requestId : JsString) : MemoryAuthStore :=
  match s.findLoginRequest userId requestId with
  | none => s
  | some index =>
    { s with
      loginRequests := s.loginRequests.modify index
        (fun lr => { lr with attemptCount := lr.attemptCount + 1 }) }

/-! ### Sessions -/

def findSession (userId sessionId : JsString) : Option AuthSession :=
  s.sessions.find? (fun session => session.userId = userId ∧ session.sessionId = sessionId)

def saveSession (session : AuthSession) : MemoryAuthStore :=
  match s.sessions.findIdx?
      (fun other => other.userId = session.userId ∧ other.sessionId = session.sessionId) with
  | some index => { s with sessions := s.sessions.set index session }
  | none => { s with sessions := s.sessions ++ [session] }

/-! ### What an operation writes, and what it leaves alone -/

variable {α : Type} {session : AuthSession} {completed : Int} {marked : MemoryAuthStore}
  {userId requestId : JsString}

/-- What is found after an entry was written over the first of its kind, or added. -/
theorem find?_saved {same asked : α → Bool} {a : α} (l : List α)
    (kind : ∀ other, same other = true → asked other = asked a)
    (only : asked a = true → ∀ other, asked other = true → same other = true) :
    (match l.findIdx? same with
      | some index => l.set index a
      | none => l ++ [a]).find? asked = if asked a then some a else l.find? asked := by
  induction l with
  | nil => cases here : asked a <;> simp [here]
  | cons first rest ih =>
    rw [List.findIdx?_cons]
    by_cases hit : same first = true
    · rw [if_pos hit]
      simp only [List.set_cons_zero, List.find?_cons]
      rw [kind first hit]
      cases asked a <;> simp
    · rw [if_neg hit]
      have moved : (match (rest.findIdx? same).map (fun i => i + 1) with
          | some index => (first :: rest).set index a
          | none => first :: rest ++ [a]) =
          first :: (match rest.findIdx? same with
            | some index => rest.set index a
            | none => rest ++ [a]) := by
        cases rest.findIdx? same <;> rfl
      rw [moved, List.find?_cons, List.find?_cons, ih]
      cases asks : asked first with
      | false => rfl
      | true =>
        cases mine : asked a with
        | false => rfl
        | true => exact absurd (only mine first asks) hit

theorem map_saved {β : Type} {g : α → β} {same : α → Bool} {a stored : α} (l : List α)
    (found : l.find? same = some stored) (equal : g a = g stored) :
    (match l.findIdx? same with
      | some index => l.set index a
      | none => l ++ [a]).map g = l.map g := by
  induction l with
  | nil => cases found
  | cons first rest ih =>
    rw [List.findIdx?_cons]
    rw [List.find?_cons] at found
    by_cases hit : same first = true
    · rw [if_pos hit]
      simp only [hit, Option.some.injEq] at found
      simp only [List.set_cons_zero, List.map_cons]
      rw [equal, found]
    · rw [if_neg hit]
      simp only [Bool.not_eq_true _ |>.mp hit] at found
      rw [List.map_cons, ← ih found]
      cases rest.findIdx? same <;> rfl

variable {s}

@[simp] theorem loginRequests_saveUser (user : AuthUser) : (s.saveUser user).loginRequests = s.loginRequests := by
  unfold saveUser
  split <;> rfl

@[simp] theorem sessions_saveUser (user : AuthUser) : (s.saveUser user).sessions = s.sessions := by
  unfold saveUser
  split <;> rfl

@[simp] theorem loginRequests_setCurrentLoginRequest (userId requestId : JsString) :
    (s.setCurrentLoginRequest userId requestId).loginRequests = s.loginRequests := by
  unfold setCurrentLoginRequest
  split
  · rfl
  · exact loginRequests_saveUser _

@[simp] theorem sessions_setCurrentLoginRequest (userId requestId : JsString) :
    (s.setCurrentLoginRequest userId requestId).sessions = s.sessions := by
  unfold setCurrentLoginRequest
  split
  · rfl
  · exact sessions_saveUser _

@[simp] theorem loginRequests_saveSession (session : AuthSession) :
    (s.saveSession session).loginRequests = s.loginRequests := by
  unfold saveSession
  split <;> rfl

@[simp] theorem users_saveSession (session : AuthSession) : (s.saveSession session).users = s.users := by
  unfold saveSession
  split <;> rfl

theorem mem_saveSession {other : AuthSession} (member : other ∈ (s.saveSession session).sessions) :
    other = session ∨ other ∈ s.sessions := by
  unfold saveSession at member
  split at member
  · exact (List.mem_or_eq_of_mem_set member).symm
  · rcases List.mem_append.mp member with old | new
    · exact .inr old
    · exact .inl (List.mem_singleton.mp new)

theorem map_modify_same {β : Type} {g : α → β} {change : α → α} (keeps : ∀ a, g (change a) = g a)
    (l : List α) (index : Nat) : (l.modify index change).map g = l.map g := by
  induction l generalizing index with
  | nil => cases index <;> rfl
  | cons a rest ih =>
    cases index with
    | zero => rw [List.modify_zero_cons, List.map_cons, List.map_cons, keeps]
    | succ index => rw [List.modify_succ_cons, List.map_cons, List.map_cons, ih]

theorem issued_mark (mark : s.markLoginRequestComplete userId requestId completed = some marked) :
    marked.loginRequests.map AuthLoginRequest.issued = s.loginRequests.map AuthLoginRequest.issued := by
  have ⟨index, _, same⟩ := Option.map_eq_some_iff.mp mark
  rw [← same]
  apply map_modify_same
  exact fun _ => rfl

theorem issued_increment (userId requestId : JsString) :
    (s.incrementLoginRequestAttemptCount userId requestId).loginRequests.map AuthLoginRequest.issued =
      s.loginRequests.map AuthLoginRequest.issued := by
  unfold incrementLoginRequestAttemptCount
  split
  · rfl
  · apply map_modify_same
    exact fun _ => rfl

/-- Where a login request is found does not change with its completion or its attempts. -/
theorem findLoginRequest_congr {other : MemoryAuthStore}
    (same : s.loginRequests.map AuthLoginRequest.issued = other.loginRequests.map AuthLoginRequest.issued)
    (userId requestId : JsString) :
    s.findLoginRequest userId requestId = other.findLoginRequest userId requestId := by
  have issued : ∀ l : List AuthLoginRequest, l.findIdx? (fun lr => lr.userId = userId ∧ lr.requestId = requestId) =
        (l.map AuthLoginRequest.issued).findIdx? (fun lr => lr.userId = userId ∧ lr.requestId = requestId) := by
    intro l
    rw [List.findIdx?_map]
    rfl
  unfold findLoginRequest
  rw [issued s.loginRequests, issued other.loginRequests, same]

theorem sessions_mark (mark : s.markLoginRequestComplete userId requestId completed = some marked) :
    marked.sessions = s.sessions := by
  have ⟨_, _, same⟩ := Option.map_eq_some_iff.mp mark
  rw [← same]

@[simp] theorem users_increment (userId requestId : JsString) :
    (s.incrementLoginRequestAttemptCount userId requestId).users = s.users := by
  unfold incrementLoginRequestAttemptCount
  split <;> rfl

theorem users_mark (mark : s.markLoginRequestComplete userId requestId completed = some marked) :
    marked.users = s.users := by
  have ⟨_, _, same⟩ := Option.map_eq_some_iff.mp mark
  rw [← same]

@[simp] theorem sessions_increment (userId requestId : JsString) :
    (s.incrementLoginRequestAttemptCount userId requestId).sessions = s.sessions := by
  unfold incrementLoginRequestAttemptCount
  split <;> rfl

theorem findUser_saveUser (user : AuthUser) (userId : JsString) :
    (s.saveUser user).findUser userId = if user.id = userId then some user else s.findUser userId := by
  have found := @find?_saved _ (fun u : AuthUser => decide (u.id = user.id))
    (fun u => decide (u.id = userId)) user s.users
    (fun other hit => by rw [of_decide_eq_true hit])
    (fun mine other hit => decide_eq_true ((of_decide_eq_true hit).trans (of_decide_eq_true mine).symm))
  simp only [decide_eq_true_eq] at found
  refine Eq.trans ?_ found
  unfold findUser saveUser
  generalize s.users.findIdx? _ = index
  cases index <;> rfl

theorem findSession_saveSession (session : AuthSession) (userId sessionId : JsString) :
    (s.saveSession session).findSession userId sessionId =
      if session.userId = userId ∧ session.sessionId = sessionId then some session
      else s.findSession userId sessionId := by
  have found := @find?_saved _
    (fun other : AuthSession => decide (other.userId = session.userId ∧ other.sessionId = session.sessionId))
    (fun other => decide (other.userId = userId ∧ other.sessionId = sessionId)) session s.sessions
    (fun other hit => by rw [(of_decide_eq_true hit).1, (of_decide_eq_true hit).2])
    (fun mine other hit => by
      have ⟨users, ids⟩ := of_decide_eq_true mine
      have ⟨otherUsers, otherIds⟩ := of_decide_eq_true hit
      exact decide_eq_true ⟨otherUsers.trans users.symm, otherIds.trans ids.symm⟩)
  simp only [decide_eq_true_eq] at found
  refine Eq.trans ?_ found
  unfold findSession saveSession
  generalize s.sessions.findIdx? _ = index
  cases index <;> rfl

theorem findUser_member {user : AuthUser} (found : s.findUser userId = some user) :
    user ∈ s.users ∧ user.id = userId := by
  have hit := List.find?_some found
  exact ⟨List.mem_of_find?_eq_some found, of_decide_eq_true hit⟩

theorem findSession_member {sessionId : JsString} (found : s.findSession userId sessionId = some session) :
    session ∈ s.sessions ∧ session.userId = userId ∧ session.sessionId = sessionId := by
  have hit := List.find?_some found
  exact ⟨List.mem_of_find?_eq_some found, of_decide_eq_true hit⟩

theorem findSession_isSome (member : session ∈ s.sessions) :
    (s.findSession session.userId session.sessionId).isSome = true := by
  rw [findSession, List.find?_isSome]
  exact ⟨session, member, decide_eq_true ⟨rfl, rfl⟩⟩

end MemoryAuthStore

end CasualOS
