import CasualOS.LoginCodes
import CasualOS.Lib.Handlers
import CasualOS.UserHandlers
import Mathlib.Data.List.Perm.Basic

/-! The addresses of accounts, while logins are requested and completed and users updated. -/

namespace CasualOS.UniqueAddresses

open Run Handlers AuthController
open JsString (lit)
open KeyCreation (pairing)
open Option (some)

inductive Request where
  | requestLogin (request : LoginRequest)
  | completeLogin (request : CompleteLoginRequest)
  | updateUserInfo (request : UpdateUserInfoRequest)

inductive Call where
  | requestLogin (request : LoginRequest) (stage : RequestLogin.Stage)
  | completeLogin (request : CompleteLoginRequest) (stage : CompleteLogin.Stage)
  | updateUserInfo (request : UpdateUserInfoRequest) (stage : Guarded UpdateUserInfo.Stage)

abbrev Server := State UserHeap Call

def withRecords (h : UserHeap) (store : MemoryAuthStore) : UserHeap :=
  { h with
    loginRequests := store.loginRequests
    sessions := store.sessions }

section Steps

variable (p : Platform) (force : Bool)

def begin (s : Server) : Request → Call
  | .requestLogin request => .requestLogin request (beginRequestLogin request)
  | .completeLogin request => .completeLogin request (beginCompleteLogin s.store.view request)
  | .updateUserInfo request => .updateUserInfo request (beginUpdateUserInfo p s.store request)

def resume (s : Server) (call : Call) (outside : Outside) : Option (UserHeap × Call) :=
  match call with
  | .requestLogin request stage =>
    (resumeRequestLogin p s.store s.now request outside stage).map (fun next =>
      (next.1, .requestLogin request next.2))
  | .completeLogin request stage =>
    (resumeCompleteLogin p s.store.view s.now request outside.bytes stage).map (fun next =>
      (withRecords s.store next.1, .completeLogin request next.2))
  | .updateUserInfo request stage =>
    (resumeUpdateUserInfo p s.store s.now request force stage).map (fun next =>
      (next.1, .updateUserInfo request next.2))

abbrev step : Server → Label Request Outside → Option Server := Handlers.step (begin p) (resume p force)

end Steps

/-! ### One account for each address -/

abbrev Addresses := Option JsString × Option JsString

def addresses (user : AuthUser) : Addresses := (user.email, user.phoneNumber)

/-- Neither the emails nor the phone numbers, where there are any, are the same. -/
def Apart (first second : Addresses) : Prop :=
  (first.1 = none ∨ first.1 ≠ second.1) ∧ (first.2 = none ∨ first.2 ≠ second.2)

instance (first second : Addresses) : Decidable (Apart first second) :=
  inferInstanceAs (Decidable ((first.1 = none ∨ first.1 ≠ second.1) ∧ (first.2 = none ∨ first.2 ≠ second.2)))

def OneAccount (users : List AuthUser) : Prop := (users.map addresses).Pairwise Apart

instance (users : List AuthUser) : Decidable (OneAccount users) :=
  inferInstanceAs (Decidable ((users.map addresses).Pairwise Apart))

/-- The users but the one that `saveUser` replaces. -/
def others (users : List AuthUser) (userId : JsString) : List AuthUser :=
  match users.findIdx? (fun u => u.id = userId) with
  | some index => users.eraseIdx index
  | none => users

/-- An update is about to be saved with an address that another account has. -/
def takesAddress (s : Server) : Label Request Outside → Bool
  | .resume i _ =>
    match s.calls[i]? with
    | some (.updateUserInfo _ (.entered (.findingUser update (some ref)))) =>
      let user := s.store.object ref
      (others s.store.view.users user.id).any (fun other =>
        ¬ Apart (update.email.or user.email, update.phoneNumber.or user.phoneNumber) (addresses other))
    | _ => false
  | _ => false

def Allowed (s : Server) (label : Label Request Outside) : Prop := takesAddress s label = false

instance (s : Server) (label : Label Request Outside) : Decidable (Allowed s label) :=
  inferInstanceAs (Decidable (_ = _))

/-! ### What the store does -/

theorem apart_symm {first second : Addresses} (apart : Apart first second) : Apart second first := by
  have swap : ∀ {a b : Option JsString}, a = none ∨ a ≠ b → b = none ∨ b ≠ a := by
    intro a b either
    by_cases same : b = a
    · subst same
      exact either.imp id (fun differs => absurd rfl differs)
    · exact .inr same
  exact ⟨swap apart.1, swap apart.2⟩

theorem oneAccount_append (users : List AuthUser) (user : AuthUser) : OneAccount (users ++ [user]) ↔
      OneAccount users ∧ ∀ v ∈ users, Apart (addresses user) (addresses v) := by
  unfold OneAccount
  rw [List.map_append, List.pairwise_append]
  constructor
  · rintro ⟨old, _, apart⟩
    exact ⟨old, fun v member => apart_symm (apart _ (List.mem_map_of_mem member) _ (by simp))⟩
  · rintro ⟨old, apart⟩
    refine ⟨old, by simp, fun a inside b single => ?_⟩
    obtain ⟨v, member, rfl⟩ := List.mem_map.mp inside
    rw [List.map_cons, List.map_nil, List.mem_singleton] at single
    exact single ▸ apart_symm (apart v member)

theorem oneAccount_set (users : List AuthUser) (user : AuthUser) {i : Nat} (inside : i < users.length)
    (one : OneAccount users) :
    OneAccount (users.set i user) ↔ ∀ v ∈ users.eraseIdx i, Apart (addresses user) (addresses v) := by
  have kept : OneAccount (users.eraseIdx i) := by
    unfold OneAccount at one ⊢
    exact one.sublist ((List.eraseIdx_sublist ..).map addresses)
  have moved := (List.set_perm_cons_eraseIdx inside user).map addresses
  have same : OneAccount (users.set i user) ↔ OneAccount (user :: users.eraseIdx i) :=
    moved.pairwise_iff apart_symm
  rw [same]
  unfold OneAccount at kept ⊢
  rw [List.map_cons, List.pairwise_cons]
  simp only [kept, and_true, List.mem_map, forall_exists_index, and_imp, forall_apply_eq_imp_iff₂]

theorem oneAccount_saveUser {s : MemoryAuthStore} (user : AuthUser) (one : OneAccount s.users) :
    OneAccount (s.saveUser user).users ↔
      ∀ v ∈ others s.users user.id, Apart (addresses user) (addresses v) := by
  unfold MemoryAuthStore.saveUser others
  split
  · next index found =>
      have inside : index < s.users.length := (List.findIdx?_eq_some_iff_getElem.mp found).1
      simp only [found]
      exact oneAccount_set s.users user inside one
  · next absent =>
      simp only [absent]
      rw [oneAccount_append]
      exact and_iff_right one

theorem oneAccount_saveNewUser {h : UserHeap} (user : AuthUser) (one : OneAccount h.view.users)
    (email : user.email ≠ some []) (phone : user.phoneNumber ≠ some []) :
    OneAccount (h.saveNewUser user).view.users := by
  cases known : h.userExists user with
  | true =>
    have same : h.saveNewUser user = h := if_pos known
    rw [same]
    exact one
  | false =>
    have apart : ∀ v ∈ h.view.users, MemoryAuthStore.sharesAddress user v = false := by
      rw [UserHeap.userExists_view, List.any_eq_false] at known
      exact fun v member => Bool.not_eq_true _ |>.mp (known v member)
    rw [UserHeap.view_saveNewUser user known, oneAccount_append]
    refine ⟨one, fun v member => ?_⟩
    have free := of_decide_eq_false (apart v member)
    rw [not_or] at free
    constructor
    · cases shown : user.email with
      | none => exact .inl shown
      | some address =>
        refine .inr fun same => free.1 ⟨?_, same.symm⟩
        rw [shown, Option.getD_some]
        exact fun empty => email (shown.trans (congrArg some empty))
    · cases shown : user.phoneNumber with
      | none => exact .inl shown
      | some address =>
        refine .inr fun same => free.2 ⟨?_, same.symm⟩
        rw [shown, Option.getD_some]
        exact fun empty => phone (shown.trans (congrArg some empty))

theorem oneAccount_setCurrent {h : UserHeap} (userId requestId : JsString) (one : OneAccount h.view.users) :
    OneAccount (h.setCurrentLoginRequest userId requestId).view.users := by
  rw [UserHeap.view_setCurrentLoginRequest]
  unfold MemoryAuthStore.setCurrentLoginRequest
  split
  · exact one
  · next user found =>
      have same := @MemoryAuthStore.map_saved _ _ addresses _
        { user with currentLoginRequestId := some requestId } user h.view.users found rfl
      have id : user.id = userId := by simpa using List.find?_some found
      unfold OneAccount at one ⊢
      rw [← same] at one
      unfold MemoryAuthStore.saveUser
      simp only [id]
      split <;> simp_all

/-! ### What the calls do -/

/-- An address that the user has is not empty. -/
structure Filled (user : AuthUser) : Prop where
  email : user.email ≠ some []
  phone : user.phoneNumber ≠ some []

/-- The user that a call is about to make has an address, and so has the request that it is made for. -/
def Sane : Call → Prop
  | .requestLogin request (.supporting _) => request.address ≠ []
  | .requestLogin request (.findingUser _ _) => request.address ≠ []
  | .requestLogin _ (.validatingAddress _ user) => Filled user
  | .requestLogin _ (.sending (some user) _) => Filled user
  | _ => True

theorem filled_newUser {uuid address : JsString} (filled : address ≠ []) (addressType : AddressType) :
    Filled (newUser uuid address addressType) where
  email same := by
    cases addressType with
    | email => exact filled (some.inj same)
    | phone => cases same
  phone same := by
    cases addressType with
    | email => cases same
    | phone => exact filled (some.inj same)

section Calls

variable {p : Platform} {force : Bool} {h : UserHeap} {now : Int} {outside : Outside}

theorem sane_sendLoginCode {request : LoginRequest} (addressType : AddressType) (user : AuthUser)
    (isNew : Bool) (filled : isNew = true → Filled user) :
    Sane (.requestLogin request (sendLoginCode p now request outside addressType user isNew)) := by
  unfold sendLoginCode
  split
  · trivial
  · split
    · trivial
    · cases isNew with
      | true => exact filled rfl
      | false => trivial

theorem sane_begin (s : Server) (request : Request) : Sane (begin p s request) := by
  cases request with
  | completeLogin request => trivial
  | updateUserInfo request => trivial
  | requestLogin request =>
    rw [begin]
    rcases @beginRequestLogin_cases request with ⟨failure, same⟩ | ⟨addressType, same, filled⟩
    · rw [same]
      trivial
    · rw [same]
      exact filled

/-- A call keeps the property, unless it saves an update. -/
structure Keeps (h : UserHeap) (made : UserHeap × Call) : Prop where
  sane : Sane made.2
  one : OneAccount h.view.users → OneAccount made.1.view.users

theorem keeps_requestLogin {request : LoginRequest} {stage : RequestLogin.Stage}
    {next : UserHeap × RequestLogin.Stage} (sane : Sane (.requestLogin request stage))
    (ran : resumeRequestLogin p h now request outside stage = some next) :
    Keeps h (next.1, .requestLogin request next.2) := by
  cases stage with
  | supporting addressType =>
    simp only [resumeRequestLogin] at ran
    split at ran <;> rw [← some.inj ran]
    · exact ⟨trivial, id⟩
    · exact ⟨trivial, id⟩
    · exact ⟨sane, id⟩
  | findingUser addressType found =>
    cases found with
    | none =>
      rw [← some.inj ran]
      exact ⟨filled_newUser sane addressType, id⟩
    | some ref =>
      rw [← some.inj ran]
      exact ⟨sane_sendLoginCode _ _ _ (fun never => by cases never), id⟩
  | validatingAddress addressType user =>
    simp only [resumeRequestLogin] at ran
    split at ran <;> rw [← some.inj ran]
    · exact ⟨sane_sendLoginCode _ _ _ (fun _ => sane), id⟩
    · exact ⟨trivial, id⟩
  | sending newUser loginRequest =>
    simp only [resumeRequestLogin] at ran
    split at ran
    · rw [← some.inj ran]
      exact ⟨trivial, id⟩
    · rw [← some.inj ran]
      exact ⟨trivial, id⟩
    · cases newUser with
      | none =>
        rw [← some.inj ran]
        exact ⟨trivial, id⟩
      | some user =>
        rw [← some.inj ran]
        exact ⟨trivial, fun one => oneAccount_saveNewUser user one sane.email sane.phone⟩
  | savingUser loginRequest saved =>
    cases saved <;> rw [← some.inj ran]
    · exact ⟨trivial, id⟩
    · exact ⟨trivial, id⟩
  | findingAgain loginRequest found =>
    cases found <;> rw [← some.inj ran]
    · exact ⟨trivial, id⟩
    · exact ⟨trivial, id⟩
  | savingRequest loginRequest =>
    rw [← some.inj ran]
    exact ⟨trivial, fun one => oneAccount_setCurrent _ _ one⟩
  | settingCurrent loginRequest =>
    rw [← some.inj ran]
    exact ⟨trivial, id⟩
  | succeeded loginRequest => cases ran
  | failed failure banReason => cases ran

theorem resumed_update {request : UpdateUserInfoRequest} {stage : Guarded UpdateUserInfo.Stage}
    {next : UserHeap × Guarded UpdateUserInfo.Stage}
    (ran : resumeUpdateUserInfo p h now request force stage = some next) :
    (next.1 = h ∧ ∀ update ref, stage ≠ .entered (.findingUser update (some ref))) ∨
      ∃ update ref, stage = .entered (.findingUser update (some ref)) ∧
        next.1 = h.saveUser (updatedUser p force (h.object ref) update) := by
  rcases resumeGuarded_cases ran with ⟨_, _, _, rfl, rfl⟩ | ⟨_, _, rfl, rfl⟩ | ⟨_, _, rfl, _, rfl⟩ |
    ⟨inner, rfl, inside⟩
  · exact .inl ⟨rfl, fun _ _ same => by cases same⟩
  · exact .inl ⟨rfl, fun _ _ same => by cases same⟩
  · exact .inl ⟨rfl, fun _ _ same => by cases same⟩
  · cases inner with
    | findingUser update found =>
      cases found with
      | none => exact .inl ⟨congrArg Prod.fst (some.inj inside).symm, fun _ _ same => by cases same⟩
      | some ref => exact .inr ⟨update, ref, rfl, congrArg Prod.fst (some.inj inside).symm⟩
    | saving => exact .inl ⟨congrArg Prod.fst (some.inj inside).symm, fun _ _ same => by cases same⟩
    | succeeded => cases inside

theorem addresses_updatedUser (user : AuthUser) (update : UserInfo) : addresses (updatedUser p force user update) =
      (update.email.or user.email, update.phoneNumber.or user.phoneNumber) := rfl

end Calls

/-! ### Whole runs -/

structure Inv (s : Server) : Prop where
  one : OneAccount s.store.view.users
  sane : ∀ call ∈ s.calls, Sane call

section Runs

variable {p : Platform} {force : Bool} {s next : Server} {label : Label Request Outside}

theorem Inv.of_set (inv : Inv s) {i : Nat} {made : UserHeap × Call} (keeps : Sane made.2)
    (one : OneAccount made.1.view.users) : Inv { s with store := made.1, calls := s.calls.set i made.2 } where
  one := one
  sane call member := by
    rcases List.mem_or_eq_of_mem_set member with old | new
    · exact inv.sane call old
    · exact new ▸ keeps

theorem step_iff (inv : Inv s) (ran : step p force s label = some next) :
    (Allowed s label ↔ OneAccount next.store.view.users) ∧ (Allowed s label → Inv next) := by
  have free : ∀ next, Allowed s label → Inv next →
      (Allowed s label ↔ OneAccount next.store.view.users) ∧ (Allowed s label → Inv next) :=
    fun _ allowed last => ⟨iff_of_true allowed last.one, fun _ => last⟩
  cases label with
  | call request =>
    rw [← some.inj ran]
    refine free _ rfl ⟨inv.one, fun call member => ?_⟩
    rcases List.mem_append.mp member with old | new
    · exact inv.sane call old
    · exact List.mem_singleton.mp new ▸ sane_begin s request
  | pass later =>
    obtain ⟨_, same⟩ := step_pass ran
    rw [same]
    exact free _ rfl ⟨inv.one, inv.sane⟩
  | resume i outside =>
    obtain ⟨call, made, here, resumed, same⟩ := step_resume ran
    have sane := inv.sane call (List.mem_of_getElem? here)
    rw [same]
    cases call with
    | requestLogin request stage =>
      obtain ⟨after, run, rfl⟩ := Option.map_eq_some_iff.mp resumed
      have keeps := keeps_requestLogin sane run
      exact free _ (by simp [Allowed, takesAddress, here]) (inv.of_set keeps.sane (keeps.one inv.one))
    | completeLogin request stage =>
      obtain ⟨after, run, rfl⟩ := Option.map_eq_some_iff.mp resumed
      have last : Sane (.completeLogin request after.2) := trivial
      exact free _ (by simp [Allowed, takesAddress, here]) (inv.of_set last inv.one)
    | updateUserInfo request stage =>
      obtain ⟨after, run, rfl⟩ := Option.map_eq_some_iff.mp resumed
      have last : Sane (.updateUserInfo request after.2) := trivial
      rcases resumed_update run with ⟨unchanged, other⟩ | ⟨update, ref, rfl, saved⟩
      · have quiet : Allowed s (.resume i outside) := by
          simp only [Allowed, takesAddress]
          split
          · next request' update ref found =>
              rw [here] at found
              cases found
              exact absurd rfl (other update ref)
          · rfl
        refine free _ quiet (inv.of_set last ?_)
        rw [unchanged]
        exact inv.one
      · have kept : OneAccount after.1.view.users ↔ Allowed s (.resume i outside) := by
          rw [saved, UserHeap.view_saveUser, oneAccount_saveUser _ inv.one, addresses_updatedUser]
          simp [Allowed, takesAddress, here, updatedUser]
        exact ⟨kept.symm, fun allowed => inv.of_set last (kept.mpr allowed)⟩

/-- No two accounts have one address, in every state of a run, exactly when no update is saved with an
address that another account has then. -/
theorem one_account_iff (p : Platform) (force : Bool) (start : UserHeap) (one : OneAccount start.view.users)
    (now : Int) (labels : List (Label Request Outside)) :
    Throughout (step p force) (fun s => OneAccount s.store.view.users) (Handlers.idle start now) labels ↔
      AllAllowed (step p force) Allowed (Handlers.idle start now) labels := by
  refine throughout_iff (fun state (inv : Inv state) => inv.one)
    (fun state label next inv allowed ran => (step_iff inv ran).2 allowed) (fun state label inv kept => ?_)
    _ ⟨one, fun call member => by cases member⟩ labels
  cases ran : step p force state label with
  | some next => exact (step_iff inv ran).1.mpr (kept next ran)
  | none =>
    -- only an update that goes on can be about to take an address
    cases label with
    | call request => rfl
    | pass later => rfl
    | resume i outside =>
      simp only [Allowed, takesAddress]
      split
      · next request update ref here =>
          simp [step, Handlers.step, here, resume, resumeUpdateUserInfo, resumeGuarded] at ran
      · rfl

end Runs

/-! ### An address that is taken -/

section Sample

open LoginCodes (code firstBytes)

def emptyStore : UserHeap := UserHeap.ofStore { users := [], loginRequests := [], sessions := [] }

def requestIdOf (userId : Char) : JsString := lit ['A', 'A', 'A', userId]

def answers (userId : Char) : Outside where
  supported := some true
  uuid := lit [userId]
  accepted := true
  requestId := requestIdOf userId
  code := code
  sent := some none
  bytes := firstBytes

def asks (address : Char) : LoginRequest where
  address := lit [address]
  addressType := some .email
  ipAddress := lit ['i', 'p']

def completes (userId : Char) : CompleteLoginRequest where
  userId := lit [userId]
  requestId := requestIdOf userId
  code := code
  ipAddress := lit ['i', 'p']

def changesEmail (userId address : Char) : UpdateUserInfoRequest where
  userId := lit [userId]
  sessionKey := formatV1SessionKey pairing (lit [userId]) firstBytes.sessionId
    firstBytes.sessionSecret 1
  update := some
    { name := none
      avatarUrl := none
      avatarPortraitUrl := none
      email := some (lit [address])
      phoneNumber := none
      openAiKey := none }

def asksFor (i : Nat) (userId address : Char) : List (Label Request Outside) :=
  .call (.requestLogin (asks address)) :: List.replicate 7 (.resume i (answers userId))

def emailChanged (address : Char) : List (Label Request Outside) :=
  asksFor 0 'u' 'e' ++ asksFor 1 'v' 'f' ++
    .call (.completeLogin (completes 'v')) :: List.replicate 4 (.resume 2 (answers 'v')) ++
      .call (.updateUserInfo (changesEmail 'v' address)) :: List.replicate 5 (.resume 3 (answers 'v'))

def start : Server := Handlers.idle emptyStore 1

/-- A new email that no account has is not refused, and the accounts stay apart. -/
theorem free_email_apart :
    Throughout (step pairing false) (fun s => OneAccount s.store.view.users) start
      (emailChanged 'g') :=
  (one_account_iff pairing false emptyStore (by decide) 1 (emailChanged 'g')).mpr
    (by decide +kernel)

/-- The email of the first account becomes the second one's too. -/
theorem taken_email_shared :
    ¬ Throughout (step pairing false) (fun s => OneAccount s.store.view.users) start
      (emailChanged 'e') := by
  intro all
  have shared : (runAll (step pairing false) start (emailChanged 'e')).map
      (fun s => decide (OneAccount s.store.view.users)) = some false := by
    decide +kernel
  obtain ⟨last, reached, differs⟩ := Option.map_eq_some_iff.mp shared
  exact of_decide_eq_false differs (all.last _ reached)

end Sample

end CasualOS.UniqueAddresses
