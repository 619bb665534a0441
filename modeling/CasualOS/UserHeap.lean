import CasualOS.AuthStore

/-! Users as the objects that the store in memory hands out, and the store that they make up. -/

namespace CasualOS

/-- The users are references. An object may be changed in place, and outlives its place in the store. -/
structure UserHeap where
  object : Nat → AuthUser
  size : Nat
  users : List Nat
  loginRequests : List AuthLoginRequest
  sessions : List AuthSession
  inside : ∀ ref ∈ users, ref < size

namespace UserHeap

variable (h : UserHeap)

def view : MemoryAuthStore where
  users := h.users.map h.object
  loginRequests := h.loginRequests
  sessions := h.sessions

def findBy (asked : AuthUser → Bool) : Option Nat := h.users.find? (fun ref => asked (h.object ref))

def findUser (userId : JsString) : Option Nat := h.findBy (fun u => u.id = userId)

def findUserByAddress (address : JsString) (addressType : AddressType) : Option Nat :=
  h.findBy (MemoryAuthStore.hasAddress address addressType)

def findUserByStripeCustomerId (customerId : JsString) : Option Nat :=
  h.findBy (fun u => u.stripeCustomerId = some customerId)

def place (user : AuthUser) (ref : Nat) : AuthUser := if ref = h.size then user else h.object ref

def push (user : AuthUser) : UserHeap :=
  { h with
    object := h.place user
    size := h.size + 1
    users := h.users ++ [h.size]
    inside := by
      intro ref member
      rcases List.mem_append.mp member with old | new
      · exact Nat.lt_succ_of_lt (h.inside ref old)
      · exact List.mem_singleton.mp new ▸ Nat.lt_succ_self _ }

def saveUser (user : AuthUser) : UserHeap :=
  match h.users.findIdx? (fun ref => (h.object ref).id = user.id) with
  | some index =>
    { h with
      object := h.place user
      size := h.size + 1
      users := h.users.set index h.size
      inside := by
        intro ref member
        rcases List.mem_or_eq_of_mem_set member with old | new
        · exact Nat.lt_succ_of_lt (h.inside ref old)
        · exact new ▸ Nat.lt_succ_self _ }
  | none => h.push user

/-- Whether the code answers with `user_already_exists`. -/
def userExists (user : AuthUser) : Bool :=
  h.users.any (fun ref => MemoryAuthStore.sharesAddress user (h.object ref))

def saveNewUser (user : AuthUser) : UserHeap :=
  if h.userExists user then h else h.push user

def setCurrentLoginRequest (userId requestId : JsString) : UserHeap :=
  match h.findUser userId with
  | none => h
  | some ref => h.saveUser { h.object ref with currentLoginRequestId := some requestId }

def saveLoginRequest (loginRequest : AuthLoginRequest) : UserHeap :=
  { h with loginRequests := (h.view.saveLoginRequest loginRequest).loginRequests }

/-- The object is changed in place. -/
def assign (ref : Nat) (user : AuthUser) : UserHeap :=
  { h with object := fun other => if other = ref then user else h.object other }

def ofStore (s : MemoryAuthStore) : UserHeap where
  object ref := s.users.getD ref
    { id := []
      name := none
      email := none
      phoneNumber := none
      avatarUrl := none
      avatarPortraitUrl := none
      openAiKey := none
      stripeCustomerId := none
      subscriptionStatus := none
      subscriptionId := none
      allSessionRevokeTimeMs := none
      currentLoginRequestId := none
      banTimeMs := none
      banReason := none }
  size := s.users.length
  users := List.range s.users.length
  loginRequests := s.loginRequests
  sessions := s.sessions
  inside := fun _ member => List.mem_range.mp member

/-! ### The store that it is -/

variable {h}

@[simp] theorem view_ofStore (s : MemoryAuthStore) : (ofStore s).view = s := by
  have users : (List.range s.users.length).map (ofStore s).object = s.users := by
    apply List.ext_getElem
    · simp
    · intro i _ inside
      simp [ofStore, inside]
  unfold view
  rw [show (ofStore s).users = List.range s.users.length from rfl, users]
  rfl

theorem object_findBy (asked : AuthUser → Bool) : (h.findBy asked).map h.object = h.view.users.find? asked := by
  unfold findBy view
  rw [List.find?_map]
  rfl

theorem object_findUser (userId : JsString) : (h.findUser userId).map h.object = h.view.findUser userId :=
  object_findBy _

theorem map_place (user : AuthUser) {refs : List Nat} (inside : ∀ ref ∈ refs, ref < h.size) :
    refs.map (h.place user) = refs.map h.object := by
  apply List.map_congr_left
  intro ref member
  unfold place
  rw [if_neg (Nat.ne_of_lt (inside ref member))]

theorem view_push (user : AuthUser) : (h.push user).view = { h.view with users := h.view.users ++ [user] } := by
  have own : h.place user h.size = user := if_pos rfl
  simp only [push, view, List.map_append, List.map_cons, List.map_nil, own, map_place user h.inside]

@[simp] theorem view_saveUser (user : AuthUser) : (h.saveUser user).view = h.view.saveUser user := by
  have indices : h.view.users.findIdx? (fun u => u.id = user.id) =
      h.users.findIdx? (fun ref => (h.object ref).id = user.id) := by
    unfold view
    rw [List.findIdx?_map]
    rfl
  have own : h.place user h.size = user := if_pos rfl
  unfold saveUser MemoryAuthStore.saveUser
  split
  · rename_i index found
    rw [indices, found]
    simp only [view, List.map_set, own, map_place user h.inside]
  · rename_i found
    rw [indices, found, view_push]

theorem userExists_view (user : AuthUser) :
    h.userExists user = h.view.users.any (MemoryAuthStore.sharesAddress user) := by
  unfold userExists view
  rw [List.any_map]
  rfl

theorem view_saveNewUser (user : AuthUser) (unknown : h.userExists user = false) :
    (h.saveNewUser user).view = { h.view with users := h.view.users ++ [user] } := by
  unfold saveNewUser
  rw [if_neg (Bool.eq_false_iff.mp unknown), view_push]

@[simp] theorem view_setCurrentLoginRequest (userId requestId : JsString) :
    (h.setCurrentLoginRequest userId requestId).view = h.view.setCurrentLoginRequest userId requestId := by
  have found := object_findUser (h := h) userId
  unfold setCurrentLoginRequest MemoryAuthStore.setCurrentLoginRequest
  rw [← found]
  cases h.findUser userId with
  | none => rfl
  | some ref => exact view_saveUser _

end UserHeap

end CasualOS
