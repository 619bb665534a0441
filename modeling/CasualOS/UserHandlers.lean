import CasualOS.AuthController
import CasualOS.UserHeap

/-! The handlers of `AuthController` that write users, over the objects that the store hands out. -/

namespace CasualOS.AuthController

def maxEmailAddressLength : Nat := 200

def maxSmsAddressLength : Nat := 30

def unacceptableAddress : Failure where
  errorCode := "unacceptable_address"
  errorMessage := "The given address is invalid. It must be a string."

def unacceptableAddressType : Failure where
  errorCode := "unacceptable_address_type"
  errorMessage :=
    "The given address type is invalid. It must be a string containing either \"email\" or \"phone\"."

def emailTooLong : Failure where
  errorCode := "unacceptable_address"
  errorMessage := "The given email address is too long. It must be 200 characters or shorter in length."

def smsTooLong : Failure where
  errorCode := "unacceptable_address"
  errorMessage := "The given SMS address is too long. It must be 30 digits or shorter in length."

def addressTypeNotSupported (addressType : AddressType) : Failure where
  errorCode := "address_type_not_supported"
  errorMessage :=
    match addressType with
    | .email => "Email addresses are not supported."
    | .phone => "Phone numbers are not supported"

def addressNotAccepted : Failure where
  errorCode := "unacceptable_address"
  errorMessage := "The given address is not accepted."

/-- As `requestLogin` words it when the user that is said to exist is not found. -/
def serverEncountered : Failure where
  errorCode := "server_error"
  errorMessage := "The server encountered an error."

def unacceptableUpdate : Failure where
  errorCode := "unacceptable_update"
  errorMessage := "The given update is invalid. It must be an object."

/-- What the handlers get from the messenger, from the address rules and at random. Nothing where a call
throws. -/
structure Outside where
  supported : Option Bool
  uuid : JsString
  accepted : Bool
  requestId : JsString
  code : JsString
  sent : Option (Option Failure)
  bytes : SessionBytes

/-! ### Requesting a login -/

/-- `addressType` is nothing for other values than the two types. -/
structure LoginRequest where
  address : JsString
  addressType : Option AddressType
  ipAddress : JsString
  deriving DecidableEq, Repr

namespace RequestLogin

inductive Stage where
  | supporting (addressType : AddressType)
  | findingUser (addressType : AddressType) (found : Option Nat)
  | validatingAddress (addressType : AddressType) (user : AuthUser)
  | sending (newUser : Option AuthUser) (loginRequest : AuthLoginRequest)
  | savingUser (loginRequest : AuthLoginRequest) (saved : Bool)
  | findingAgain (loginRequest : AuthLoginRequest) (found : Option Nat)
  | savingRequest (loginRequest : AuthLoginRequest)
  | settingCurrent (loginRequest : AuthLoginRequest)
  | succeeded (loginRequest : AuthLoginRequest)
  | failed (failure : Failure) (banReason : Option JsString)
  deriving DecidableEq, Repr

end RequestLogin

section RequestLogin

variable (p : Platform) (h : UserHeap) (now : Int) (request : LoginRequest) (outside : Outside)

/-- Up to the first await. -/
def beginRequestLogin : RequestLogin.Stage :=
  if request.address = [] then .failed unacceptableAddress none
  else match request.addressType with
    | none => .failed unacceptableAddressType none
    | some addressType =>
      if request.ipAddress = [] then .failed unacceptableIpAddress none
      else match addressType with
        | .email =>
          if maxEmailAddressLength < request.address.length then .failed emailTooLong none
          else .supporting .email
        | .phone =>
          if maxSmsAddressLength < request.address.length then .failed smsTooLong none
          else .supporting .phone

variable {request} in
theorem beginRequestLogin_cases : (∃ failure, beginRequestLogin request = .failed failure none) ∨
    ∃ addressType, beginRequestLogin request = .supporting addressType ∧ request.address ≠ [] := by
  unfold beginRequestLogin
  split
  · exact .inl ⟨_, rfl⟩
  · next filled =>
      split
      · exact .inl ⟨_, rfl⟩
      · next addressType _ =>
          split
          · exact .inl ⟨_, rfl⟩
          · cases addressType with
            | email =>
              simp only
              split
              · exact .inl ⟨_, rfl⟩
              · exact .inr ⟨_, rfl, filled⟩
            | phone =>
              simp only
              split
              · exact .inl ⟨_, rfl⟩
              · exact .inr ⟨_, rfl, filled⟩

def newUser (uuid address : JsString) (addressType : AddressType) : AuthUser where
  id := uuid
  name := none
  email := if addressType = .email then some address else none
  phoneNumber := if addressType = .phone then some address else none
  avatarUrl := none
  avatarPortraitUrl := none
  openAiKey := none
  stripeCustomerId := none
  subscriptionStatus := none
  subscriptionId := none
  allSessionRevokeTimeMs := none
  currentLoginRequestId := none
  banTimeMs := none
  banReason := none

/-- From the check of a ban on, up to the answer of the messenger. -/
def sendLoginCode (addressType : AddressType) (user : AuthUser) (isNew : Bool) : RequestLogin.Stage :=
  if positiveTime user.banTimeMs then .failed userIsBanned user.banReason
  else match p.hashPasswordWithSalt outside.code outside.requestId with
    | none => .failed serverError none
    | some secretHash =>
      .sending (if isNew then some user else none)
        { userId := user.id
          requestId := outside.requestId
          secretHash := secretHash
          requestTimeMs := now
          expireTimeMs := now + 1000 * 60 * 5
          completedTimeMs := none
          attemptCount := 0
          address := request.address
          addressType := addressType
          ipAddress := request.ipAddress }

def resumeRequestLogin : RequestLogin.Stage → Option (UserHeap × RequestLogin.Stage)
  | .supporting addressType =>
    match outside.supported with
    | none => some (h, .failed serverError none)
    | some false => some (h, .failed (addressTypeNotSupported addressType) none)
    | some true => some (h, .findingUser addressType (h.findUserByAddress request.address addressType))
  | .findingUser addressType none =>
    some (h, .validatingAddress addressType (newUser outside.uuid request.address addressType))
  | .findingUser addressType (some ref) =>
    some (h, sendLoginCode p now request outside addressType (h.object ref) false)
  | .validatingAddress addressType user =>
    if outside.accepted then some (h, sendLoginCode p now request outside addressType user true)
    else some (h, .failed addressNotAccepted none)
  | .sending newUser loginRequest =>
    match outside.sent with
    | none => some (h, .failed serverError none)
    | some (some failure) => some (h, .failed failure none)
    | some none =>
      match newUser with
      | none => some (h.saveLoginRequest loginRequest, .savingRequest loginRequest)
      | some user => some (h.saveNewUser user, .savingUser loginRequest (!h.userExists user))
  | .savingUser loginRequest true => some (h.saveLoginRequest loginRequest, .savingRequest loginRequest)
  | .savingUser loginRequest false =>
    some (h, .findingAgain loginRequest
      (h.findUserByAddress loginRequest.address loginRequest.addressType))
  | .findingAgain _ none => some (h, .failed serverEncountered none)
  | .findingAgain loginRequest (some ref) =>
    let loginRequest := { loginRequest with userId := (h.object ref).id }
    some (h.saveLoginRequest loginRequest, .savingRequest loginRequest)
  | .savingRequest loginRequest =>
    some (h.setCurrentLoginRequest loginRequest.userId loginRequest.requestId, .settingCurrent loginRequest)
  | .settingCurrent loginRequest => some (h, .succeeded loginRequest)
  | .succeeded _ => none
  | .failed _ _ => none

end RequestLogin

/-! ### Updating a user -/

structure UserInfo where
  name : Option JsString
  avatarUrl : Option JsString
  avatarPortraitUrl : Option JsString
  email : Option JsString
  phoneNumber : Option JsString
  openAiKey : Option JsString
  deriving DecidableEq, Repr

/-- `update` is nothing where the code is given no object. -/
structure UpdateUserInfoRequest where
  userId : JsString
  sessionKey : JsString
  update : Option UserInfo
  deriving DecidableEq, Repr

namespace UpdateUserInfo

inductive Stage where
  | findingUser (update : UserInfo) (found : Option Nat)
  | saving
  | succeeded
  deriving DecidableEq, Repr

end UpdateUserInfo

section UpdateUserInfo

variable (p : Platform) (h : UserHeap) (now : Int) (request : UpdateUserInfoRequest)

def isActiveSubscription (status : Option JsString) : Bool :=
  status = some (JsString.lit "active".toList) ∨ status = some (JsString.lit "trialing".toList)

def formatV1OpenAiKey (apiKey : JsString) : JsString :=
  JsString.lit ['v', 'A', 'I', '1', '.'] ++ p.toBase64String apiKey

/-- The user with what is given of the update; `force` is `_forceAllowSubscriptionFeatures`. -/
def updatedUser (force : Bool) (user : AuthUser) (update : UserInfo) : AuthUser :=
  let hasActiveSubscription := force || isActiveSubscription user.subscriptionStatus
  let openAiKey := if hasActiveSubscription then update.openAiKey else none
  { user with
    name := update.name.or user.name
    avatarUrl := update.avatarUrl.or user.avatarUrl
    avatarPortraitUrl := update.avatarPortraitUrl.or user.avatarPortraitUrl
    email := update.email.or user.email
    phoneNumber := update.phoneNumber.or user.phoneNumber
    openAiKey := (openAiKey.map (fun key => if key = [] then key else formatV1OpenAiKey p key)).or user.openAiKey }

def beginUpdateUserInfo : Guarded UpdateUserInfo.Stage :=
  if request.userId = [] then .failed unacceptableUserId none
  else if request.sessionKey = [] then .failed unacceptableSessionKey none
  else if request.update.isNone then .failed unacceptableUpdate none
  else .validating (beginValidateSessionKey p h.view request.sessionKey)

def resumeUpdateUserInfo (force : Bool) :
    Guarded UpdateUserInfo.Stage → Option (UserHeap × Guarded UpdateUserInfo.Stage) :=
  resumeGuarded p h.view now h
    (fun userId _ =>
      if userId ≠ request.userId then .failed invalidKey none
      else match request.update with
        | none => .failed unacceptableUpdate none
        | some update => .entered (.findingUser update (h.findUser request.userId)))
    (fun stage =>
      match stage with
      | .findingUser _ none => some (h, .failed serverError none)
      | .findingUser update (some ref) =>
        some (h.saveUser (updatedUser p force (h.object ref) update), .entered .saving)
      | .saving => some (h, .entered .succeeded)
      | .succeeded => none)

end UpdateUserInfo

end CasualOS.AuthController
