import CasualOS.RecordKeys
import CasualOS.PolicyPermissions

/-! How `PolicyController` decides requests for data, files and events. -/

namespace CasualOS.PolicyController

/-- What is read of a store of policies while a request is decided. -/
structure PolicyStore where
  listPoliciesForMarker : JsString → JsString → List PolicyDocument
  listRolesForUser : JsString → JsString → List AssignedRole
  listRolesForInst : JsString → JsString → List AssignedRole

def readsAt (s : MongoDBPolicyStore) (now : Int) : PolicyStore where
  listPoliciesForMarker := s.listPoliciesForMarker
  listRolesForUser recordName userId := s.listRoles recordName (.user userId) now
  listRolesForInst recordName inst := s.listRoles recordName (.inst inst) now

def maxAllowedInstances : Nat := 2

/-! ### Contexts -/

/-- `recordKeyResult` is missing where the code has `null`; a failed one ends the request. -/
structure AuthorizationContext where
  recordKeyResult : Option ValidateSuccess
  recordKeyProvided : Bool
  recordName : JsString
  recordOwnerId : JsString
  subjectPolicy : JsString
  deriving DecidableEq, Repr

def constructAuthorizationContext (p : Platform) (records : MemoryRecordsStore)
    (recordKeyOrRecordName : JsString) : Except ValidateFailure AuthorizationContext :=
  if p.isRecordKey recordKeyOrRecordName then
    match p.validatePublicRecordKey records recordKeyOrRecordName with
    | .error failure => .error failure
    | .ok result =>
      .ok
        { recordKeyResult := some result
          recordKeyProvided := true
          recordName := result.recordName
          recordOwnerId := result.ownerId
          subjectPolicy := result.policy }
  else
    match validateRecordName records recordKeyOrRecordName with
    | .error failure => .error failure
    | .ok ownerId =>
      .ok
        { recordKeyResult := none
          recordKeyProvided := false
          recordName := recordKeyOrRecordName
          recordOwnerId := ownerId
          subjectPolicy := subjectfull }

/-! ### Requests and results -/

inductive SubjectType where
  | user
  | inst
  deriving DecidableEq, Repr

structure MarkerChange where
  existingMarkers : List JsString
  addedMarkers : Option (List JsString)
  removedMarkers : Option (List JsString)
  deriving DecidableEq, Repr

/-- The type is missing where a file name has none that is known. -/
structure FileInfo where
  fileSizeInBytes : Rat
  fileMimeType : Option JsString
  deriving DecidableEq, Repr

inductive Action where
  | dataCreate (address : JsString) (resourceMarkers : List JsString)
  | dataRead (address : JsString) (resourceMarkers : List JsString)
  | dataUpdate (address : JsString) (change : MarkerChange)
  | dataDelete (address : JsString) (resourceMarkers : List JsString)
  | fileCreate (file : FileInfo) (resourceMarkers : List JsString)
  | fileRead (file : FileInfo) (resourceMarkers : List JsString)
  | fileUpdate (file : FileInfo) (change : MarkerChange)
  | fileDelete (file : FileInfo) (resourceMarkers : List JsString)
  | eventCount (eventName : JsString) (resourceMarkers : List JsString)
  | eventIncrement (eventName : JsString) (resourceMarkers : List JsString)
  | eventUpdate (eventName : JsString) (change : MarkerChange)
  deriving DecidableEq, Repr

structure AuthorizeRequest where
  userId : Option JsString
  instances : Option (List JsString)
  action : Action
  deriving DecidableEq, Repr

inductive DenialReason where
  | noMarkers
  | missingPermission (kind : SubjectType) (id : Option JsString) (marker : JsString)
      (permission : PermissionType) (role : Option PermissionRole)
  | tooManyInsts
  | missingRole
  | noMarkersRemaining
  deriving DecidableEq, Repr

structure PossiblePermission where
  policy : PolicyDocument
  permission : Permission
  deriving DecidableEq, Repr

structure MarkerPermission where
  marker : JsString
  permissions : List PossiblePermission
  deriving DecidableEq, Repr

structure ActionAuthorization where
  action : PermissionType
  granting : PossiblePermission
  deriving DecidableEq, Repr

structure MarkerAuthorization where
  marker : JsString
  actions : List ActionAuthorization
  deriving DecidableEq, Repr

structure GenericAuthorization where
  role : PermissionRole
  markers : List MarkerAuthorization
  deriving DecidableEq, Repr

abbrev GenericResult := Except DenialReason GenericAuthorization

inductive InstAuthorization where
  | notRequired (inst : JsString)
  | allowed (inst : JsString) (authorization : GenericAuthorization)
  deriving DecidableEq, Repr

structure AuthorizeAllowed where
  recordName : JsString
  recordKeyOwnerId : Option JsString
  authorizerId : Option JsString
  subject : GenericAuthorization
  userId : Option JsString
  subjectPolicy : JsString
  instances : List InstAuthorization
  deriving DecidableEq, Repr

structure AuthorizeDenied where
  errorCode : String
  errorMessage : String
  reason : Option DenialReason
  deriving DecidableEq, Repr

abbrev AuthorizeResult := Except AuthorizeDenied AuthorizeAllowed

def notAuthorizedResult (reason : DenialReason) : AuthorizeDenied where
  errorCode := "not_authorized"
  errorMessage := "You are not authorized to perform this action."
  reason := some reason

def notAuthorizedToManyInstancesResult : AuthorizeDenied where
  errorCode := "not_authorized"
  errorMessage := "This action is not authorized because more than 2 instances are loaded."
  reason := some .tooManyInsts

def notLoggedInResult : AuthorizeDenied where
  errorCode := "not_logged_in"
  errorMessage := "The user must be logged in. Please provide a sessionKey or a recordKey."
  reason := none

def serverErrorResult : AuthorizeDenied where
  errorCode := "server_error"
  errorMessage := "A server error occurred."
  reason := none

/-! ### Filters -/

/-- A filter says nothing where it throws. -/
abbrev PermissionFilter := Permission → Option Bool

def everyFilter : List PermissionFilter → PermissionFilter
  | [], _ => some true
  | filter :: rest, permission =>
    match filter permission with
    | some true => everyFilter rest permission
    | other => other

def someFilter : List PermissionFilter → PermissionFilter
  | [], _ => some false
  | filter :: rest, permission =>
    match filter permission with
    | some false => someFilter rest permission
    | other => other

section Filters

-- Whether a regular expression matches a text; one that is malformed matches nothing.
variable (testRegex : JsString → JsString → Bool)

def patternAllows : Pattern → JsString → Bool
  | .all, _ => true
  | .regex source, value => testRegex source value

def byData (type : DataAction) (address : JsString) : PermissionFilter
  | .data action _ addresses => some (action = type ∧ patternAllows testRegex addresses address)
  | _ => some false

def byEvent (type : EventAction) (eventName : JsString) : PermissionFilter
  | .event action _ events => some (action = type ∧ patternAllows testRegex events eventName)
  | _ => some false

def byPolicy (type : PolicyAction) (marker : JsString) : PermissionFilter
  | .policy action _ policies => some (action = type ∧ patternAllows testRegex policies marker)
  | _ => some false

end Filters

def sizeAllowed (maxFileSizeInBytes : Option Rat) (fileSizeInBytes : Rat) : Bool :=
  match maxFileSizeInBytes with
  | none => true
  | some most => fileSizeInBytes ≤ most

def mimeTypeAllowed (allowedMimeTypes : Option MimeTypes) (fileMimeType : Option JsString) : Bool :=
  match allowedMimeTypes with
  | some (.only types) => fileMimeType ∈ types.map some
  | _ => true

def byFile (type : FileAction) (file : FileInfo) : PermissionFilter
  | .file action _ maxFileSizeInBytes allowedMimeTypes =>
    some (action = type ∧ sizeAllowed maxFileSizeInBytes file.fileSizeInBytes ∧
      mimeTypeAllowed allowedMimeTypes file.fileMimeType)
  | _ => some false

def byRole (role : PermissionRole) : PermissionFilter := fun permission => some (permission.role = role)

def byEveryoneRole : PermissionFilter := byRole .everyone

/-- A missing id, and an empty one. -/
def idText (id : Option JsString) : JsString := id.getD []

def byRecordOwner (context : AuthorizationContext) (subjectType : SubjectType) (id : Option JsString) :
    PermissionFilter :=
  fun _ => some (subjectType = .user ∧ id = some context.recordOwnerId)

def byAdminRole (context : AuthorizationContext) (subjectType : SubjectType) (id : Option JsString) :
    PermissionFilter :=
  if context.recordKeyResult.isSome then byRole adminRole else byRecordOwner context subjectType id

def roleAssigned (roles : List AssignedRole) : PermissionRole → Bool
  | .everyone => false
  | .named name => name ∈ roles.map (fun assignment => assignment.role)

def byUserRole (store : PolicyStore) (recordName userId : JsString) : PermissionFilter :=
  fun permission => some (roleAssigned (store.listRolesForUser recordName userId) permission.role)

/-- What every object has before anything is put into it. -/
def objectPrototypeKeys : List JsString :=
  [ ['c', 'o', 'n', 's', 't', 'r', 'u', 'c', 't', 'o', 'r'],
    ['_', '_', 'd', 'e', 'f', 'i', 'n', 'e', 'G', 'e', 't', 't', 'e', 'r', '_', '_'],
    ['_', '_', 'd', 'e', 'f', 'i', 'n', 'e', 'S', 'e', 't', 't', 'e', 'r', '_', '_'],
    ['h', 'a', 's', 'O', 'w', 'n', 'P', 'r', 'o', 'p', 'e', 'r', 't', 'y'],
    ['_', '_', 'l', 'o', 'o', 'k', 'u', 'p', 'G', 'e', 't', 't', 'e', 'r', '_', '_'],
    ['_', '_', 'l', 'o', 'o', 'k', 'u', 'p', 'S', 'e', 't', 't', 'e', 'r', '_', '_'],
    ['i', 's', 'P', 'r', 'o', 't', 'o', 't', 'y', 'p', 'e', 'O', 'f'],
    ['p', 'r', 'o', 'p', 'e', 'r', 't', 'y', 'I', 's', 'E', 'n', 'u', 'm', 'e', 'r', 'a', 'b', 'l', 'e'],
    ['t', 'o', 'S', 't', 'r', 'i', 'n', 'g'], ['v', 'a', 'l', 'u', 'e', 'O', 'f'],
    ['_', '_', 'p', 'r', 'o', 't', 'o', '_', '_'],
    ['t', 'o', 'L', 'o', 'c', 'a', 'l', 'e', 'S', 't', 'r', 'i', 'n', 'g'] ].map JsString.lit

/-- The roles of instances are kept in a plain object, so what it has from its prototype is taken for a
set of roles, which has no `has`. -/
def byInstRole (store : PolicyStore) (recordName inst : JsString) : PermissionFilter :=
  fun permission =>
    if inst ∈ objectPrototypeKeys ∧ permission.role ≠ .everyone then none
    else some (roleAssigned (store.listRolesForInst recordName inst) permission.role)

def bySubjectRole (store : PolicyStore) (subjectType : SubjectType) (recordName : JsString)
    (id : Option JsString) : PermissionFilter :=
  if idText id = [] then fun _ => some false
  else match subjectType with
    | .user => byUserRole store recordName (idText id)
    | .inst => byInstRole store recordName (idText id)

def findPermissionByFilter : List PossiblePermission → PermissionFilter →
    Option (Option PossiblePermission)
  | [], _ => some none
  | permission :: rest, filter =>
    match filter permission.permission with
    | none => none
    | some true => some (some permission)
    | some false => findPermissionByFilter rest filter

/-! ### One subject -/

/-- What the deciding functions of the actions share: the store, the regular expressions, the subject. -/
structure RolesContext extends AuthorizationContext where
  store : PolicyStore
  testRegex : JsString → JsString → Bool
  subjectType : SubjectType
  id : Option JsString

namespace RolesContext

variable (context : RolesContext)

def byCurrentRole : Option PermissionRole → PermissionFilter
  | some role => byRole role
  | none =>
    someFilter
      [ byEveryoneRole,
        byAdminRole context.toAuthorizationContext context.subjectType context.id,
        bySubjectRole context.store context.subjectType context.recordName context.id ]

def findAction (filter : PermissionFilter) (role : Option PermissionRole) (marker : MarkerPermission) :
    Option (Option PossiblePermission) :=
  findPermissionByFilter marker.permissions (everyFilter [filter, context.byCurrentRole role])

def findPolicy (action : PolicyAction) (role : PermissionRole) (marker : MarkerPermission) :
    Option (Option PossiblePermission) :=
  findPermissionByFilter marker.permissions
    (everyFilter
      [byPolicy context.testRegex action marker.marker, someFilter [byEveryoneRole, byRole role]])

def missing (marker : MarkerPermission) (permission : PermissionType) (role : Option PermissionRole) :
    DenialReason :=
  .missingPermission context.subjectType context.id marker.marker permission role

end RolesContext

/-- The end of a function that fixes a role: an empty one is none. -/
def withRole (role : Option PermissionRole) (markers : List MarkerAuthorization) : GenericResult :=
  match role with
  | none => .error .missingRole
  | some role => if role = .named [] then .error .missingRole else .ok { role := role, markers := markers }

section Subject

variable (context : RolesContext) (type : PermissionType) (filter : PermissionFilter)

/-- Every marker has to allow the action, and what `assigns` asks of it. Nothing where a filter throws. -/
def authorizeEvery (assigns : JsString → Option PolicyAction) :
    Option PermissionRole → List MarkerAuthorization → List MarkerPermission → Option GenericResult
  | role, authorizations, [] => some (withRole role authorizations)
  | role, authorizations, marker :: rest =>
    match context.findAction filter role marker with
    | none => none
    | some none => some (.error (context.missing marker type role))
    | some (some found) =>
      let role := role.getD found.permission.role
      let action : ActionAuthorization := ⟨type, found⟩
      match assigns marker.marker with
      | none => authorizeEvery assigns (some role) (authorizations ++ [⟨marker.marker, [action]⟩]) rest
      | some policy =>
        match context.findPolicy policy found.permission.role marker with
        | none => none
        | some none => some (.error (context.missing marker (.policy policy) role))
        | some (some granting) =>
          authorizeEvery assigns (some role)
            (authorizations ++ [⟨marker.marker, [action, ⟨.policy policy, granting⟩]⟩]) rest

def authorizeAny : Option DenialReason → List MarkerPermission → Option GenericResult
  | denialReason, [] => some (.error (denialReason.getD .missingRole))
  | _, marker :: rest =>
    match context.findAction filter none marker with
    | none => none
    | some none => authorizeAny (some (context.missing marker type none)) rest
    | some (some found) =>
      some (.ok { role := found.permission.role, markers := [⟨marker.marker, [⟨type, found⟩]⟩] })

end Subject

namespace MarkerChange

def isAdded (change : MarkerChange) (marker : JsString) : Bool := marker ∈ change.addedMarkers.getD []

def isRemoved (change : MarkerChange) (marker : JsString) : Bool := marker ∈ change.removedMarkers.getD []

def assigns (change : MarkerChange) (marker : JsString) : Option PolicyAction :=
  if change.isAdded marker then some .assign
  else if change.isRemoved marker then some .unassign
  else none

/-- `willMarkersBeRemaining`. -/
def remaining (change : MarkerChange) : Bool :=
  match change.removedMarkers with
  | none => true
  | some removed =>
    change.addedMarkers.getD [] ≠ [] ∨ change.existingMarkers.length ≠ removed.length ∨
      ¬ ∀ marker ∈ change.existingMarkers, marker ∈ removed

def union (change : MarkerChange) : List JsString :=
  (change.existingMarkers ++ (change.addedMarkers.getD [] ++ change.removedMarkers.getD [])).eraseDups

end MarkerChange

section Changes

variable (context : RolesContext) (type : PermissionType) (filter : PermissionFilter)
  (change : MarkerChange)

def authorizeChange : Option PermissionRole → Bool → Option DenialReason → List MarkerAuthorization →
    List MarkerPermission → Option GenericResult
  | role, hasPermissionFromExistingMarker, denialReason, authorizations, [] =>
    match hasPermissionFromExistingMarker, denialReason with
    | false, some reason => some (.error reason)
    | _, _ => some (withRole role authorizations)
  | role, hasPermissionFromExistingMarker, denialReason, authorizations, marker :: rest =>
    match context.findAction filter role marker with
    | none => none
    | some none =>
      let reason := context.missing marker type role
      if change.isAdded marker.marker ∨ change.isRemoved marker.marker then some (.error reason)
      else authorizeChange role hasPermissionFromExistingMarker (some reason) authorizations rest
    | some (some found) =>
      let existing := hasPermissionFromExistingMarker || decide (marker.marker ∈ change.existingMarkers)
      let role := role.getD found.permission.role
      let action : ActionAuthorization := ⟨type, found⟩
      match change.assigns marker.marker with
      | none =>
        authorizeChange (some role) existing denialReason
          (authorizations ++ [⟨marker.marker, [action]⟩]) rest
      | some policy =>
        match context.findPolicy policy found.permission.role marker with
        | none => none
        | some none => some (.error (context.missing marker (.policy policy) role))
        | some (some granting) =>
          authorizeChange (some role) existing denialReason
            (authorizations ++ [⟨marker.marker, [action, ⟨.policy policy, granting⟩]⟩]) rest

end Changes

/-! ### The actions -/

section Actions

variable (context : RolesContext) (markers : List MarkerPermission)

def authorizeCreateData (address : JsString) : Option GenericResult :=
  authorizeEvery context (.data .create) (byData context.testRegex .create address)
    (fun _ => some .assign) none [] markers

def authorizeDataRead (address : JsString) : Option GenericResult :=
  authorizeAny context (.data .read) (byData context.testRegex .read address) none markers

def authorizeDataUpdate (address : JsString) (change : MarkerChange) : Option GenericResult :=
  authorizeChange context (.data .update) (byData context.testRegex .update address) change
    none false none [] markers

def authorizeDataDelete (address : JsString) : Option GenericResult :=
  authorizeAny context (.data .delete) (byData context.testRegex .delete address) none markers

def authorizeFileCreate (file : FileInfo) : Option GenericResult :=
  authorizeEvery context (.file .create) (byFile .create file) (fun _ => some .assign) none [] markers

def authorizeFileRead (file : FileInfo) : Option GenericResult :=
  authorizeAny context (.file .read) (byFile .read file) none markers

def authorizeFileUpdate (file : FileInfo) (change : MarkerChange) : Option GenericResult :=
  if change.addedMarkers.getD [] = [] ∧ change.removedMarkers.getD [] = [] then some (.error .noMarkers)
  else if ¬ change.remaining then some (.error .noMarkersRemaining)
  else authorizeEvery context (.file .update) (byFile .update file) change.assigns none [] markers

def authorizeFileDelete (file : FileInfo) : Option GenericResult :=
  authorizeAny context (.file .delete) (byFile .delete file) none markers

def authorizeEventCount (eventName : JsString) : Option GenericResult :=
  authorizeAny context (.event .count) (byEvent context.testRegex .count eventName) none markers

def authorizeEventIncrement (eventName : JsString) : Option GenericResult :=
  authorizeAny context (.event .increment) (byEvent context.testRegex .increment eventName) none markers

def authorizeEventUpdate (eventName : JsString) (change : MarkerChange) : Option GenericResult :=
  authorizeChange context (.event .update) (byEvent context.testRegex .update eventName) change
    none false none [] markers

end Actions

/-! ### Requests -/

def listPermissionsForMarkers (store : PolicyStore) (recordName : JsString)
    (resourceMarkers : List JsString) : List MarkerPermission :=
  resourceMarkers.map (fun marker =>
    { marker := marker
      permissions := (store.listPoliciesForMarker recordName marker).flatMap (fun policy =>
        policy.permissions.map (fun permission => ⟨policy, permission⟩)) })

/-- Nothing where deciding an instance throws. -/
def authorizeInstances (recordKeyValid : Bool) (authorize : JsString → Option GenericResult) :
    List JsString → Option (Except DenialReason (List InstAuthorization))
  | [] => some (.ok [])
  | inst :: rest =>
    if recordKeyValid then
      (authorizeInstances recordKeyValid authorize rest).map
        (fun result => result.map (fun later => .notRequired inst :: later))
    else
      match authorize inst with
      | none => none
      | some (.error reason) => some (.error reason)
      | some (.ok authorization) =>
        (authorizeInstances recordKeyValid authorize rest).map
          (fun result => result.map (fun later => .allowed inst authorization :: later))

section Requests

variable (store : PolicyStore) (testRegex : JsString → JsString → Bool) (context : AuthorizationContext)
  (request : AuthorizeRequest)

def subjectContext (subjectType : SubjectType) (id : Option JsString) : RolesContext :=
  { context with store := store, testRegex := testRegex, subjectType := subjectType, id := id }

/-- `_authorizeRequest`. -/
def authorizeRequestFor (resourceMarkers : List JsString)
    (authorize : RolesContext → List MarkerPermission → Option GenericResult) : Option AuthorizeResult :=
  if maxAllowedInstances < (request.instances.getD []).length then
    some (.error notAuthorizedToManyInstancesResult)
  else if resourceMarkers = [] then some (.error (notAuthorizedResult .noMarkers))
  else
    let markers := listPermissionsForMarkers store context.recordName resourceMarkers
    match authorize (subjectContext store testRegex context .user request.userId) markers with
    | none => none
    | some (.error reason) =>
      if idText request.userId = [] ∧ ¬ context.recordKeyProvided then some (.error notLoggedInResult)
      else some (.error (notAuthorizedResult reason))
    | some (.ok subject) =>
      match authorizeInstances context.recordKeyResult.isSome
          (fun inst => authorize (subjectContext store testRegex context .inst (some inst)) markers)
          (request.instances.getD []) with
      | none => none
      | some (.error reason) => some (.error (notAuthorizedResult reason))
      | some (.ok instances) =>
        let recordKeyOwnerId := context.recordKeyResult.map (fun result => result.keyCreatorId)
        some (.ok
          { recordName := context.recordName
            recordKeyOwnerId := recordKeyOwnerId
            authorizerId := recordKeyOwnerId.or request.userId
            subject := subject
            userId := request.userId
            subjectPolicy := context.subjectPolicy
            instances := instances })

/-- `_authorizeRequestUsingContext`. -/
def authorizeAction : Option AuthorizeResult :=
  match request.action with
  | .dataCreate address resourceMarkers =>
    authorizeRequestFor store testRegex context request resourceMarkers
      (fun c markers => authorizeCreateData c markers address)
  | .dataRead address resourceMarkers =>
    authorizeRequestFor store testRegex context request resourceMarkers
      (fun c markers => authorizeDataRead c markers address)
  | .dataUpdate address change =>
    if change.remaining then
      authorizeRequestFor store testRegex context request change.union
        (fun c markers => authorizeDataUpdate c markers address change)
    else some (.error (notAuthorizedResult .noMarkersRemaining))
  | .dataDelete address resourceMarkers =>
    authorizeRequestFor store testRegex context request resourceMarkers
      (fun c markers => authorizeDataDelete c markers address)
  | .fileCreate file resourceMarkers =>
    authorizeRequestFor store testRegex context request resourceMarkers
      (fun c markers => authorizeFileCreate c markers file)
  | .fileRead file resourceMarkers =>
    authorizeRequestFor store testRegex context request resourceMarkers
      (fun c markers => authorizeFileRead c markers file)
  | .fileUpdate file change =>
    authorizeRequestFor store testRegex context request change.union
      (fun c markers => authorizeFileUpdate c markers file change)
  | .fileDelete file resourceMarkers =>
    authorizeRequestFor store testRegex context request resourceMarkers
      (fun c markers => authorizeFileDelete c markers file)
  | .eventCount eventName resourceMarkers =>
    authorizeRequestFor store testRegex context request resourceMarkers
      (fun c markers => authorizeEventCount c markers eventName)
  | .eventIncrement eventName resourceMarkers =>
    authorizeRequestFor store testRegex context request resourceMarkers
      (fun c markers => authorizeEventIncrement c markers eventName)
  | .eventUpdate eventName change =>
    if change.remaining then
      authorizeRequestFor store testRegex context request change.union
        (fun c markers => authorizeEventUpdate c markers eventName change)
    else some (.error (notAuthorizedResult .noMarkersRemaining))

def authorizeRequestUsingContext : AuthorizeResult :=
  (authorizeAction store testRegex context request).getD (.error serverErrorResult)

def allowed : Bool := (authorizeRequestUsingContext store testRegex context request).isOk

end Requests

/-! ### All actions at once -/

namespace Action

def markers : Action → List JsString
  | dataCreate _ markers | dataRead _ markers | dataDelete _ markers | fileCreate _ markers
  | fileRead _ markers | fileDelete _ markers | eventCount _ markers | eventIncrement _ markers => markers
  | dataUpdate _ change | fileUpdate _ change | eventUpdate _ change => change.union

/-- How one subject is decided. -/
def authorize : Action → RolesContext → List MarkerPermission → Option GenericResult
  | dataCreate address _, c, markers => authorizeCreateData c markers address
  | dataRead address _, c, markers => authorizeDataRead c markers address
  | dataUpdate address change, c, markers => authorizeDataUpdate c markers address change
  | dataDelete address _, c, markers => authorizeDataDelete c markers address
  | fileCreate file _, c, markers => authorizeFileCreate c markers file
  | fileRead file _, c, markers => authorizeFileRead c markers file
  | fileUpdate file change, c, markers => authorizeFileUpdate c markers file change
  | fileDelete file _, c, markers => authorizeFileDelete c markers file
  | eventCount eventName _, c, markers => authorizeEventCount c markers eventName
  | eventIncrement eventName _, c, markers => authorizeEventIncrement c markers eventName
  | eventUpdate eventName change, c, markers => authorizeEventUpdate c markers eventName change

/-- Whether the action is turned down because no marker would remain. -/
def emptied : Action → Bool
  | dataUpdate _ change | eventUpdate _ change => ! change.remaining
  | _ => false

end Action

theorem authorizeAction_eq (store : PolicyStore) (testRegex : JsString → JsString → Bool)
    (context : AuthorizationContext) (request : AuthorizeRequest) :
    authorizeAction store testRegex context request =
      if request.action.emptied then some (.error (notAuthorizedResult .noMarkersRemaining))
      else authorizeRequestFor store testRegex context request request.action.markers
        request.action.authorize := by
  cases same : request.action with
  | dataUpdate address change =>
    simp only [authorizeAction, same, Action.emptied, Action.markers, Bool.not_eq_true']
    cases change.remaining <;> rfl
  | eventUpdate eventName change =>
    simp only [authorizeAction, same, Action.emptied, Action.markers, Bool.not_eq_true']
    cases change.remaining <;> rfl
  | dataCreate address markers => simp only [authorizeAction, same]; rfl
  | dataRead address markers => simp only [authorizeAction, same]; rfl
  | dataDelete address markers => simp only [authorizeAction, same]; rfl
  | fileCreate file markers => simp only [authorizeAction, same]; rfl
  | fileRead file markers => simp only [authorizeAction, same]; rfl
  | fileUpdate file change => simp only [authorizeAction, same]; rfl
  | fileDelete file markers => simp only [authorizeAction, same]; rfl
  | eventCount eventName markers => simp only [authorizeAction, same]; rfl
  | eventIncrement eventName markers => simp only [authorizeAction, same]; rfl

end CasualOS.PolicyController
