import CasualOS.AuthorizationSound

/-! The operations of the data, file and event controllers that write, over the stores in memory. -/

namespace CasualOS.RecordWrites

open PolicyController
open JsString (lit)

/-! ### The stores -/

inductive UserPolicy where
  | everyone
  | only (ids : List JsString)
  deriving DecidableEq, Repr

/-- `doesSubjectMatchPolicy`. -/
def UserPolicy.matches : UserPolicy → Option JsString → Bool
  | .everyone, _ => true
  | .only ids, subjectId => ids.any (fun id => some id = subjectId)

structure RecordData where
  data : JsString
  publisherId : Option JsString
  subjectId : Option JsString
  updatePolicy : Option UserPolicy
  deletePolicy : Option UserPolicy
  markers : Option (List JsString)
  deriving DecidableEq, Repr

structure StoredFile where
  fileName : JsString
  recordName : JsString
  publisherId : Option JsString
  subjectId : Option JsString
  sizeInBytes : Rat
  uploaded : Bool
  description : JsString
  markers : Option (List JsString)
  deriving DecidableEq, Repr

structure EventData where
  count : Rat
  markers : Option (List JsString)
  deriving DecidableEq, Repr

/-- What is missing of the updates stays as it was. -/
def EventData.merge (event : EventData) (count : Option Rat) (markers : Option (List JsString)) : EventData where
  count := count.getD event.count
  markers := markers.or event.markers

/-- Files are found by their name alone. -/
structure RecordStores where
  data : JsString → JsString → Option RecordData
  files : JsString → Option StoredFile
  events : JsString → JsString → Option EventData

namespace RecordStores

variable (s : RecordStores)

def setData (recordName address : JsString) (record : RecordData) : RecordStores :=
  { s with
    data := Function.update s.data recordName
      (Function.update (s.data recordName) address (some record)) }

def eraseData (recordName address : JsString) : RecordStores :=
  { s with data := Function.update s.data recordName (Function.update (s.data recordName) address none) }

def addFileRecord (file : StoredFile) : RecordStores :=
  { s with files := Function.update s.files file.fileName (some file) }

def updateFileRecord (fileName : JsString) (file : StoredFile) (markers : List JsString) : RecordStores :=
  { s with files := Function.update s.files fileName (some { file with markers := some markers }) }

def eraseFileRecord (fileName : JsString) : RecordStores :=
  { s with files := Function.update s.files fileName none }

def setEvent (recordName eventName : JsString) (event : EventData) : RecordStores :=
  { s with
    events := Function.update s.events recordName
      (Function.update (s.events recordName) eventName (some event)) }

def getEventCount (recordName eventName : JsString) : EventData :=
  (s.events recordName eventName).getD { count := 0, markers := none }

def addEventCount (recordName eventName : JsString) (count : Rat) : RecordStores :=
  let event := s.getEventCount recordName eventName
  s.setEvent recordName eventName { event with count := event.count + count }

def updateEvent (recordName eventName : JsString) (count : Option Rat) (markers : Option (List JsString)) :
    RecordStores :=
  s.setEvent recordName eventName ((s.getEventCount recordName eventName).merge count markers)

end RecordStores

/-! ### Markers -/

def getMarkersOrDefault (markers : Option (List JsString)) : List JsString :=
  if markers.getD [] = [] then [publicReadMarker] else markers.getD []

def without (markers values : List JsString) : List JsString := markers.filter (fun marker => marker ∉ values)

def markerChange (existingMarkers : List JsString) (markers : Option (List JsString)) : MarkerChange where
  existingMarkers := existingMarkers
  addedMarkers := some (markers.elim [] (fun given => without given existingMarkers))
  removedMarkers := some (markers.elim [] (fun given => without existingMarkers given))

/-! ### Failures -/

/-- The message of `alreadyExists`, whose code is `file_already_exists`, says where the file has already been
uploaded to. -/
inductive WriteFailure where
  | invalid (failure : ValidateFailure)
  | denied (denial : AuthorizeDenied)
  | failed (errorCode errorMessage : String)
  | alreadyExists (existingFileUrl : JsString)
  deriving DecidableEq, Repr

def require (holds : Prop) [Decidable holds] (errorCode errorMessage : String) : Except WriteFailure Unit :=
  if holds then .ok () else .error (.failed errorCode errorMessage)

/-- Everything but the stores that the operations read. `getType` and `getExtension` are those of `mime`. -/
structure Services where
  platform : Platform
  records : MemoryRecordsStore
  policies : PolicyStore
  testRegex : JsString → JsString → Bool
  getType : JsString → Option JsString
  getExtension : JsString → Option JsString

namespace Services

variable (w : Services)

def constructAuthorizationContext (recordKeyOrRecordName : JsString) :
    Except WriteFailure AuthorizationContext :=
  match PolicyController.constructAuthorizationContext w.platform w.records recordKeyOrRecordName with
  | .error failure => .error (.invalid failure)
  | .ok context => .ok context

def authorizeRequestUsingContext (context : AuthorizationContext) (request : AuthorizeRequest) :
    Except WriteFailure AuthorizeAllowed :=
  match PolicyController.authorizeRequestUsingContext w.policies w.testRegex context request with
  | .error denial => .error (.denied denial)
  | .ok answer => .ok answer

/-- The context is made anew. -/
def authorizeRequest (recordKeyOrRecordName : JsString) (request : AuthorizeRequest) :
    Except WriteFailure AuthorizeAllowed := do
  let context ← w.constructAuthorizationContext recordKeyOrRecordName
  w.authorizeRequestUsingContext context request

end Services

/-- A user is there, or need not be. -/
def MayGoOn (userId : Option JsString) (policy : JsString) : Prop := idText userId ≠ [] ∨ policy = subjectless

instance (userId : Option JsString) (policy : JsString) : Decidable (MayGoOn userId policy) :=
  inferInstanceAs (Decidable (_ ∨ _))

section Operations

variable (w : Services) (s : RecordStores)

/-! ### Data -/

/-- A policy that was given: none, one that is valid, or something else. -/
inductive GivenPolicy where
  | missing
  | valid (policy : UserPolicy)
  | unsupported
  deriving DecidableEq, Repr

def GivenPolicy.check : GivenPolicy → String → String → Except WriteFailure UserPolicy
  | .missing, _, _ => .ok .everyone
  | .valid policy, _, _ => .ok policy
  | .unsupported, errorCode, errorMessage => .error (.failed errorCode errorMessage)

structure Written where
  recordName : JsString
  address : JsString
  deriving DecidableEq, Repr

def recordData (recordKeyOrRecordName address data : JsString) (subjectId : Option JsString)
    (updatePolicy deletePolicy : GivenPolicy) (markers instances : Option (List JsString)) :
    Except WriteFailure (RecordStores × Written) := do
  let context ← w.constructAuthorizationContext recordKeyOrRecordName
  let policy := context.subjectPolicy
  require (MayGoOn subjectId policy) "not_logged_in" "The user must be logged in in order to record data."
  let storedId := if policy = subjectless then none else subjectId
  let updatePolicy ← updatePolicy.check "invalid_update_policy"
    "The given updatePolicy is invalid or not supported."
  let deletePolicy ← deletePolicy.check "invalid_delete_policy"
    "The given deletePolicy is invalid or not supported."
  require (policy = subjectless → updatePolicy = .everyone) "invalid_record_key"
    "It is not possible to set update policies using a subjectless key."
  require (policy = subjectless → deletePolicy = .everyone) "invalid_record_key"
    "It is not possible to set delete policies using a subjectless key."
  let recordName := context.recordName
  match s.data recordName address with
  | some existing =>
    require ((existing.updatePolicy.getD .everyone).matches storedId) "not_authorized"
      "The updatePolicy does not permit this user to update the data record."
    let existingMarkers := existing.markers.getD [publicReadMarker]
    let answer ← w.authorizeRequestUsingContext context
      ⟨subjectId, instances, .dataUpdate address (markerChange existingMarkers markers)⟩
    .ok (s.setData recordName address
      ⟨data, answer.authorizerId, storedId, some updatePolicy, some deletePolicy,
        some (markers.getD existingMarkers)⟩, ⟨recordName, address⟩)
  | none =>
    let resourceMarkers := markers.getD [publicReadMarker]
    let answer ← w.authorizeRequestUsingContext context
      ⟨subjectId, instances, .dataCreate address resourceMarkers⟩
    .ok (s.setData recordName address
      ⟨data, answer.authorizerId, storedId, some updatePolicy, some deletePolicy,
        some resourceMarkers⟩, ⟨recordName, address⟩)

def eraseData (recordKeyOrName address : JsString) (subjectId : Option JsString)
    (instances : Option (List JsString)) : Except WriteFailure (RecordStores × Written) := do
  let context ← w.constructAuthorizationContext recordKeyOrName
  let policy := context.subjectPolicy
  require (MayGoOn subjectId policy) "not_logged_in"
    "The user must be logged in in order to erase data using the provided record key."
  let storedId := if policy = subjectless then none else subjectId
  let recordName := context.recordName
  let existingRecord := s.data recordName address
  let markers := (existingRecord.bind (fun existing => existing.markers)).getD [publicReadMarker]
  let answer ← w.authorizeRequestUsingContext context ⟨subjectId, instances, .dataDelete address markers⟩
  match existingRecord with
  | some existing =>
    require (storedId = answer.recordKeyOwnerId ∨
        (existing.deletePolicy.getD .everyone).matches storedId) "not_authorized"
      "The deletePolicy does not permit this user to erase the data record."
    .ok (s.eraseData recordName address, ⟨recordName, address⟩)
  | none => .error (.failed "data_not_found" "The data was not found.")

/-! ### Files -/

structure RecordFileRequest where
  fileSha256Hex : JsString
  fileByteLength : Rat
  fileMimeType : JsString
  fileDescription : JsString
  headers : JsString → Option JsString
  markers : Option (List JsString)
  instances : Option (List JsString)

structure RecordFileSuccess where
  fileName : JsString
  uploadUrl : JsString
  uploadHeaders : JsString → Option JsString
  uploadMethod : String
  markers : List JsString

def slash : JsString := lit ['/']

def fileUploadUrl : JsString :=
  lit
    ['h', 't', 't', 'p', ':', '/', '/', 'l', 'o', 'c', 'a', 'l', 'h', 'o', 's', 't', ':', '9', '1', '9', '1']

def recordNameHeader : JsString :=
  lit ['r', 'e', 'c', 'o', 'r', 'd', '-', 'n', 'a', 'm', 'e']

def contentTypeHeader : JsString :=
  lit ['c', 'o', 'n', 't', 'e', 'n', 't', '-', 't', 'y', 'p', 'e']

/-- The result of recording a file, with what `presignFileUpload` answers. -/
def presigned (recordName fileName : JsString) (markers : List JsString) (request : RecordFileRequest) :
    RecordFileSuccess where
  fileName := fileName
  uploadUrl := fileUploadUrl ++ slash ++ recordName ++ slash ++ fileName
  uploadHeaders := Function.update (Function.update request.headers recordNameHeader (some recordName))
    contentTypeHeader (some request.fileMimeType)
  uploadMethod := "POST"
  markers := markers

def fileNameOf (request : RecordFileRequest) : JsString :=
  match w.getExtension request.fileMimeType with
  | none => request.fileSha256Hex
  | some extension =>
    if extension = [] then request.fileSha256Hex else request.fileSha256Hex ++ (period :: extension)

def recordFile (recordKeyOrRecordName : JsString) (userId : Option JsString) (request : RecordFileRequest) :
    Except WriteFailure (RecordStores × RecordFileSuccess) := do
  let markers := getMarkersOrDefault request.markers
  let answer ← w.authorizeRequest recordKeyOrRecordName
    ⟨userId, request.instances, .fileCreate ⟨request.fileByteLength, some request.fileMimeType⟩ markers⟩
  require (MayGoOn answer.userId answer.subjectPolicy) "not_logged_in"
    "The user must be logged in in order to record files."
  let storedId := if answer.subjectPolicy = subjectless then none else answer.userId
  let fileName := fileNameOf w request
  let success := presigned answer.recordName fileName markers request
  match s.files fileName with
  | none =>
    .ok (s.addFileRecord
      { fileName := fileName
        recordName := answer.recordName
        publisherId := answer.authorizerId
        subjectId := storedId
        sizeInBytes := request.fileByteLength
        uploaded := false
        description := request.fileDescription
        markers := some markers }, success)
  | some file =>
    if file.uploaded then .error (.alreadyExists (file.recordName ++ slash ++ file.fileName))
    else .ok (s, success)

def getFileRecord (fileName : JsString) : Except WriteFailure StoredFile :=
  match s.files fileName with
  | none => .error (.failed "file_not_found" "The file was not found in the store.")
  | some file => .ok file

def eraseFile (recordKeyOrRecordName fileName : JsString) (subjectId : Option JsString)
    (instances : Option (List JsString)) : Except WriteFailure (RecordStores × Written) := do
  let context ← w.constructAuthorizationContext recordKeyOrRecordName
  let file ← getFileRecord s fileName
  let answer ← w.authorizeRequestUsingContext context
    ⟨subjectId, instances,
      .fileDelete ⟨file.sizeInBytes, w.getType file.fileName⟩ (getMarkersOrDefault file.markers)⟩
  require (MayGoOn answer.userId answer.subjectPolicy) "not_logged_in"
    "The user must be logged in in order to erase files."
  .ok (s.eraseFileRecord fileName, ⟨answer.recordName, fileName⟩)

def updateFile (recordKeyOrRecordName fileName : JsString) (subjectId : Option JsString)
    (markers instances : Option (List JsString)) : Except WriteFailure (RecordStores × Unit) := do
  let context ← w.constructAuthorizationContext recordKeyOrRecordName
  let file ← getFileRecord s fileName
  let existingMarkers := getMarkersOrDefault file.markers
  let answer ← w.authorizeRequestUsingContext context
    ⟨subjectId, instances,
      .fileUpdate ⟨file.sizeInBytes, w.getType file.fileName⟩ (markerChange existingMarkers markers)⟩
  require (MayGoOn answer.userId answer.subjectPolicy) "not_logged_in"
    "The user must be logged in in order to update files."
  .ok (s.updateFileRecord fileName file (markers.getD existingMarkers), ())

/-! ### Events -/

structure Counted where
  recordName : JsString
  eventName : JsString
  countAdded : Rat
  deriving DecidableEq, Repr

def addCount (recordKeyOrRecordName eventName : JsString) (count : Rat) (subjectId : Option JsString)
    (instances : Option (List JsString)) : Except WriteFailure (RecordStores × Counted) := do
  let context ← w.constructAuthorizationContext recordKeyOrRecordName
  let recordName := context.recordName
  let event := s.getEventCount recordName eventName
  let answer ← w.authorizeRequestUsingContext context
    ⟨subjectId, instances, .eventIncrement eventName (getMarkersOrDefault event.markers)⟩
  require (MayGoOn subjectId answer.subjectPolicy) "not_logged_in"
    "The user must be logged in in order to record events."
  .ok (s.addEventCount recordName eventName count, ⟨recordName, eventName, count⟩)

/-- The one operation that does not ask whether a user is there. -/
def updateEvent (recordKeyOrRecordName eventName : JsString) (userId : Option JsString)
    (count : Option Rat) (markers instances : Option (List JsString)) : Except WriteFailure (RecordStores × Unit) := do
  let context ← w.constructAuthorizationContext recordKeyOrRecordName
  let recordName := context.recordName
  let event := s.getEventCount recordName eventName
  let _ ← w.authorizeRequest recordKeyOrRecordName
    ⟨userId, instances, .eventUpdate eventName (markerChange (getMarkersOrDefault event.markers) markers)⟩
  .ok (s.updateEvent recordName eventName count markers, ())

/-! ### Calls -/

inductive RecordCall where
  | recordData (recordKeyOrRecordName address data : JsString) (subjectId : Option JsString)
      (updatePolicy deletePolicy : GivenPolicy) (markers instances : Option (List JsString))
  | eraseData (recordKeyOrName address : JsString) (subjectId : Option JsString)
      (instances : Option (List JsString))
  | recordFile (recordKeyOrRecordName : JsString) (userId : Option JsString) (request : RecordFileRequest)
  | eraseFile (recordKeyOrRecordName fileName : JsString) (subjectId : Option JsString)
      (instances : Option (List JsString))
  | updateFile (recordKeyOrRecordName fileName : JsString) (subjectId : Option JsString)
      (markers instances : Option (List JsString))
  | addCount (recordKeyOrRecordName eventName : JsString) (count : Rat) (subjectId : Option JsString)
      (instances : Option (List JsString))
  | updateEvent (recordKeyOrRecordName eventName : JsString) (userId : Option JsString)
      (count : Option Rat) (markers instances : Option (List JsString))

namespace RecordCall

def recordKey : RecordCall → JsString
  | recordData key _ _ _ _ _ _ _ | eraseData key _ _ _ | recordFile key _ _ | eraseFile key _ _ _
  | updateFile key _ _ _ _ | addCount key _ _ _ _ | updateEvent key _ _ _ _ _ => key

def userId : RecordCall → Option JsString
  | recordData _ _ _ userId _ _ _ _ | eraseData _ _ userId _ | recordFile _ userId _ | eraseFile _ _ userId _
  | updateFile _ _ userId _ _ | addCount _ _ _ userId _ | updateEvent _ _ userId _ _ _ => userId

end RecordCall

/-- The stores after an operation, which are those before where it failed. -/
def after {α : Type} : Except WriteFailure (RecordStores × α) → RecordStores
  | .error _ => s
  | .ok (stores, _) => stores

def perform : RecordCall → RecordStores
  | .recordData key address data subjectId updatePolicy deletePolicy markers instances =>
    after s (recordData w s key address data subjectId updatePolicy deletePolicy markers instances)
  | .eraseData key address subjectId instances => after s (eraseData w s key address subjectId instances)
  | .recordFile key userId request => after s (recordFile w s key userId request)
  | .eraseFile key fileName subjectId instances => after s (eraseFile w s key fileName subjectId instances)
  | .updateFile key fileName subjectId markers instances =>
    after s (updateFile w s key fileName subjectId markers instances)
  | .addCount key eventName count subjectId instances =>
    after s (addCount w s key eventName count subjectId instances)
  | .updateEvent key eventName userId count markers instances =>
    after s (updateEvent w s key eventName userId count markers instances)

end Operations

/-! ### What a success says -/

theorem bind_ok {ε α β : Type} {x : Except ε α} {f : α → Except ε β} {b : β} (done : (x >>= f) = .ok b) :
    ∃ a, x = .ok a ∧ f a = .ok b := by
  cases x with
  | error failure => cases done
  | ok a => exact ⟨a, rfl, done⟩

theorem require_ok {holds : Prop} [Decidable holds] {errorCode errorMessage : String} {done : Unit}
    (checked : require holds errorCode errorMessage = .ok done) : holds := by
  unfold require at checked
  split at checked
  · assumption
  · cases checked

/-- A key that validates and needs no user. -/
def SubjectlessKey (w : Services) (recordKey : JsString) : Prop :=
  ∃ success, w.platform.validatePublicRecordKey w.records recordKey = .ok success ∧
    success.policy = subjectless

def Answerable (w : Services) (userId : Option JsString) (recordKey : JsString) : Prop :=
  idText userId ≠ [] ∨ SubjectlessKey w recordKey

section Checked

variable {w : Services} {s : RecordStores} {context : AuthorizationContext} {request : AuthorizeRequest}
  {recordKey : JsString}

theorem context_ok (built : w.constructAuthorizationContext recordKey = .ok context) :
    PolicyController.constructAuthorizationContext w.platform w.records recordKey = .ok context := by
  unfold Services.constructAuthorizationContext at built
  split at built
  · cases built
  · rename_i same
    rw [same, ← Except.ok.inj built]

theorem subjectless_key (built : w.constructAuthorizationContext recordKey = .ok context)
    (policy : context.subjectPolicy = subjectless) :
    SubjectlessKey w recordKey ∧ context.recordKeyResult.isSome = true := by
  have made := context_ok built
  unfold PolicyController.constructAuthorizationContext at made
  split at made
  · split at made
    · cases made
    · rename_i result valid
      rw [← Except.ok.inj made] at policy ⊢
      exact ⟨⟨result, valid, policy⟩, rfl⟩
  · split at made
    · cases made
    · rw [← Except.ok.inj made] at policy
      have differ : subjectfull ≠ subjectless := by decide
      exact absurd policy differ

theorem answerable {userId : Option JsString}
    (built : w.constructAuthorizationContext recordKey = .ok context)
    (checked : MayGoOn userId context.subjectPolicy) : Answerable w userId recordKey :=
  checked.imp_right fun policy => (subjectless_key built policy).1

variable {answer : AuthorizeAllowed} {key : JsString} {subjectId : Option JsString}
  {instances : Option (List JsString)} {result : Written}

theorem requestFor_repeats {store : PolicyStore} {testRegex : JsString → JsString → Bool}
    {markers : List JsString} {authorize : RolesContext → List MarkerPermission → Option GenericResult}
    (allowed : authorizeRequestFor store testRegex context request markers authorize = some (.ok answer)) :
    answer.userId = request.userId ∧ answer.subjectPolicy = context.subjectPolicy ∧
      answer.recordKeyOwnerId = context.recordKeyResult.map (fun result => result.keyCreatorId) := by
  unfold authorizeRequestFor at allowed
  split at allowed
  · cases allowed
  · split at allowed
    · cases allowed
    · simp only at allowed
      split at allowed
      · cases allowed
      · split at allowed <;> cases allowed
      · split at allowed
        · cases allowed
        · cases allowed
        · rw [← Except.ok.inj (Option.some.inj allowed)]
          exact ⟨rfl, rfl, rfl⟩

theorem requestFor_of_answer (allowed : w.authorizeRequestUsingContext context request = .ok answer) :
    authorizeRequestFor w.policies w.testRegex context request request.action.markers
      request.action.authorize = some (.ok answer) := by
  unfold Services.authorizeRequestUsingContext at allowed
  split at allowed
  · cases allowed
  · rename_i given decided
    rw [← Except.ok.inj allowed]
    rw [PolicyController.authorizeRequestUsingContext, authorizeAction_eq] at decided
    split at decided
    · cases decided
    · cases result : authorizeRequestFor w.policies w.testRegex context request request.action.markers
          request.action.authorize with
      | none => rw [result] at decided; cases decided
      | some outcome =>
        rw [result] at decided
        have same : outcome = .ok given := decided
        rw [same]

theorem answer_repeats (allowed : w.authorizeRequestUsingContext context request = .ok answer) :
    answer.userId = request.userId ∧ answer.subjectPolicy = context.subjectPolicy ∧
      answer.recordKeyOwnerId = context.recordKeyResult.map (fun result => result.keyCreatorId) :=
  requestFor_repeats (requestFor_of_answer allowed)

theorem answer_answerable (built : w.constructAuthorizationContext recordKey = .ok context)
    (allowed : w.authorizeRequestUsingContext context request = .ok answer)
    (checked : MayGoOn answer.userId answer.subjectPolicy) : Answerable w request.userId recordKey := by
  have ⟨user, policy, _⟩ := answer_repeats allowed
  rw [user, policy] at checked
  exact answerable built checked

/-! ### The operations that ask for a user -/

variable {α : Type} {stores : RecordStores}

theorem recordData_checked {address data : JsString}
    {updatePolicy deletePolicy : GivenPolicy} {markers : Option (List JsString)}
    (done : recordData w s key address data subjectId updatePolicy deletePolicy markers instances =
      .ok (stores, result)) : Answerable w subjectId key := by
  have ⟨context, built, rest⟩ := bind_ok done
  have ⟨_, checked, _⟩ := bind_ok rest
  exact answerable built (require_ok checked)

theorem eraseData_checked {address : JsString}
    (done : eraseData w s key address subjectId instances = .ok (stores, result)) :
    Answerable w subjectId key := by
  have ⟨context, built, rest⟩ := bind_ok done
  have ⟨_, checked, _⟩ := bind_ok rest
  exact answerable built (require_ok checked)

theorem recordFile_checked {userId : Option JsString} {request : RecordFileRequest}
    {result : RecordFileSuccess} (done : recordFile w s key userId request = .ok (stores, result)) :
    Answerable w userId key := by
  have ⟨answer, authorized, rest⟩ := bind_ok done
  have ⟨_, checked, _⟩ := bind_ok rest
  have ⟨context, built, allowed⟩ := bind_ok authorized
  exact answer_answerable built allowed (require_ok checked)

theorem eraseFile_checked {fileName : JsString}
    (done : eraseFile w s key fileName subjectId instances = .ok (stores, result)) :
    Answerable w subjectId key := by
  have ⟨context, built, found⟩ := bind_ok done
  have ⟨file, _, authorized⟩ := bind_ok found
  have ⟨answer, allowed, rest⟩ := bind_ok authorized
  have ⟨_, checked, _⟩ := bind_ok rest
  exact answer_answerable built allowed (require_ok checked)

theorem updateFile_checked {fileName : JsString} {markers : Option (List JsString)} {result : Unit}
    (done : updateFile w s key fileName subjectId markers instances = .ok (stores, result)) :
    Answerable w subjectId key := by
  have ⟨context, built, found⟩ := bind_ok done
  have ⟨file, _, authorized⟩ := bind_ok found
  have ⟨answer, allowed, rest⟩ := bind_ok authorized
  have ⟨_, checked, _⟩ := bind_ok rest
  exact answer_answerable built allowed (require_ok checked)

theorem addCount_checked {eventName : JsString} {count : Rat} {result : Counted}
    (done : addCount w s key eventName count subjectId instances = .ok (stores, result)) :
    Answerable w subjectId key := by
  have ⟨context, built, authorized⟩ := bind_ok done
  have ⟨answer, allowed, rest⟩ := bind_ok authorized
  have ⟨_, checked, _⟩ := bind_ok rest
  have policy := (answer_repeats allowed).2.1
  exact answerable built (policy ▸ require_ok checked)

theorem after_changed {outcome : Except WriteFailure (RecordStores × α)} (changed : after s outcome ≠ s) :
    ∃ stores result, outcome = .ok (stores, result) := by
  cases outcome with
  | error failure => exact absurd rfl changed
  | ok value => exact ⟨value.1, value.2, rfl⟩

end Checked

/-! ### The operation that does not -/

section Events

variable (w : Services) (s : RecordStores)

def eventRequest (context : AuthorizationContext) (eventName : JsString) (userId : Option JsString)
    (markers instances : Option (List JsString)) : AuthorizeRequest where
  userId := userId
  instances := instances
  action := .eventUpdate eventName
    (markerChange (getMarkersOrDefault (s.getEventCount context.recordName eventName).markers) markers)

/-- An event is updated for nobody: without a user and without a key that needs none, it is allowed to be
and is not already as the update has it. -/
def UpdatedForNobody : RecordCall → Prop
  | .updateEvent key eventName userId count markers instances =>
    ¬ Answerable w userId key ∧
    ∃ context, PolicyController.constructAuthorizationContext w.platform w.records key = .ok context ∧
      allowed w.policies w.testRegex context (eventRequest s context eventName userId markers instances) ∧
      s.events context.recordName eventName ≠
        some ((s.getEventCount context.recordName eventName).merge count markers)
  | _ => False

variable {w s}

variable {eventName key : JsString}

theorem setEvent_same {recordName : JsString} {event : EventData} :
    s.setEvent recordName eventName event = s ↔ s.events recordName eventName = some event := by
  constructor
  · intro same
    have here := congrFun (congrFun (congrArg RecordStores.events same) recordName) eventName
    rw [← here]
    simp [RecordStores.setEvent]
  · intro stored
    simp [RecordStores.setEvent, ← stored]

theorem context_built_iff {context : AuthorizationContext} : w.constructAuthorizationContext key = .ok context ↔
      PolicyController.constructAuthorizationContext w.platform w.records key = .ok context := by
  refine ⟨context_ok, fun built => ?_⟩
  rw [Services.constructAuthorizationContext, built]

theorem allowed_ok_iff {context : AuthorizationContext} {request : AuthorizeRequest} :
    allowed w.policies w.testRegex context request = true ↔
      ∃ answer, w.authorizeRequestUsingContext context request = .ok answer := by
  unfold allowed Services.authorizeRequestUsingContext
  cases PolicyController.authorizeRequestUsingContext w.policies w.testRegex context request with
  | error denial => exact iff_of_false (fun failed => by cases failed) (fun ⟨_, failed⟩ => by cases failed)
  | ok answer => exact iff_of_true rfl ⟨answer, rfl⟩

theorem updateEvent_ok_iff {userId : Option JsString} {count : Option Rat}
    {markers instances : Option (List JsString)} {stores : RecordStores} {result : Unit} :
    updateEvent w s key eventName userId count markers instances = .ok (stores, result) ↔
      ∃ context, PolicyController.constructAuthorizationContext w.platform w.records key = .ok context ∧
        allowed w.policies w.testRegex context (eventRequest s context eventName userId markers instances) ∧
        stores = s.updateEvent context.recordName eventName count markers := by
  constructor
  · intro done
    have ⟨context, built, authorized⟩ := bind_ok done
    have ⟨answer, again, written⟩ := bind_ok authorized
    have ⟨context', built', allowed⟩ := bind_ok again
    have same := Except.ok.inj (built'.symm.trans built)
    refine ⟨context, context_ok built, allowed_ok_iff.mpr ⟨answer, same ▸ allowed⟩, ?_⟩
    exact (congrArg Prod.fst (Except.ok.inj written)).symm
  · intro ⟨context, built, allowed, written⟩
    have ⟨answer, granted⟩ := allowed_ok_iff.mp allowed
    have made := context_built_iff.mpr built
    rw [updateEvent, made, written]
    change (w.authorizeRequest key (eventRequest s context eventName userId markers instances) >>= _) = _
    rw [Services.authorizeRequest, made]
    change (w.authorizeRequestUsingContext context _ >>= _) = _
    rw [granted]
    rfl

theorem updateEvent_changes_iff {userId : Option JsString} {count : Option Rat}
    {markers instances : Option (List JsString)} :
    perform w s (.updateEvent key eventName userId count markers instances) ≠ s ↔
      ∃ context, PolicyController.constructAuthorizationContext w.platform w.records key = .ok context ∧
        allowed w.policies w.testRegex context (eventRequest s context eventName userId markers instances) ∧
        s.events context.recordName eventName ≠
          some ((s.getEventCount context.recordName eventName).merge count markers) := by
  constructor
  · intro changed
    have ⟨stores, result, done⟩ := after_changed changed
    have ⟨context, built, granted, written⟩ := updateEvent_ok_iff.mp done
    refine ⟨context, built, granted, fun stored => changed ?_⟩
    rw [perform, done]
    exact written.trans (setEvent_same.mpr stored)
  · intro ⟨context, built, granted, differs⟩ same
    have done : updateEvent w s key eventName userId count markers instances =
        .ok (s.updateEvent context.recordName eventName count markers, ()) :=
      updateEvent_ok_iff.mpr ⟨context, built, granted, rfl⟩
    rw [perform, done] at same
    exact differs (setEvent_same.mp same)

end Events

/-- Whoever changes data, files or events is a user or has a key that needs none, exactly as long as no
event is updated for nobody. -/
theorem writes_answerable_iff (w : Services) (s : RecordStores) (call : RecordCall) :
    (perform w s call ≠ s → Answerable w call.userId call.recordKey) ↔ ¬ UpdatedForNobody w s call := by
  cases call with
  | recordData key address data subjectId updatePolicy deletePolicy markers instances =>
    refine iff_of_true (fun changed => ?_) id
    have ⟨_, _, done⟩ := after_changed changed
    exact recordData_checked done
  | eraseData key address subjectId instances =>
    refine iff_of_true (fun changed => ?_) id
    have ⟨_, _, done⟩ := after_changed changed
    exact eraseData_checked done
  | recordFile key userId request =>
    refine iff_of_true (fun changed => ?_) id
    have ⟨_, _, done⟩ := after_changed changed
    exact recordFile_checked done
  | eraseFile key fileName subjectId instances =>
    refine iff_of_true (fun changed => ?_) id
    have ⟨_, _, done⟩ := after_changed changed
    exact eraseFile_checked done
  | updateFile key fileName subjectId markers instances =>
    refine iff_of_true (fun changed => ?_) id
    have ⟨_, _, done⟩ := after_changed changed
    exact updateFile_checked done
  | addCount key eventName count subjectId instances =>
    refine iff_of_true (fun changed => ?_) id
    have ⟨_, _, done⟩ := after_changed changed
    exact addCount_checked done
  | updateEvent key eventName userId count markers instances =>
    rw [updateEvent_changes_iff]
    change _ ↔ ¬ (¬ Answerable w userId key ∧ _)
    rw [not_and, not_imp_not]
    rfl

/-! ### An event that a subjectfull key resets -/

def saltOfRecord : JsString := lit ['A', 'A', 'A', 'A']

def keyedRecords : MemoryRecordsStore where
  records := [⟨lit ['r'], lit ['o'], [], saltOfRecord⟩]
  recordKeys :=
    [⟨lit ['r'], (KeyCreation.pairing.hashHighEntropyPasswordWithSalt (lit ['x'])
        saltOfRecord).getD [], subjectfull, lit ['o']⟩]

def keyedServices : Services where
  platform := KeyCreation.pairing
  records := keyedRecords
  policies := readsAt MongoDBPolicyStore.empty 0
  testRegex := fun _ _ => false
  getType := fun _ => none
  getExtension := fun _ => none

def keyOfRecord : JsString :=
  KeyCreation.pairing.formatV2RecordKey (lit ['r']) (lit ['x']) (some subjectfull)

def noRecords : RecordStores where
  data := fun _ _ => none
  files := fun _ => none
  events := fun _ _ => none

def resetCall : RecordCall :=
  .updateEvent keyOfRecord (lit ['e']) none (some 5) none none

theorem keyOfRecord_valid : KeyCreation.pairing.validatePublicRecordKey keyedRecords keyOfRecord =
      .ok ⟨lit ['r'], subjectfull, lit ['o'], lit ['o']⟩ := by
  decide +kernel

theorem reset_written : (perform keyedServices noRecords resetCall).events (lit ['r'])
    (lit ['e']) = some ⟨5, none⟩ := by
  decide +kernel

/-- Nobody is there, the key needs a user, and the event is counted anew. -/
theorem event_reset_for_nobody : perform keyedServices noRecords resetCall ≠ noRecords ∧
    ¬ Answerable keyedServices resetCall.userId resetCall.recordKey := by
  constructor
  · intro same
    have written := reset_written
    rw [same] at written
    cases written
  · intro answerable
    rcases answerable with user | ⟨success, valid, policy⟩
    · exact user rfl
    · have same := Except.ok.inj (keyOfRecord_valid.symm.trans valid)
      rw [← same] at policy
      have differ : subjectfull ≠ subjectless := by decide
      exact differ policy

end CasualOS.RecordWrites
