import CasualOS.RecordWrites

/-! What the writing operations leave of the markers of data, files and events. -/

namespace CasualOS.KeptMarkers

open PolicyController RecordWrites
open Function (update_of_ne)
open RecordStores (setData setEvent)

/-! ### Calls, and the markers they are about -/

def outcome (w : Services) (s : RecordStores) : RecordCall → Except WriteFailure RecordStores
  | .recordData key address data subjectId updatePolicy deletePolicy markers instances =>
    (recordData w s key address data subjectId updatePolicy deletePolicy markers instances).map Prod.fst
  | .eraseData key address subjectId instances => (eraseData w s key address subjectId instances).map Prod.fst
  | .recordFile key userId request => (recordFile w s key userId request).map Prod.fst
  | .eraseFile key fileName subjectId instances => (eraseFile w s key fileName subjectId instances).map Prod.fst
  | .updateFile key fileName subjectId markers instances =>
    (updateFile w s key fileName subjectId markers instances).map Prod.fst
  | .addCount key eventName count subjectId instances =>
    (addCount w s key eventName count subjectId instances).map Prod.fst
  | .updateEvent key eventName userId count markers instances =>
    (updateEvent w s key eventName userId count markers instances).map Prod.fst

def givenMarkers : RecordCall → Option (List JsString)
  | .recordData _ _ _ _ _ _ markers _ | .updateFile _ _ _ markers _ | .updateEvent _ _ _ _ markers _ => markers
  | .recordFile _ _ request => request.markers
  | _ => none

def addedFile (w : Services) : RecordCall → Option JsString
  | .recordFile _ _ request => some (fileNameOf w request)
  | _ => none

def recordNameOf (w : Services) (key : JsString) : JsString :=
  match w.constructAuthorizationContext key with
  | .error _ => []
  | .ok context => context.recordName

def storedMarkers (w : Services) (s : RecordStores) : RecordCall → Option (List JsString)
  | .recordData key address _ _ _ _ _ _ | .eraseData key address _ _ =>
    (s.data (recordNameOf w key) address).bind RecordData.markers
  | .recordFile _ _ request => (s.files (fileNameOf w request)).bind StoredFile.markers
  | .updateFile _ fileName _ _ _ | .eraseFile _ fileName _ _ => (s.files fileName).bind StoredFile.markers
  | .updateEvent key eventName _ _ _ _ | .addCount key eventName _ _ _ =>
    (s.events (recordNameOf w key) eventName).bind EventData.markers

/-- Data and files have markers, and no event has an empty list of them. -/
structure Marked (s : RecordStores) : Prop where
  data : ∀ recordName address record, s.data recordName address = some record →
    ∃ markers, record.markers = some markers ∧ markers ≠ []
  files : ∀ fileName file, s.files fileName = some file → ∃ markers, file.markers = some markers ∧ markers ≠ []
  events : ∀ recordName eventName event, s.events recordName eventName = some event →
    event.markers ≠ some []

/-- What a call leaves of the markers it is given. A file is added with markers of its own where it is given
none, and a file that is there already stays as it is. -/
structure Leaves (w : Services) (s : RecordStores) (call : RecordCall) : Prop where
  given : addedFile w call = none → ∀ markers next, givenMarkers call = some markers →
    outcome w s call = .ok next → storedMarkers w next call = some markers
  added : ∀ fileName next, addedFile w call = some fileName → outcome w s call = .ok next →
    s.files fileName = none → storedMarkers w next call = some (getMarkersOrDefault (givenMarkers call))
  recorded : ∀ fileName next, addedFile w call = some fileName → outcome w s call = .ok next →
    s.files fileName ≠ none → next = s
  refused : addedFile w call = none → givenMarkers call = some [] →
    (∃ failure, outcome w s call = .error failure) ∧ perform w s call = s

/-! ### Markers that an answer needs -/

section Answers

variable {w : Services} {s stores : RecordStores} {context : AuthorizationContext}
  {answer : AuthorizeAllowed} {userId : Option JsString} {markers instances : Option (List JsString)}

theorem remaining_empty (existing : List JsString) : (markerChange existing (some [])).remaining = false := by
  have all : without existing [] = existing := List.filter_eq_self.mpr (fun marker _ => by simp)
  simp only [MarkerChange.remaining, markerChange, Option.elim, all]
  simp [without]

theorem answer_filled {request : AuthorizeRequest}
    (allowed : w.authorizeRequestUsingContext context request = .ok answer) : request.action.markers ≠ [] := by
  intro nothing
  have decided := requestFor_of_answer allowed
  rw [nothing, authorizeRequestFor] at decided
  split at decided <;> cases decided

theorem answer_not_emptied {request : AuthorizeRequest}
    (allowed : w.authorizeRequestUsingContext context request = .ok answer) :
    request.action.emptied = false := by
  cases emptied : request.action.emptied with
  | false => rfl
  | true =>
    rw [Services.authorizeRequestUsingContext, PolicyController.authorizeRequestUsingContext,
      authorizeAction_eq, if_pos emptied] at allowed
    cases allowed

variable {existing : List JsString}

theorem not_empty_of_dataUpdate {address : JsString} (allowed : w.authorizeRequestUsingContext context
      ⟨userId, instances, .dataUpdate address (markerChange existing markers)⟩ = .ok answer) :
    markers ≠ some [] := by
  rintro rfl
  have remains := answer_not_emptied allowed
  simp [Action.emptied, remaining_empty] at remains

theorem not_empty_of_eventUpdate {eventName : JsString} (allowed : w.authorizeRequestUsingContext context
      ⟨userId, instances, .eventUpdate eventName (markerChange existing markers)⟩ = .ok answer) :
    markers ≠ some [] := by
  rintro rfl
  have remains := answer_not_emptied allowed
  simp [Action.emptied, remaining_empty] at remains

theorem not_empty_of_fileUpdate {file : FileInfo} (allowed : w.authorizeRequestUsingContext context
      ⟨userId, instances, .fileUpdate file (markerChange existing markers)⟩ = .ok answer) :
    markers ≠ some [] := by
  rintro rfl
  have ⟨_, _, ⟨result, user⟩, _⟩ := requestFor_iff.mp ⟨answer, requestFor_of_answer allowed⟩
  simp only [Action.authorize, authorizeFileUpdate, remaining_empty] at user
  split at user
  · cases user
  · rw [if_pos Bool.false_ne_true] at user
    cases user

end Answers

/-! ### What a success writes -/

section Successes

variable {w : Services} {s stores : RecordStores} {key : JsString} {instances : Option (List JsString)}

def dataMarkers (s : RecordStores) (recordName address : JsString) : List JsString :=
  ((s.data recordName address).bind RecordData.markers).getD [publicReadMarker]

theorem recordNameOf_built {context : AuthorizationContext} (built : w.constructAuthorizationContext key = .ok context) :
    recordNameOf w key = context.recordName := by
  unfold recordNameOf
  rw [built]

variable {subjectId : Option JsString} {result : Written}

theorem recordData_ok {address data : JsString}
    {updatePolicy deletePolicy : GivenPolicy} {markers : Option (List JsString)}
    (done : recordData w s key address data subjectId updatePolicy deletePolicy markers instances =
      .ok (stores, result)) :
    markers ≠ some [] ∧ ∃ record : RecordData, stores = s.setData (recordNameOf w key) address record ∧
      record.markers = some (markers.getD (dataMarkers s (recordNameOf w key) address)) := by
  have ⟨context, built, checks⟩ := bind_ok done
  have ⟨_, _, updates⟩ := bind_ok checks
  have ⟨_, _, deletes⟩ := bind_ok updates
  have ⟨_, _, noUpdate⟩ := bind_ok deletes
  have ⟨_, _, noDelete⟩ := bind_ok noUpdate
  have ⟨_, _, written⟩ := bind_ok noDelete
  rw [recordNameOf_built built, dataMarkers]
  cases found : s.data context.recordName address with
  | some existing =>
    simp only [found] at written
    have ⟨_, _, authorized⟩ := bind_ok written
    have ⟨answer, allowed, put⟩ := bind_ok authorized
    exact ⟨not_empty_of_dataUpdate allowed, _, (congrArg Prod.fst (Except.ok.inj put)).symm, rfl⟩
  | none =>
    simp only [found] at written
    have ⟨answer, allowed, put⟩ := bind_ok written
    refine ⟨?_, _, (congrArg Prod.fst (Except.ok.inj put)).symm, rfl⟩
    rintro rfl
    exact answer_filled allowed rfl

theorem eraseData_ok {address : JsString}
    (done : eraseData w s key address subjectId instances = .ok (stores, result)) :
    ∃ recordName, stores = s.eraseData recordName address := by
  have ⟨context, _, checks⟩ := bind_ok done
  have ⟨_, _, authorized⟩ := bind_ok checks
  have ⟨_, _, written⟩ := bind_ok authorized
  cases found : s.data context.recordName address with
  | some existing =>
    simp only [found] at written
    have ⟨_, _, put⟩ := bind_ok written
    exact ⟨context.recordName, (congrArg Prod.fst (Except.ok.inj put)).symm⟩
  | none =>
    simp only [found] at written
    cases written

theorem recordFile_ok {userId : Option JsString} {request : RecordFileRequest} {result : RecordFileSuccess}
    (done : recordFile w s key userId request = .ok (stores, result)) :
    (s.files (fileNameOf w request) = none ∧ ∃ file : StoredFile, stores = s.addFileRecord file ∧
        file.fileName = fileNameOf w request ∧ file.markers = some (getMarkersOrDefault request.markers)) ∨
      (s.files (fileNameOf w request) ≠ none ∧ stores = s) := by
  have ⟨answer, _, checks⟩ := bind_ok done
  have ⟨_, _, written⟩ := bind_ok checks
  cases found : s.files (fileNameOf w request) with
  | none =>
    simp only [found] at written
    exact .inl ⟨rfl, _, (congrArg Prod.fst (Except.ok.inj written)).symm, rfl, rfl⟩
  | some file =>
    simp only [found] at written
    cases uploaded : file.uploaded with
    | true =>
      rw [uploaded, if_pos rfl] at written
      cases written
    | false =>
      rw [uploaded, if_neg Bool.false_ne_true] at written
      exact .inr ⟨by simp, (congrArg Prod.fst (Except.ok.inj written)).symm⟩

theorem eraseFile_ok {fileName : JsString}
    (done : eraseFile w s key fileName subjectId instances = .ok (stores, result)) :
    stores = s.eraseFileRecord fileName := by
  have ⟨_, _, found⟩ := bind_ok done
  have ⟨_, _, authorized⟩ := bind_ok found
  have ⟨_, _, checks⟩ := bind_ok authorized
  have ⟨_, _, put⟩ := bind_ok checks
  exact (congrArg Prod.fst (Except.ok.inj put)).symm

theorem updateFile_ok {fileName : JsString} {markers : Option (List JsString)}
    {result : Unit} (done : updateFile w s key fileName subjectId markers instances = .ok (stores, result)) :
    markers ≠ some [] ∧ ∃ file, s.files fileName = some file ∧
      stores = s.updateFileRecord fileName file (markers.getD (getMarkersOrDefault file.markers)) := by
  have ⟨_, _, found⟩ := bind_ok done
  have ⟨file, there, authorized⟩ := bind_ok found
  have ⟨_, allowed, checks⟩ := bind_ok authorized
  have ⟨_, _, put⟩ := bind_ok checks
  refine ⟨not_empty_of_fileUpdate allowed, file, ?_, (congrArg Prod.fst (Except.ok.inj put)).symm⟩
  unfold getFileRecord at there
  split at there
  · cases there
  · rename_i same
    rw [same, Except.ok.inj there]

theorem addCount_ok {eventName : JsString} {count : Rat} {result : Counted}
    (done : addCount w s key eventName count subjectId instances = .ok (stores, result)) :
    ∃ recordName, stores = s.addEventCount recordName eventName count := by
  have ⟨context, _, authorized⟩ := bind_ok done
  have ⟨_, _, checks⟩ := bind_ok authorized
  have ⟨_, _, put⟩ := bind_ok checks
  exact ⟨context.recordName, (congrArg Prod.fst (Except.ok.inj put)).symm⟩

theorem updateEvent_ok {eventName : JsString} {userId : Option JsString} {count : Option Rat}
    {markers : Option (List JsString)} {result : Unit}
    (done : updateEvent w s key eventName userId count markers instances = .ok (stores, result)) :
    markers ≠ some [] ∧ stores = s.updateEvent (recordNameOf w key) eventName count markers := by
  have ⟨context, built, allowed, written⟩ := updateEvent_ok_iff.mp done
  have ⟨_, granted⟩ := allowed_ok_iff.mp allowed
  rw [recordNameOf_built (context_built_iff.mpr built)]
  exact ⟨not_empty_of_eventUpdate granted, written⟩

end Successes

/-! ### Stores with markers -/

section Stores

variable {w : Services} {s : RecordStores} {call : RecordCall}

theorem marked_noRecords : Marked noRecords := by
  constructor
  · intro recordName address record stored
    cases stored
  · intro fileName file stored
    cases stored
  · intro recordName eventName event stored
    cases stored

theorem getMarkersOrDefault_ne_nil (markers : Option (List JsString)) : getMarkersOrDefault markers ≠ [] := by
  unfold getMarkersOrDefault
  split
  · exact List.cons_ne_nil _ _
  · assumption

theorem getD_ne_nil {markers : Option (List JsString)} {kept : List JsString} (given : markers ≠ some [])
    (filled : kept ≠ []) : markers.getD kept ≠ [] := by
  cases markers with
  | none => exact filled
  | some markers => exact fun nothing => given (congrArg some nothing)

theorem dataMarkers_ne_nil (marked : Marked s) (recordName address : JsString) :
    dataMarkers s recordName address ≠ [] := by
  unfold dataMarkers
  cases stored : s.data recordName address with
  | none => exact List.cons_ne_nil _ _
  | some record =>
    have ⟨markers, has, filled⟩ := marked.data recordName address record stored
    simpa [has] using filled

theorem marked_setData (marked : Marked s) {recordName address : JsString} {record : RecordData}
    {markers : List JsString} (has : record.markers = some markers) (filled : markers ≠ []) :
    Marked (s.setData recordName address record) := by
  refine ⟨?_, marked.files, marked.events⟩
  intro name other stored found
  by_cases there : name = recordName ∧ other = address
  · obtain ⟨rfl, rfl⟩ := there
    have same : record = stored := by simpa [setData] using found
    exact ⟨markers, same ▸ has, filled⟩
  · refine marked.data name other stored ?_
    rw [← found, setData]
    by_cases sameName : name = recordName
    · subst sameName
      simp [update_of_ne (fun same => there ⟨rfl, same⟩)]
    · simp [update_of_ne sameName]

theorem marked_eraseData (marked : Marked s) (recordName address : JsString) :
    Marked (s.eraseData recordName address) := by
  refine ⟨?_, marked.files, marked.events⟩
  intro name other stored found
  refine marked.data name other stored ?_
  rw [← found, RecordStores.eraseData]
  by_cases sameName : name = recordName
  · subst sameName
    by_cases same : other = address
    · subst same
      simp [RecordStores.eraseData] at found
    · simp [update_of_ne same]
  · simp [update_of_ne sameName]

theorem marked_files (marked : Marked s) {fileName : JsString} {found : Option StoredFile}
    (filled : ∀ file, found = some file → ∃ markers, file.markers = some markers ∧ markers ≠ []) :
    Marked { s with files := Function.update s.files fileName found } := by
  refine ⟨marked.data, ?_, marked.events⟩
  intro other file stored
  by_cases same : other = fileName
  · subst same
    exact filled file (by simpa using stored)
  · exact marked.files other file (by simpa [update_of_ne same] using stored)

theorem marked_setEvent (marked : Marked s) {recordName eventName : JsString} {event : EventData}
    (filled : event.markers ≠ some []) : Marked (s.setEvent recordName eventName event) := by
  refine ⟨marked.data, marked.files, ?_⟩
  intro name other stored found
  by_cases there : name = recordName ∧ other = eventName
  · obtain ⟨rfl, rfl⟩ := there
    have same : event = stored := by simpa [setEvent] using found
    exact same ▸ filled
  · refine marked.events name other stored ?_
    rw [← found, setEvent]
    by_cases sameName : name = recordName
    · subst sameName
      simp [update_of_ne (fun same => there ⟨rfl, same⟩)]
    · simp [update_of_ne sameName]

theorem eventCount_ne_nil (marked : Marked s) (recordName eventName : JsString) :
    (s.getEventCount recordName eventName).markers ≠ some [] := by
  unfold RecordStores.getEventCount
  cases stored : s.events recordName eventName with
  | none => exact fun filled => by cases filled
  | some event => exact marked.events recordName eventName event stored

theorem merge_ne_nil {event : EventData} {count : Option Rat} {markers : Option (List JsString)}
    (given : markers ≠ some []) (filled : event.markers ≠ some []) :
    (event.merge count markers).markers ≠ some [] := by
  cases markers with
  | none => exact filled
  | some markers => exact given

variable {α : Type} {next : RecordStores}

theorem after_ok {result : Except WriteFailure (RecordStores × α)}
    (done : result.map Prod.fst = .ok next) : after s result = next := by
  cases result with
  | error failure => cases done
  | ok value => exact Except.ok.inj done

theorem after_error {result : Except WriteFailure (RecordStores × α)} {failure : WriteFailure}
    (failed : result.map Prod.fst = .error failure) : after s result = s := by
  cases result with
  | error failure => rfl
  | ok value => cases failed

theorem map_ok {result : Except WriteFailure (RecordStores × α)}
    (done : result.map Prod.fst = .ok next) : ∃ value, result = .ok (next, value) := by
  cases result with
  | error failure => cases done
  | ok value =>
    have same : value.1 = next := Except.ok.inj done
    exact ⟨value.2, same ▸ rfl⟩

theorem perform_ok (done : outcome w s call = .ok next) : perform w s call = next := by
  cases call <;> exact after_ok done

theorem perform_error {failure : WriteFailure} (failed : outcome w s call = .error failure) : perform w s call = s := by
  cases call <;> exact after_error failed

end Stores

/-! ### One call -/

section Calls

variable {w : Services} {s : RecordStores} {call : RecordCall}

variable {next : RecordStores}

theorem marked_outcome (marked : Marked s) (done : outcome w s call = .ok next) : Marked next := by
  cases call with
  | recordData key address data subjectId updatePolicy deletePolicy markers instances =>
    have ⟨_, ran⟩ := map_ok done
    have ⟨given, record, written, has⟩ := recordData_ok ran
    exact written ▸ marked_setData marked has (getD_ne_nil given (dataMarkers_ne_nil marked _ _))
  | eraseData key address subjectId instances =>
    have ⟨_, ran⟩ := map_ok done
    have ⟨recordName, written⟩ := eraseData_ok ran
    exact written ▸ marked_eraseData marked recordName address
  | recordFile key userId request =>
    have ⟨_, ran⟩ := map_ok done
    rcases recordFile_ok ran with ⟨_, file, written, _, has⟩ | ⟨_, same⟩
    · rw [written]
      refine marked_files marked (fun other same => ?_)
      exact ⟨_, Option.some.inj same ▸ has, getMarkersOrDefault_ne_nil _⟩
    · exact same ▸ marked
  | eraseFile key fileName subjectId instances =>
    have ⟨_, ran⟩ := map_ok done
    rw [eraseFile_ok ran]
    exact marked_files marked (fun _ nothing => by cases nothing)
  | updateFile key fileName subjectId markers instances =>
    have ⟨_, ran⟩ := map_ok done
    have ⟨given, file, _, written⟩ := updateFile_ok ran
    rw [written]
    refine marked_files marked (fun other same => ?_)
    rw [← Option.some.inj same]
    exact ⟨_, rfl, getD_ne_nil given (getMarkersOrDefault_ne_nil _)⟩
  | addCount key eventName count subjectId instances =>
    have ⟨_, ran⟩ := map_ok done
    have ⟨recordName, written⟩ := addCount_ok ran
    exact written ▸ marked_setEvent marked (eventCount_ne_nil marked recordName eventName)
  | updateEvent key eventName userId count markers instances =>
    have ⟨_, ran⟩ := map_ok done
    have ⟨given, written⟩ := updateEvent_ok ran
    exact written ▸ marked_setEvent marked (merge_ne_nil given (eventCount_ne_nil marked _ eventName))

theorem marked_perform (marked : Marked s) : Marked (perform w s call) := by
  cases ran : outcome w s call with
  | error failure =>
    rw [perform_error ran]
    exact marked
  | ok next =>
    rw [perform_ok ran]
    exact marked_outcome marked ran

theorem given_kept (update : addedFile w call = none) {markers : List JsString}
    (given : givenMarkers call = some markers) (done : outcome w s call = .ok next) :
    markers ≠ [] ∧ storedMarkers w next call = some markers := by
  cases call with
  | recordData key address data subjectId updatePolicy deletePolicy asked instances =>
    have ⟨_, ran⟩ := map_ok done
    have ⟨filled, record, written, has⟩ := recordData_ok ran
    have same : asked = some markers := given
    rw [same] at has filled
    refine ⟨fun nothing => filled (congrArg some nothing), ?_⟩
    rw [written]
    simp [storedMarkers, setData, has]
  | updateFile key fileName subjectId asked instances =>
    have ⟨_, ran⟩ := map_ok done
    have ⟨filled, file, _, written⟩ := updateFile_ok ran
    have same : asked = some markers := given
    rw [same] at written filled
    refine ⟨fun nothing => filled (congrArg some nothing), ?_⟩
    rw [written]
    simp [storedMarkers, RecordStores.updateFileRecord]
  | updateEvent key eventName userId count asked instances =>
    have ⟨_, ran⟩ := map_ok done
    have ⟨filled, written⟩ := updateEvent_ok ran
    have same : asked = some markers := given
    rw [same] at written filled
    refine ⟨fun nothing => filled (congrArg some nothing), ?_⟩
    rw [written]
    simp [storedMarkers, RecordStores.updateEvent, setEvent, EventData.merge]
  | recordFile key userId request => cases update
  | eraseData key address subjectId instances => cases given
  | eraseFile key fileName subjectId instances => cases given
  | addCount key eventName count subjectId instances => cases given

theorem addedFile_ok {fileName : JsString} (adds : addedFile w call = some fileName)
    (done : outcome w s call = .ok next) :
    (s.files fileName = none ∧ storedMarkers w next call = some (getMarkersOrDefault (givenMarkers call))) ∨
      (s.files fileName ≠ none ∧ next = s) := by
  cases call with
  | recordFile key userId request =>
    have ⟨_, ran⟩ := map_ok done
    rw [← Option.some.inj adds]
    rcases recordFile_ok ran with ⟨missing, file, written, name, has⟩ | there
    · refine .inl ⟨missing, ?_⟩
      rw [written]
      simp [storedMarkers, RecordStores.addFileRecord, name, has, givenMarkers]
    · exact .inr there
  | recordData key address data subjectId updatePolicy deletePolicy asked instances => cases adds
  | eraseData key address subjectId instances => cases adds
  | eraseFile key fileName subjectId instances => cases adds
  | updateFile key fileName subjectId asked instances => cases adds
  | addCount key eventName count subjectId instances => cases adds
  | updateEvent key eventName userId count asked instances => cases adds

theorem leaves (w : Services) (s : RecordStores) (call : RecordCall) : Leaves w s call := by
  constructor
  · intro update markers next given done
    exact (given_kept update given done).2
  · intro fileName next adds done missing
    rcases addedFile_ok adds done with ⟨_, stored⟩ | ⟨there, _⟩
    · exact stored
    · exact absurd missing there
  · intro fileName next adds done there
    rcases addedFile_ok adds done with ⟨missing, _⟩ | ⟨_, same⟩
    · exact absurd missing there
    · exact same
  · intro update given
    cases ran : outcome w s call with
    | error failure => exact ⟨⟨failure, rfl⟩, perform_error ran⟩
    | ok next => exact absurd rfl (given_kept update given ran).1

end Calls

/-! ### Sequences of calls -/

def performAll (calls : List (Services × RecordCall)) : RecordStores :=
  calls.foldl (fun s call => perform call.1 s call.2) noRecords

theorem marked_performAll (calls : List (Services × RecordCall)) : Marked (performAll calls) := by
  induction calls using List.reverseRecOn with
  | nil => exact marked_noRecords
  | append_singleton calls last ih =>
    rw [performAll, List.foldl_append]
    exact marked_perform ih

def recordedFile (markers : List JsString) : RecordCall :=
  .recordFile keyOfRecord (some (JsString.lit ['o']))
    { fileSha256Hex := JsString.lit ['f']
      fileByteLength := 1
      fileMimeType := []
      fileDescription := []
      headers := fun _ => none
      markers := some markers
      instances := none }

def secret : JsString := JsString.lit ['s']

end CasualOS.KeptMarkers
