import CasualOS.Lib.Handlers
import CasualOS.RecordWrites

/-! `recordData` and `eraseData` at the same time, each cut at its awaits, over the data store in memory. -/

namespace CasualOS.DataPolicies

open Run Handlers PolicyController RecordWrites
open Option (some)

structure RecordDataRequest where
  recordKeyOrRecordName : JsString
  address : JsString
  data : JsString
  subjectId : Option JsString
  updatePolicy : GivenPolicy
  deletePolicy : GivenPolicy
  markers : Option (List JsString)
  instances : Option (List JsString)
  deriving DecidableEq, Repr

structure EraseDataRequest where
  recordKeyOrName : JsString
  address : JsString
  subjectId : Option JsString
  instances : Option (List JsString)
  deriving DecidableEq, Repr

inductive Request where
  | recordData (request : RecordDataRequest)
  | eraseData (request : EraseDataRequest)
  deriving DecidableEq, Repr

/-- Where a call stands: at one of its awaits, or at its end. `checked` is what it knows from its context. -/
inductive Stage (Checked : Type) where
  | constructing
  | reading (checked : Checked) (found : Option RecordData)
  | authorizing (checked : Checked) (found : Option RecordData) (answer : Except WriteFailure AuthorizeAllowed)
  | writing (checked : Checked) (deleted : Bool)
  | returned (written : Written)
  | failed (failure : WriteFailure)

/-- What `recordData` knows before it reads the item. -/
structure CheckedData where
  context : AuthorizationContext
  updatePolicy : UserPolicy
  deletePolicy : UserPolicy
  deriving DecidableEq, Repr

def storedId (context : AuthorizationContext) (subjectId : Option JsString) : Option JsString :=
  if context.subjectPolicy = subjectless then none else subjectId

def checkRecordData (context : AuthorizationContext) (request : RecordDataRequest) :
    Except WriteFailure CheckedData := do
  let policy := context.subjectPolicy
  require (MayGoOn request.subjectId policy) "not_logged_in"
    "The user must be logged in in order to record data."
  let updatePolicy ← request.updatePolicy.check "invalid_update_policy"
    "The given updatePolicy is invalid or not supported."
  let deletePolicy ← request.deletePolicy.check "invalid_delete_policy"
    "The given deletePolicy is invalid or not supported."
  require (policy = subjectless → updatePolicy = .everyone) "invalid_record_key"
    "It is not possible to set update policies using a subjectless key."
  require (policy = subjectless → deletePolicy = .everyone) "invalid_record_key"
    "It is not possible to set delete policies using a subjectless key."
  .ok ⟨context, updatePolicy, deletePolicy⟩

def checkUpdate (checked : CheckedData) (request : RecordDataRequest) :
    Option RecordData → Except WriteFailure Unit
  | none => .ok ()
  | some existing =>
    require ((existing.updatePolicy.getD .everyone).matches (storedId checked.context request.subjectId))
      "not_authorized" "The updatePolicy does not permit this user to update the data record."

/-- An item without markers is publicly readable. -/
def markersOf (item : RecordData) : List JsString := item.markers.getD [publicReadMarker]

def resourceMarkers (request : RecordDataRequest) : Option RecordData → List JsString
  | none => request.markers.getD [publicReadMarker]
  | some existing => request.markers.getD (markersOf existing)

def writeRequest (request : RecordDataRequest) : Option RecordData → AuthorizeRequest
  | none =>
    ⟨request.subjectId, request.instances, .dataCreate request.address (resourceMarkers request none)⟩
  | some existing =>
    ⟨request.subjectId, request.instances,
      .dataUpdate request.address (markerChange (markersOf existing) request.markers)⟩

def newItem (checked : CheckedData) (request : RecordDataRequest) (found : Option RecordData)
    (answer : AuthorizeAllowed) : RecordData where
  data := request.data
  publisherId := answer.authorizerId
  subjectId := storedId checked.context request.subjectId
  updatePolicy := some checked.updatePolicy
  deletePolicy := some checked.deletePolicy
  markers := some (resourceMarkers request found)

def checkEraseData (context : AuthorizationContext) (request : EraseDataRequest) :
    Except WriteFailure AuthorizationContext := do
  require (MayGoOn request.subjectId context.subjectPolicy) "not_logged_in"
    "The user must be logged in in order to erase data using the provided record key."
  .ok context

def eraseRequest (request : EraseDataRequest) (found : Option RecordData) : AuthorizeRequest :=
  ⟨request.subjectId, request.instances,
    .dataDelete request.address ((found.bind (fun existing => existing.markers)).getD [publicReadMarker])⟩

/-- Nothing is checked of an item that was not found. -/
def checkDelete (context : AuthorizationContext) (request : EraseDataRequest) (answer : AuthorizeAllowed) :
    Option RecordData → Except WriteFailure Unit
  | none => .ok ()
  | some existing =>
    require (storedId context request.subjectId = answer.recordKeyOwnerId ∨
        (existing.deletePolicy.getD .everyone).matches (storedId context request.subjectId))
      "not_authorized" "The deletePolicy does not permit this user to erase the data record."

inductive Handler where
  | recordData (request : RecordDataRequest) (stage : Stage CheckedData)
  | eraseData (request : EraseDataRequest) (stage : Stage AuthorizationContext)

structure Place where
  recordName : JsString
  address : JsString
  deriving DecidableEq, Repr

/-- Where the call writes when it goes on. -/
def Handler.target : Handler → Option Place
  | .recordData request (.authorizing checked _ (.ok _)) => some ⟨checked.context.recordName, request.address⟩
  | .eraseData request (.authorizing context found (.ok answer)) =>
    if (checkDelete context request answer found).isOk then some ⟨context.recordName, request.address⟩
    else none
  | _ => none

def Handler.request : Handler → Request
  | .recordData request _ => .recordData request
  | .eraseData request _ => .eraseData request

/-- An item that was replaced or removed, and what the call asked for that did it. -/
structure Destroyed where
  item : RecordData
  request : Request
  deriving DecidableEq, Repr

/-- `destroyed` is history. -/
structure Store where
  stores : RecordStores
  destroyed : List Destroyed

def Store.item (s : Store) (place : Place) : Option RecordData := s.stores.data place.recordName place.address

abbrev Server := State Store Handler

section Steps

variable (w : Services)

/-- A call goes on, or fails. -/
def orFail {α Checked : Type} (stores : RecordStores) (outcome : Except WriteFailure α)
    (next : α → RecordStores × Stage Checked) : RecordStores × Stage Checked :=
  match outcome with
  | .error failure => (stores, .failed failure)
  | .ok value => next value

def resumeRecordData (s : RecordStores) (request : RecordDataRequest) :
    Stage CheckedData → Option (RecordStores × Stage CheckedData)
  | .constructing =>
    some (orFail s (w.constructAuthorizationContext request.recordKeyOrRecordName) fun context =>
      orFail s (checkRecordData context request) fun checked =>
        (s, .reading checked (s.data context.recordName request.address)))
  | .reading checked found =>
    some (orFail s (checkUpdate checked request found) fun _ =>
      (s, .authorizing checked found
        (w.authorizeRequestUsingContext checked.context (writeRequest request found))))
  | .authorizing checked found answer =>
    some (orFail s answer fun allowed =>
      (s.setData checked.context.recordName request.address (newItem checked request found allowed),
        .writing checked true))
  | .writing checked _ => some (s, .returned ⟨checked.context.recordName, request.address⟩)
  | .returned _ | .failed _ => none

def resumeEraseData (s : RecordStores) (request : EraseDataRequest) :
    Stage AuthorizationContext → Option (RecordStores × Stage AuthorizationContext)
  | .constructing =>
    some (orFail s (w.constructAuthorizationContext request.recordKeyOrName) fun context =>
      orFail s (checkEraseData context request) fun checked =>
        (s, .reading checked (s.data checked.recordName request.address)))
  | .reading context found =>
    some (s, .authorizing context found
      (w.authorizeRequestUsingContext context (eraseRequest request found)))
  | .authorizing context found answer =>
    some (orFail s answer fun allowed =>
      orFail s (checkDelete context request allowed found) fun _ =>
        (s.eraseData context.recordName request.address,
          .writing context (s.data context.recordName request.address).isSome))
  | .writing context deleted =>
    if deleted then some (s, .returned ⟨context.recordName, request.address⟩)
    else some (s, .failed (.failed "data_not_found" "The data was not found."))
  | .returned _ | .failed _ => none

def resumeHandler (s : RecordStores) : Handler → Option (RecordStores × Handler)
  | .recordData request stage =>
    (resumeRecordData w s request stage).map (fun next => (next.1, .recordData request next.2))
  | .eraseData request stage =>
    (resumeEraseData w s request stage).map (fun next => (next.1, .eraseData request next.2))

def begin (_ : Server) : Request → Handler
  | .recordData request => .recordData request .constructing
  | .eraseData request => .eraseData request .constructing

def destroys (s : Store) (handler : Handler) : List Destroyed :=
  ((handler.target.bind s.item).map (fun item => ⟨item, handler.request⟩)).toList

def resume (s : Server) (handler : Handler) (_ : Unit) : Option (Store × Handler) :=
  (resumeHandler w s.store.stores handler).map (fun next =>
    ({ stores := next.1
       destroyed := destroys s.store handler ++ s.store.destroyed }, next.2))

abbrev step : Server → Label Request Unit → Option Server := Handlers.step begin (resume w)

end Steps

def start (stores : RecordStores) : Server := idle { stores := stores, destroyed := [] } 0

/-! ### What is asked -/

section Asked

variable (w : Services)

def Permits (context : AuthorizationContext) (request : AuthorizeRequest) : Prop :=
  ∃ answer, w.authorizeRequestUsingContext context request = .ok answer

def IsCreator (context : AuthorizationContext) (subjectId : Option JsString) : Prop :=
  ∃ result, context.recordKeyResult = some result ∧ subjectId = some result.keyCreatorId

/-- The policies of the item let the call destroy it, and the call may do so for the item's markers. -/
def Honoured (destroyed : Destroyed) : Prop :=
  match destroyed.request with
  | .recordData request => ∃ context,
      w.constructAuthorizationContext request.recordKeyOrRecordName = .ok context ∧
        (destroyed.item.updatePolicy.getD .everyone).matches (storedId context request.subjectId) = true ∧
        Permits w context (writeRequest request (some destroyed.item))
  | .eraseData request => ∃ context,
      w.constructAuthorizationContext request.recordKeyOrName = .ok context ∧
        ((destroyed.item.deletePolicy.getD .everyone).matches (storedId context request.subjectId) = true ∨
          IsCreator context (storedId context request.subjectId)) ∧
        Permits w context (eraseRequest request (some destroyed.item))

end Asked

/-- What the call has read of the item, as far as it goes by it. -/
def Handler.AsRead (item : RecordData) : Handler → Prop
  | .recordData _ (.authorizing _ (some read) _) =>
    read.updatePolicy = item.updatePolicy ∧ read.markers = item.markers
  | .eraseData _ (.authorizing _ (some read) _) =>
    read.deletePolicy = item.deletePolicy ∧ read.markers = item.markers
  | _ => False

instance (item : RecordData) (handler : Handler) : Decidable (handler.AsRead item) := by
  unfold Handler.AsRead
  split <;> infer_instance

/-- A call that goes on to write finds the item as it has read it, or none. -/
def Undisturbed (s : Server) : Label Request Unit → Prop
  | .resume i _ => ∀ handler ∈ s.calls[i]?, ∀ item ∈ handler.target.bind s.store.item, handler.AsRead item
  | _ => True

/-! ### What every call knows -/

section Kept

variable {w : Services}

/-- What a call has checked, and of which item. -/
def Good (w : Services) : Handler → Prop
  | .recordData request (.reading checked _) =>
    w.constructAuthorizationContext request.recordKeyOrRecordName = .ok checked.context
  | .recordData request (.authorizing checked found answer) =>
    w.constructAuthorizationContext request.recordKeyOrRecordName = .ok checked.context ∧
      checkUpdate checked request found = .ok () ∧
      answer = w.authorizeRequestUsingContext checked.context (writeRequest request found)
  | .eraseData request (.reading context _) =>
    w.constructAuthorizationContext request.recordKeyOrName = .ok context ∧
      MayGoOn request.subjectId context.subjectPolicy
  | .eraseData request (.authorizing context found answer) =>
    w.constructAuthorizationContext request.recordKeyOrName = .ok context ∧
      MayGoOn request.subjectId context.subjectPolicy ∧
      answer = w.authorizeRequestUsingContext context (eraseRequest request found)
  | _ => True

variable {context : AuthorizationContext} {handler : Handler}

theorem checkRecordData_context {request : RecordDataRequest}
    {checked : CheckedData} (passed : checkRecordData context request = .ok checked) :
    checked.context = context := by
  unfold checkRecordData at passed
  obtain ⟨_, _, passed⟩ := bind_ok passed
  obtain ⟨_, _, passed⟩ := bind_ok passed
  obtain ⟨_, _, passed⟩ := bind_ok passed
  obtain ⟨_, _, passed⟩ := bind_ok passed
  obtain ⟨_, _, passed⟩ := bind_ok passed
  rw [← Except.ok.inj passed]

theorem checkEraseData_spec {checked : AuthorizationContext} {request : EraseDataRequest}
    (passed : checkEraseData context request = .ok checked) :
    checked = context ∧ MayGoOn request.subjectId context.subjectPolicy := by
  unfold checkEraseData at passed
  obtain ⟨_, known, passed⟩ := bind_ok passed
  exact ⟨(Except.ok.inj passed).symm, require_ok known⟩

theorem resumeRecordData_good {s : RecordStores} {request : RecordDataRequest} {stage : Stage CheckedData}
    {next : RecordStores × Stage CheckedData} (good : Good w (.recordData request stage))
    (ran : resumeRecordData w s request stage = some next) : Good w (.recordData request next.2) := by
  cases stage with
  | constructing =>
    rw [← some.inj ran]
    cases built : w.constructAuthorizationContext request.recordKeyOrRecordName with
    | error failure => trivial
    | ok context =>
      simp only [orFail]
      cases passed : checkRecordData context request with
      | error failure => trivial
      | ok checked =>
        change w.constructAuthorizationContext request.recordKeyOrRecordName = .ok checked.context
        rw [checkRecordData_context passed, built]
  | reading checked found =>
    rw [← some.inj ran]
    cases passed : checkUpdate checked request found with
    | error failure => trivial
    | ok done => exact ⟨good, passed, rfl⟩
  | authorizing checked found answer =>
    rw [← some.inj ran]
    cases answer <;> trivial
  | writing checked deleted =>
    rw [← some.inj ran]
    trivial
  | returned written => cases ran
  | failed failure => cases ran

theorem resumeEraseData_good {s : RecordStores} {request : EraseDataRequest}
    {stage : Stage AuthorizationContext} {next : RecordStores × Stage AuthorizationContext}
    (good : Good w (.eraseData request stage)) (ran : resumeEraseData w s request stage = some next) :
    Good w (.eraseData request next.2) := by
  cases stage with
  | constructing =>
    rw [← some.inj ran]
    cases built : w.constructAuthorizationContext request.recordKeyOrName with
    | error failure => trivial
    | ok context =>
      simp only [orFail]
      cases passed : checkEraseData context request with
      | error failure => trivial
      | ok checked =>
        obtain ⟨same, known⟩ := checkEraseData_spec passed
        rw [same]
        exact ⟨built, known⟩
  | reading context found =>
    rw [← some.inj ran]
    exact ⟨good.1, good.2, rfl⟩
  | authorizing context found answer =>
    rw [← some.inj ran]
    cases answer with
    | error failure => trivial
    | ok allowed =>
      simp only [orFail]
      cases checkDelete context request allowed found <;> trivial
  | writing context deleted =>
    cases deleted <;> rw [← some.inj ran] <;> trivial
  | returned written => cases ran
  | failed failure => cases ran

theorem resumeHandler_good {s : RecordStores} {next : RecordStores × Handler}
    (good : Good w handler) (ran : resumeHandler w s handler = some next) : Good w next.2 := by
  cases handler with
  | recordData request stage =>
    obtain ⟨made, resumed, same⟩ := Option.map_eq_some_iff.mp ran
    rw [← same]
    exact resumeRecordData_good good resumed
  | eraseData request stage =>
    obtain ⟨made, resumed, same⟩ := Option.map_eq_some_iff.mp ran
    rw [← same]
    exact resumeEraseData_good good resumed

/-- Where the ids agree, they are those of a creator: a call goes on without a subject only with a key. -/
theorem creator_of_owner {recordKey : JsString} {request : AuthorizeRequest}
    {subjectId : Option JsString} {answer : AuthorizeAllowed}
    (built : w.constructAuthorizationContext recordKey = .ok context)
    (known : MayGoOn subjectId context.subjectPolicy)
    (allowed : w.authorizeRequestUsingContext context request = .ok answer)
    (same : storedId context subjectId = answer.recordKeyOwnerId) :
    IsCreator context (storedId context subjectId) := by
  rw [(answer_repeats allowed).2.2] at same
  cases key : context.recordKeyResult with
  | some result => exact ⟨result, key, by rw [same, key]; rfl⟩
  | none =>
    rw [key] at same
    have full : context.subjectPolicy ≠ subjectless := by
      intro policy
      have keyed := (subjectless_key built policy).2
      rw [key] at keyed
      cases keyed
    have absent : subjectId = none := by
      rwa [storedId, if_neg full] at same
    rw [absent] at known
    exact absurd (known.resolve_right full) (by simp [idText])

/-- Whoever goes on to write with the item as it was read does so by right. -/
theorem honoured_of_target {place : Place} {item : RecordData} (good : Good w handler)
    (there : handler.target = some place) (asRead : handler.AsRead item) :
    Honoured w ⟨item, handler.request⟩ := by
  unfold Handler.target at there
  split at there
  · rename_i request checked found allowed
    obtain ⟨built, passed, granted⟩ := good
    cases found with
    | none => cases asRead
    | some read =>
      obtain ⟨policy, markers⟩ := asRead
      have same : writeRequest request (some item) = writeRequest request (some read) := by
        simp only [writeRequest, markersOf, markers]
      refine ⟨checked.context, built, ?_, allowed, ?_⟩
      · rw [← policy]
        exact require_ok passed
      · rw [same, granted]
  · rename_i request context found allowed
    split at there
    · rename_i passed
      obtain ⟨built, known, granted⟩ := good
      cases found with
      | none => cases asRead
      | some read =>
        obtain ⟨policy, markers⟩ := asRead
        have same : eraseRequest request (some item) = eraseRequest request (some read) := by
          simp only [eraseRequest, Option.bind_some, markers]
        refine ⟨context, built, ?_, allowed, ?_⟩
        · cases checks : checkDelete context request allowed (some read) with
          | error failure => rw [checks] at passed; cases passed
          | ok done =>
            rcases require_ok checks with owner | matching
            · exact .inr (creator_of_owner built known granted.symm owner)
            · exact .inl (policy ▸ matching)
        · rw [same, granted]
    · cases there
  · cases there

/-- What every state has that is reached. -/
structure Inv (w : Services) (s : Server) : Prop where
  good : ∀ handler ∈ s.calls, Good w handler
  honoured : ∀ destroyed ∈ s.store.destroyed, Honoured w destroyed

theorem Inv.resume {s : Server} {i : Nat} {made : Store × Handler} (inv : Inv w s)
    (undisturbed : Undisturbed s (.resume i ())) (here : s.calls[i]? = some handler)
    (ran : resume w s handler () = some made) :
    Inv w { s with store := made.1, calls := s.calls.set i made.2 } := by
  obtain ⟨next, resumed, same⟩ := Option.map_eq_some_iff.mp ran
  have known : Good w handler := inv.good handler (List.mem_of_getElem? here)
  rw [← same]
  constructor
  · intro other member
    rcases List.mem_or_eq_of_mem_set member with old | new
    · exact inv.good other old
    · exact new ▸ resumeHandler_good known resumed
  · intro destroyed member
    rcases List.mem_append.mp member with new | old
    · obtain ⟨item, found, equal⟩ := Option.map_eq_some_iff.mp (Option.mem_toList.mp new)
      obtain ⟨place, there, _⟩ := Option.bind_eq_some_iff.mp found
      rw [← equal]
      exact honoured_of_target known there (undisturbed handler here item found)
    · exact inv.honoured destroyed old

theorem Inv.begin {s : Server} (inv : Inv w s) (request : Request) :
    Inv w { s with calls := s.calls ++ [begin s request] } := by
  refine ⟨fun handler member => ?_, inv.honoured⟩
  rcases List.mem_append.mp member with old | new
  · exact inv.good handler old
  · rw [List.mem_singleton.mp new]
    cases request <;> trivial

end Kept

/-- As long as no item changes between a call's reading and its writing, every item that is replaced or
removed is so by a call that its policies and its markers let. -/
theorem policies_honoured (w : Services) (stores : RecordStores) {s : Server}
    (reached : Reaches (step w) Undisturbed (start stores) s) :
    ∀ destroyed ∈ s.store.destroyed, Honoured w destroyed := by
  have first : Inv w (start stores) :=
    ⟨fun handler member => by simp [start, idle] at member,
      fun destroyed member => by simp [start, idle] at member⟩
  have inv : Inv w s := by
    apply Handlers.invariant first _ _ _ reached
    · exact fun s request inv _ => inv.begin request
    · exact fun s i given handler made inv allowed here ran => inv.resume allowed here ran
    · exact fun s later inv _ => ⟨inv.good, inv.honoured⟩
  exact inv.honoured

/-! ### Calls that are alone -/

section Alone

variable (w : Services) (s : RecordStores)

end Alone

/-! ### An item that is replaced unseen -/

instance (s : Server) : (label : Label Request Unit) → Decidable (Undisturbed s label)
  | .resume i _ => inferInstanceAs (Decidable (∀ handler ∈ s.calls[i]?,
      ∀ item ∈ handler.target.bind s.store.item, handler.AsRead item))
  | .call _ => .isTrue trivial
  | .pass _ => .isTrue trivial

def letter (c : Char) : JsString := JsString.lit [c]

def storing (user : JsString) (updatePolicy : GivenPolicy) : RecordDataRequest where
  recordKeyOrRecordName := keyOfRecord
  address := letter 'd'
  data := letter 'x'
  subjectId := some user
  updatePolicy := updatePolicy
  deletePolicy := .missing
  markers := none
  instances := none

def ownOnly : RecordDataRequest := storing (letter 'o') (.valid (.only [letter 'o']))

def ownItem : RecordData where
  data := letter 'x'
  publisherId := some (letter 'o')
  subjectId := some (letter 'o')
  updatePolicy := some (.only [letter 'o'])
  deletePolicy := some .everyone
  markers := some [publicReadMarker]

def replacedByOwner : List (Label Request Unit) :=
  [.call (.recordData ownOnly), .resume 0 (), .resume 0 (), .resume 0 (),
    .call (.recordData ownOnly), .resume 1 (), .resume 1 (), .resume 1 ()]

/-- The other call has read that there is no item. -/
def replacedUnseen : List (Label Request Unit) :=
  [.call (.recordData (storing (letter 'a') .missing)), .resume 0 (),
    .call (.recordData ownOnly), .resume 1 (), .resume 1 (), .resume 1 (), .resume 0 (), .resume 0 ()]

def destroyedBy (labels : List (Label Request Unit)) : Option (List Destroyed) :=
  (runAll (step keyedServices) (start noRecords) labels).map (fun s => s.store.destroyed)

theorem owner_may_replace : destroyedBy replacedByOwner = some [⟨ownItem, .recordData ownOnly⟩] ∧
    Honoured keyedServices ⟨ownItem, .recordData ownOnly⟩ := by
  have ran : destroyedBy replacedByOwner = some [⟨ownItem, .recordData ownOnly⟩] := by decide +kernel
  have allowed : AllAllowed (step keyedServices) Undisturbed (start noRecords) replacedByOwner := by
    decide +kernel
  refine ⟨ran, ?_⟩
  obtain ⟨s, reached, destroyed⟩ := Option.map_eq_some_iff.mp ran
  apply policies_honoured keyedServices noRecords (reaches_of_runAll _ allowed reached)
  rw [destroyed]
  exact List.mem_singleton.mpr rfl

theorem policy_passed_over : ∃ other, destroyedBy replacedUnseen = some [⟨ownItem, other⟩] ∧
    ¬ Honoured keyedServices ⟨ownItem, other⟩ := by
  refine ⟨.recordData (storing (letter 'a') .missing), by decide +kernel, ?_⟩
  rintro ⟨context, built, matching, _⟩
  have full : context.subjectPolicy = subjectfull := by
    have policy : (keyedServices.constructAuthorizationContext keyOfRecord).toOption.map
        (fun context => context.subjectPolicy) = some subjectfull := by decide +kernel
    have same : keyedServices.constructAuthorizationContext keyOfRecord = .ok context := built
    rw [same] at policy
    exact Option.some.inj policy
  have differ : subjectfull ≠ subjectless := by decide
  rw [storedId, full, if_neg differ] at matching
  revert matching
  decide

end CasualOS.DataPolicies
