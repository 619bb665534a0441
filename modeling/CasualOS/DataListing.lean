import Mathlib.Data.List.Nodup
import CasualOS.AuthorizationRole

/-! Which items of a listing a `data.list` request is allowed to see. -/

namespace CasualOS.PolicyController

open JsString (lit)
open Option (some)

structure ListedDataItem where
  address : JsString
  markers : List JsString
  deriving DecidableEq, Repr

structure AuthorizeListDataRequest where
  userId : Option JsString
  instances : Option (List JsString)
  dataItems : List ListedDataItem
  deriving DecidableEq, Repr

structure ListDataAllowed extends AuthorizeAllowed where
  allowedDataItems : List ListedDataItem
  deriving DecidableEq, Repr

def intersectionBy {α κ : Type} [DecidableEq κ] (key : α → κ) (first second : List α) : List α :=
  choose [] first
where
  choose (seen : List κ) : List α → List α
    | [] => []
    | value :: rest =>
      if key value ∉ seen ∧ key value ∈ second.map key then
        value :: choose (key value :: seen) rest
      else choose seen rest

/-! ### One subject -/

/-- What is known of the subject before the next item. -/
structure Listing where
  role : Option PermissionRole
  authorizations : List MarkerAuthorization
  allowedDataItems : List ListedDataItem
  deriving DecidableEq, Repr

def findItemPermission (context : RolesContext) (markers : List MarkerPermission)
    (filter : PermissionFilter) (role : Option PermissionRole) :
    List JsString → Option (Option (JsString × PossiblePermission))
  | [] => some none
  | m :: rest =>
    match markers.find? (fun marker => marker.marker = m) with
    | none => findItemPermission context markers filter role rest
    | some marker =>
      match context.findAction filter role marker with
      | none => none
      | some none => findItemPermission context markers filter role rest
      | some (some itemPermission) => some (some (marker.marker, itemPermission))

/-- A permission is written down once for its marker. Two that are equal are the same one: of equal
permissions of a marker only the first is ever found. -/
def useItemPermission (marker : JsString) (itemPermission : PossiblePermission)
    (authorizations : List MarkerAuthorization) : List MarkerAuthorization :=
  authorizations.map (fun authorization =>
    if authorization.marker = marker ∧
        itemPermission.permission ∉ authorization.actions.map (fun action => action.granting.permission) then
      { authorization with actions := authorization.actions ++ [⟨.data .list, itemPermission⟩] }
    else authorization)

def authorizeDataItems (context : RolesContext) (markers : List MarkerPermission) :
    Listing → List ListedDataItem → Option Listing
  | listing, [] => some listing
  | listing, item :: rest =>
    match findItemPermission context markers (byData context.testRegex .list item.address) listing.role
        item.markers with
    | none => none
    | some none => authorizeDataItems context markers listing rest
    | some (some (marker, itemPermission)) =>
      authorizeDataItems context markers
        { role := some (listing.role.getD itemPermission.permission.role)
          authorizations := useItemPermission marker itemPermission listing.authorizations
          allowedDataItems := listing.allowedDataItems ++ [item] } rest

/-- A missing role, and an empty one, become that of everyone. -/
def listingRole : Option PermissionRole → PermissionRole
  | none => .everyone
  | some role => if role = .named [] then .everyone else role

/-- `_authorizeDataList` turns nobody down: who may list nothing sees nothing. -/
def authorizeDataList (context : RolesContext) (markers : List MarkerPermission)
    (dataItems : List ListedDataItem) : Option (GenericAuthorization × List ListedDataItem) :=
  (authorizeDataItems context markers
      { role := none
        authorizations := markers.map (fun marker => ⟨marker.marker, []⟩)
        allowedDataItems := [] } dataItems).map
    (fun listing => (⟨listingRole listing.role, listing.authorizations⟩, listing.allowedDataItems))

/-! ### A request -/

/-- The list of the last subject is cut down to what each instance is allowed to see too. -/
def authorizeListInstances (recordKeyValid : Bool)
    (authorize : JsString → Option (GenericAuthorization × List ListedDataItem)) :
    List ListedDataItem → List JsString → Option (List InstAuthorization × List ListedDataItem)
  | currentItems, [] => some ([], currentItems)
  | currentItems, inst :: rest =>
    if recordKeyValid then
      (authorizeListInstances recordKeyValid authorize currentItems rest).map
        (fun result => (.notRequired inst :: result.1, result.2))
    else
      match authorize inst with
      | none => none
      | some (authorization, allowedDataItems) =>
        (authorizeListInstances recordKeyValid authorize
            (intersectionBy (fun item => item.address) currentItems allowedDataItems) rest).map
          (fun result => (.allowed inst authorization :: result.1, result.2))

section Requests

variable (store : PolicyStore) (testRegex : JsString → JsString → Bool) (context : AuthorizationContext)
  (request : AuthorizeListDataRequest)

/-- `union` of the markers of all items. -/
def allMarkers (dataItems : List ListedDataItem) : List JsString :=
  (dataItems.flatMap (fun item => item.markers)).eraseDups

/-- `_authorizeDataListRequest`. Nothing where a filter throws. -/
def authorizeDataListRequest : Option (Except AuthorizeDenied ListDataAllowed) :=
  if maxAllowedInstances < (request.instances.getD []).length then
    some (.error notAuthorizedToManyInstancesResult)
  else if allMarkers request.dataItems = [] then some (.error (notAuthorizedResult .noMarkers))
  else
    let markers := listPermissionsForMarkers store context.recordName (allMarkers request.dataItems)
    match authorizeDataList (subjectContext store testRegex context .user request.userId) markers
        request.dataItems with
    | none => none
    | some (subject, allowedDataItems) =>
      match authorizeListInstances context.recordKeyResult.isSome
          (fun inst => authorizeDataList (subjectContext store testRegex context .inst (some inst)) markers
            request.dataItems)
          allowedDataItems (request.instances.getD []) with
      | none => none
      | some (instances, visibleItems) =>
        let recordKeyOwnerId := context.recordKeyResult.map (fun result => result.keyCreatorId)
        some (.ok
          { recordName := context.recordName
            recordKeyOwnerId := recordKeyOwnerId
            authorizerId := recordKeyOwnerId.or request.userId
            subject := subject
            userId := request.userId
            subjectPolicy := context.subjectPolicy
            instances := instances
            allowedDataItems := visibleItems })

def authorizeListUsingContext : Except AuthorizeDenied ListDataAllowed :=
  (authorizeDataListRequest store testRegex context request).getD (.error serverErrorResult)

end Requests

/-! ### What a subject may see -/

section Visible

variable (c : RolesContext)

def listPermissions (item : ListedDataItem) : List PossiblePermission :=
  (item.markers.flatMap (fun marker =>
      (markerPermission c.store c.recordName marker).permissions)).filter
    (fun possible => byData c.testRegex .list item.address possible.permission = some true)

def listedFor (role : PermissionRole) (item : ListedDataItem) : Bool :=
  (listPermissions c item).any (fun possible => possible.permission.role = role)

def hasRole (role : PermissionRole) : Bool :=
  role = .everyone ∨ (c.subjectType = .user ∧ c.id = some c.recordOwnerId) ∨
    c.id.any (fun known => roleAssigned (rolesOf c.store c.recordName c.subjectType known) role)

def visible (item : ListedDataItem) : Bool :=
  (listPermissions c item).any (fun possible => hasRole c possible.permission.role)

def firstUsable (dataItems : List ListedDataItem) : Option PossiblePermission :=
  (dataItems.flatMap (listPermissions c)).find?
    (fun possible => c.byCurrentRole none possible.permission = some true)

def listed (dataItems : List ListedDataItem) (item : ListedDataItem) : Bool :=
  (firstUsable c dataItems).any (fun first => listedFor c first.permission.role item)

end Visible

def listSubjects (request : AuthorizeListDataRequest) : List (SubjectType × Option JsString) :=
  (.user, request.userId) :: (request.instances.getD []).map (fun inst => (.inst, some inst))

/-! ### Searches -/

section Searches

theorem find_first {filter : PermissionFilter} {permissions : List PossiblePermission}
    {answer : Option PossiblePermission} (looked : findPermissionByFilter permissions filter = some answer) :
    answer = permissions.find? (fun possible => filter possible.permission = some true) := by
  induction permissions with
  | nil => exact (some.inj looked).symm
  | cons first rest ih =>
    rw [findPermissionByFilter] at looked
    cases same : filter first.permission with
    | none => rw [same] at looked; cases looked
    | some passed =>
      rw [same] at looked
      cases passed with
      | true =>
        rw [List.find?_cons_of_pos (by simp [same])]
        exact (some.inj looked).symm
      | false =>
        rw [List.find?_cons_of_neg (by simp [same])]
        exact ih looked

theorem find_marker (store : PolicyStore) (recordName : JsString) {markers : List JsString} {m : JsString}
    (member : m ∈ markers) :
    (listPermissionsForMarkers store recordName markers).find? (fun marker => marker.marker = m) =
      some (markerPermission store recordName m) := by
  induction markers with
  | nil => cases member
  | cons first rest ih =>
    rw [listPermissions_cons]
    by_cases same : first = m
    · rw [List.find?_cons_of_pos (by simp [same]), same]
    · rw [List.find?_cons_of_neg (by simp [same])]
      exact ih ((List.mem_cons.mp member).resolve_left (Ne.symm same))

theorem findItemPermission_eq (c : RolesContext) (filter : PermissionFilter) (role : Option PermissionRole)
    {markers names : List JsString} (inside : ∀ m ∈ names, m ∈ markers) :
    (findItemPermission c (listPermissionsForMarkers c.store c.recordName markers) filter role names).map
        (fun answer => answer.map Prod.snd) =
      findPermissionByFilter
        (names.flatMap (fun marker => (markerPermission c.store c.recordName marker).permissions))
        (everyFilter [filter, c.byCurrentRole role]) := by
  induction names with
  | nil => rfl
  | cons m rest ih =>
    have later := ih (fun other member => inside other (List.mem_cons_of_mem _ member))
    rw [List.flatMap_cons, find_append, findItemPermission, find_marker _ _ (inside m List.mem_cons_self)]
    have search : findPermissionByFilter (markerPermission c.store c.recordName m).permissions
        (everyFilter [filter, c.byCurrentRole role]) =
        c.findAction filter role (markerPermission c.store c.recordName m) := rfl
    rw [search]
    cases looked : c.findAction filter role (markerPermission c.store c.recordName m) with
    | none => simp only [looked, Option.map_none]
    | some answer =>
      cases answer with
      | none => simpa only [looked] using later
      | some found => simp only [looked, Option.map_some]

end Searches

/-! ### The items of one subject -/

section Subject

variable (c : RolesContext) {markers : List JsString}

variable {item : ListedDataItem} {items : List ListedDataItem}

/-- The permissions on the markers of an item, as a subject's search meets them. -/
theorem possible_iff {possible : PossiblePermission} : possible ∈ listPermissions c item ↔
      possible ∈ item.markers.flatMap (fun marker =>
          (markerPermission c.store c.recordName marker).permissions) ∧
        byData c.testRegex .list item.address possible.permission = some true := by
  simp only [listPermissions, List.mem_filter, decide_eq_true_eq]

theorem listedFor_iff {role : PermissionRole} : listedFor c role item = true ↔ ∃ possible ∈ listPermissions c item,
        possible.permission.role = role := by
  simp only [listedFor, List.any_eq_true, decide_eq_true_eq]

theorem listed_iff : listed c items item = true ↔
      ∃ first, firstUsable c items = some first ∧ listedFor c first.permission.role item = true := by
  rw [listed]
  cases firstUsable c items with
  | none => simp
  | some first => simp

theorem firstUsable_current {first : PossiblePermission}
    (usable : firstUsable c items = some first) : c.byCurrentRole none first.permission = some true := by
  rw [firstUsable] at usable
  have passed := List.find?_some usable
  exact of_decide_eq_true passed

theorem byData_sure (testRegex : JsString → JsString → Bool) (type : DataAction) (address : JsString) :
    Sure (byData testRegex type address) := by
  intro permission none
  cases permission <;> cases none

theorem findItem_fixed (role : PermissionRole) (inside : ∀ m ∈ item.markers, m ∈ markers) :
    (∃ answer, findItemPermission c (listPermissionsForMarkers c.store c.recordName markers)
        (byData c.testRegex .list item.address) (some role) item.markers = some (some answer) ∧
      listedFor c role item = true) ∨
    (findItemPermission c (listPermissionsForMarkers c.store c.recordName markers)
        (byData c.testRegex .list item.address) (some role) item.markers = some none ∧
      listedFor c role item = false) := by
  have same := findItemPermission_eq c (byData c.testRegex .list item.address) (some role) inside
  have sure := every_sure (byData_sure c.testRegex .list item.address) (byRole_sure role)
  rcases find_sure sure with ⟨found, member, looked, passed⟩ | ⟨looked, others⟩
  · obtain ⟨answer, ran, second⟩ := Option.map_eq_some_iff.mp (same.trans looked)
    obtain ⟨pair, rfl, _⟩ := Option.map_eq_some_iff.mp second
    have ⟨data, own⟩ := every_pair.mp passed
    exact .inl ⟨pair, ran, (listedFor_iff c).mpr ⟨found, (possible_iff c).mpr ⟨member, data⟩, byRole_true.mp own⟩⟩
  · obtain ⟨answer, ran, second⟩ := Option.map_eq_some_iff.mp (same.trans looked)
    refine .inr ⟨ran.trans (congrArg some (Option.map_eq_none_iff.mp second)), ?_⟩
    apply Bool.eq_false_iff.mpr
    intro holds
    obtain ⟨possible, member, own⟩ := (listedFor_iff c).mp holds
    obtain ⟨held, data⟩ := (possible_iff c).mp member
    exact others possible held (every_pair.mpr ⟨data, byRole_true.mpr own⟩)

theorem authorizeItems_fixed (role : PermissionRole) (items : List ListedDataItem)
    (inside : ∀ item ∈ items, ∀ m ∈ item.markers, m ∈ markers) (listing : Listing)
    (fixed : listing.role = some role) :
    ∃ ended, authorizeDataItems c (listPermissionsForMarkers c.store c.recordName markers) listing items = some ended ∧
      ended.allowedDataItems = listing.allowedDataItems ++
        items.filter (listedFor c role) := by
  induction items generalizing listing with
  | nil => exact ⟨listing, rfl, (List.append_nil _).symm⟩
  | cons item rest ih =>
    have later := fun listing => ih (fun other member => inside other (List.mem_cons_of_mem _ member)) listing
    rw [authorizeDataItems, fixed]
    rcases findItem_fixed c role (inside item List.mem_cons_self) with ⟨answer, ran, seen⟩ | ⟨ran, unseen⟩
    · simp only [ran, List.filter_cons_of_pos seen]
      obtain ⟨ended, rest_ran, all⟩ := later
        { role := some role
          authorizations := useItemPermission answer.1 answer.2 listing.authorizations
          allowedDataItems := listing.allowedDataItems ++ [item] } rfl
      exact ⟨ended, rest_ran, all.trans (by rw [List.append_assoc, List.singleton_append])⟩
    · simp only [ran, List.filter_cons_of_neg (Bool.eq_false_iff.mp unseen)]
      exact later listing fixed

/-- Without a role, an item is searched for any permission that the subject may use. -/
theorem findItem_open (inside : ∀ m ∈ item.markers, m ∈ markers) {answer : Option (JsString × PossiblePermission)}
    (ran : findItemPermission c (listPermissionsForMarkers c.store c.recordName markers)
      (byData c.testRegex .list item.address) none item.markers = some answer) :
    answer.map Prod.snd = (listPermissions c item).find?
      (fun possible => c.byCurrentRole none possible.permission = some true) := by
  have same := findItemPermission_eq c (byData c.testRegex .list item.address) none inside
  rw [ran] at same
  have first := find_first same.symm
  refine first.trans ?_
  rw [listPermissions, List.find?_filter]
  congr 1
  funext possible
  rw [Bool.eq_iff_iff]
  simp only [decide_eq_true_eq, Bool.decide_and, Bool.and_eq_true, every_pair]

theorem listedFor_of_found {found : PossiblePermission} (first : (listPermissions c item).find?
      (fun possible => c.byCurrentRole none possible.permission = some true) = some found) :
    listedFor c found.permission.role item = true :=
  (listedFor_iff c).mpr ⟨found, List.mem_of_find?_eq_some first, rfl⟩

theorem unlisted_of_none {found : PossiblePermission} (nothing : (listPermissions c item).find?
      (fun possible => c.byCurrentRole none possible.permission = some true) = none)
    (current : c.byCurrentRole none found.permission = some true) :
    ¬ listedFor c found.permission.role item = true := by
  intro holds
  obtain ⟨possible, member, same⟩ := (listedFor_iff c).mp holds
  have refused := List.find?_eq_none.mp nothing possible member
  rw [decide_eq_true_eq, current_roleOnly c _ _ same] at refused
  exact refused current

theorem authorizeItems_open (items : List ListedDataItem)
    (inside : ∀ item ∈ items, ∀ m ∈ item.markers, m ∈ markers) (listing ended : Listing)
    (unfixed : listing.role = none)
    (ran : authorizeDataItems c (listPermissionsForMarkers c.store c.recordName markers) listing items =
      some ended) : ended.allowedDataItems = listing.allowedDataItems ++ items.filter (listed c items) := by
  induction items with
  | nil =>
    rw [authorizeDataItems] at ran
    rw [← some.inj ran, List.filter_nil, List.append_nil]
  | cons item rest ih =>
    have here := inside item List.mem_cons_self
    have others := fun other member => inside other (List.mem_cons_of_mem item member)
    rw [authorizeDataItems, unfixed] at ran
    cases search : findItemPermission c (listPermissionsForMarkers c.store c.recordName markers)
        (byData c.testRegex .list item.address) none item.markers with
    | none => simp only [search] at ran; cases ran
    | some answer =>
      have first := findItem_open c here search
      cases answer with
      | none =>
        simp only [search] at ran
        have same : firstUsable c (item :: rest) = firstUsable c rest := by
          rw [firstUsable, List.flatMap_cons, List.find?_append, ← first]
          rfl
        have unseen : ¬ listed c (item :: rest) item = true := by
          rw [listed, same]
          intro seen
          obtain ⟨found, usable, holds⟩ := (listed_iff c).mp seen
          exact unlisted_of_none c first.symm (firstUsable_current c usable) holds
        rw [List.filter_cons_of_neg unseen, ih others ran]
        have alike : listed c (item :: rest) = listed c rest := by
          funext other
          rw [listed, listed, same]
        rw [alike]
      | some pair =>
        simp only [search, Option.getD_none] at ran
        have same : firstUsable c (item :: rest) = some pair.2 := by
          rw [firstUsable, List.flatMap_cons, List.find?_append, ← first]
          rfl
        have alike : listed c (item :: rest) = listedFor c pair.2.permission.role := by
          funext other
          rw [listed, same, Option.any_some]
        obtain ⟨later, rest_ran, all⟩ := authorizeItems_fixed c pair.2.permission.role rest others
          { role := some pair.2.permission.role
            authorizations := useItemPermission pair.1 pair.2 listing.authorizations
            allowedDataItems := listing.allowedDataItems ++ [item] } rfl
        rw [← some.inj (rest_ran.symm.trans ran), all, alike,
          List.filter_cons_of_pos (listedFor_of_found c first.symm), List.append_assoc,
          List.singleton_append]

theorem dataList_listed (inside : ∀ item ∈ items, ∀ m ∈ item.markers, m ∈ markers)
    {authorization : GenericAuthorization} {allowedDataItems : List ListedDataItem}
    (ran : authorizeDataList c (listPermissionsForMarkers c.store c.recordName markers) items =
      some (authorization, allowedDataItems)) : allowedDataItems = items.filter (listed c items) := by
  obtain ⟨ended, items_ran, same⟩ := Option.map_eq_some_iff.mp ran
  rw [← (Prod.mk.inj same).2]
  exact authorizeItems_open c items inside _ ended rfl items_ran

theorem hasRole_of_current (noKey : c.recordKeyResult = none) {permission : Permission}
    (current : c.byCurrentRole none permission = some true) : hasRole c permission.role = true := by
  apply decide_eq_true
  rcases some_cons current with everyone | later
  · exact .inl (byRole_true.mp everyone)
  · rcases some_cons later with admin | last
    · rw [byAdminRole, if_neg (by simp [noKey])] at admin
      exact .inr (.inl (of_decide_eq_true (some.inj admin)))
    · rcases some_cons last with subject | nothing
      · unfold bySubjectRole at subject
        by_cases known : idText c.id = []
        · rw [if_pos known] at subject
          cases subject
        · rw [if_neg known] at subject
          cases given : c.id with
          | none => exact absurd (congrArg idText given) known
          | some text =>
            rw [given] at subject
            refine .inr (.inr ?_)
            rw [Option.any_some]
            cases kind : c.subjectType with
            | user =>
              rw [kind] at subject
              exact some.inj subject
            | inst =>
              rw [kind] at subject
              simp only [byInstRole] at subject
              split at subject
              · cases subject
              · exact some.inj subject
      · cases nothing

theorem visible_of_listed (noKey : c.recordKeyResult = none)
    (seen : listed c items item = true) : visible c item = true := by
  obtain ⟨first, usable, holds⟩ := (listed_iff c).mp seen
  obtain ⟨possible, member, same⟩ := (listedFor_iff c).mp holds
  refine List.any_eq_true.mpr ⟨possible, member, ?_⟩
  rw [same]
  exact hasRole_of_current c noKey (firstUsable_current c usable)

end Subject

/-! ### What all subjects see -/

section Intersections

variable {α κ : Type} [DecidableEq κ] {key : α → κ}

theorem choose_eq (second : List α) (values : List α) (seen : List κ) (distinct : (values.map key).Nodup)
    (fresh : ∀ value ∈ values, key value ∉ seen) :
    intersectionBy.choose key second seen values =
      values.filter (fun value => key value ∈ second.map key) := by
  induction values generalizing seen with
  | nil => rfl
  | cons value rest ih =>
    have ⟨apart, distinctRest⟩ := List.nodup_cons.mp distinct
    have new := fresh value List.mem_cons_self
    have others : ∀ other ∈ rest, key other ∉ seen :=
      fun other member => fresh other (List.mem_cons_of_mem _ member)
    rw [intersectionBy.choose]
    by_cases member : key value ∈ second.map key
    · rw [if_pos ⟨new, member⟩, List.filter_cons, if_pos (decide_eq_true member)]
      congr 1
      apply ih _ distinctRest
      intro other inside either
      rcases List.mem_cons.mp either with same | older
      · exact apart (same ▸ List.mem_map_of_mem inside)
      · exact others other inside older
    · rw [if_neg (fun both => member both.2), List.filter_cons, if_neg (by simpa using member)]
      exact ih _ distinctRest others

theorem intersectionBy_filter {values : List α} (distinct : (values.map key).Nodup) (p q : α → Bool) :
    intersectionBy key (values.filter p) (values.filter q) =
      values.filter (fun value => p value && q value) := by
  have kept : ((values.filter p).map key).Nodup :=
    distinct.sublist (List.filter_sublist.map key)
  rw [intersectionBy, choose_eq _ _ _ kept (fun _ _ none => by cases none), List.filter_filter]
  apply List.filter_congr
  intro value member
  have found : key value ∈ (values.filter q).map key ↔ q value = true := by
    constructor
    · intro inside
      obtain ⟨other, chosen, same⟩ := List.mem_map.mp inside
      have ⟨held, passed⟩ := List.mem_filter.mp chosen
      exact List.inj_on_of_nodup_map distinct held member same ▸ passed
    · intro passed
      exact List.mem_map_of_mem (List.mem_filter.mpr ⟨member, passed⟩)
  rw [Bool.and_comm (p value)]
  congr 1
  exact Bool.eq_iff_iff.mpr (decide_eq_true_iff.trans found)

end Intersections

theorem filter_eq_iff {α : Type} {values : List α} {p q : α → Bool}
    (included : ∀ value ∈ values, p value = true → q value = true) :
    values.filter p = values.filter q ↔ ∀ value ∈ values, q value = true → p value = true := by
  constructor
  · intro same value member passed
    have kept : value ∈ values.filter p := same ▸ List.mem_filter.mpr ⟨member, passed⟩
    exact (List.mem_filter.mp kept).2
  · intro back
    apply List.filter_congr
    intro value member
    exact Bool.eq_iff_iff.mpr ⟨included value member, back value member⟩

theorem listInstances_listed {items : List ListedDataItem} (distinct : (items.map (fun item => item.address)).Nodup)
    {authorize : JsString → Option (GenericAuthorization × List ListedDataItem)}
    {sees : JsString → ListedDataItem → Bool}
    (each : ∀ inst authorization allowedDataItems,
      authorize inst = some (authorization, allowedDataItems) →
        allowedDataItems = items.filter (sees inst))
    (insts : List JsString) (p : ListedDataItem → Bool) (instances : List InstAuthorization)
    (ended : List ListedDataItem)
    (ran : authorizeListInstances false authorize (items.filter p) insts = some (instances, ended)) :
    ended = items.filter (fun item => p item && insts.all (fun inst => sees inst item)) := by
  induction insts generalizing p instances ended with
  | nil =>
    rw [authorizeListInstances] at ran
    rw [← (Prod.mk.inj (some.inj ran)).2]
    simp only [List.all_nil, Bool.and_true]
  | cons inst rest ih =>
    rw [authorizeListInstances, if_neg (by simp)] at ran
    cases decided : authorize inst with
    | none => simp only [decided] at ran; cases ran
    | some result =>
      simp only [decided] at ran
      rw [each inst result.1 result.2 decided, intersectionBy_filter distinct] at ran
      obtain ⟨later, rest_ran, same⟩ := Option.map_eq_some_iff.mp ran
      rw [← (Prod.mk.inj same).2]
      refine (ih _ later.1 later.2 rest_ran).trans ?_
      simp only [List.all_cons, Bool.and_assoc]

section Request

variable (store : PolicyStore) (testRegex : JsString → JsString → Bool) (context : AuthorizationContext)
  (request : AuthorizeListDataRequest)

def visibleToAll (item : ListedDataItem) : Bool :=
  (listSubjects request).all (fun subject =>
    visible (subjectContext store testRegex context subject.1 subject.2) item)

def listedToAll (item : ListedDataItem) : Bool :=
  (listSubjects request).all (fun subject =>
    listed (subjectContext store testRegex context subject.1 subject.2) request.dataItems item)

theorem allowed_listed (noKey : context.recordKeyResult = none)
    (distinct : (request.dataItems.map (fun item => item.address)).Nodup) (answer : ListDataAllowed)
    (allowed : authorizeListUsingContext store testRegex context request = .ok answer) :
    answer.allowedDataItems = request.dataItems.filter (listedToAll store testRegex context request) := by
  have inside : ∀ item ∈ request.dataItems, ∀ m ∈ item.markers, m ∈ allMarkers request.dataItems :=
    fun item member m held => List.mem_eraseDups.mpr (List.mem_flatMap.mpr ⟨item, member, held⟩)
  have each := fun (subjectType : SubjectType) (id : Option JsString) (authorization : GenericAuthorization)
      (items : List ListedDataItem) => @dataList_listed (subjectContext store testRegex context subjectType id)
    (allMarkers request.dataItems) request.dataItems inside authorization items
  rw [authorizeListUsingContext, authorizeDataListRequest] at allowed
  by_cases many : maxAllowedInstances < (request.instances.getD []).length
  · rw [if_pos many] at allowed
    cases allowed
  · rw [if_neg many] at allowed
    by_cases empty : allMarkers request.dataItems = []
    · rw [if_pos empty] at allowed
      cases allowed
    · rw [if_neg empty, noKey] at allowed
      cases user : authorizeDataList (subjectContext store testRegex context .user request.userId)
          (listPermissionsForMarkers store context.recordName (allMarkers request.dataItems))
          request.dataItems with
      | none => simp only [user] at allowed; cases allowed
      | some subject =>
        simp only [user, Option.isSome_none, each .user request.userId subject.1 subject.2 user] at allowed
        cases ran : authorizeListInstances false
            (fun inst => authorizeDataList (subjectContext store testRegex context .inst (some inst))
              (listPermissionsForMarkers store context.recordName (allMarkers request.dataItems))
              request.dataItems)
            (request.dataItems.filter
              (listed (subjectContext store testRegex context .user request.userId) request.dataItems))
            (request.instances.getD []) with
        | none => simp only [ran] at allowed; cases allowed
        | some result =>
          simp only [ran, Option.getD_some] at allowed
          rw [← Except.ok.inj allowed]
          have final := listInstances_listed distinct (fun inst => each .inst (some inst)) _ _ _ _ ran
          refine final.trans ?_
          congr 1
          funext item
          simp only [listedToAll, listSubjects, List.all_cons, List.all_map, Function.comp_def]

/-- A listing shows all that its subjects may see just when, for each of them, the role of the first
permission it may use lists it all. -/
theorem listing_exact_iff (noKey : context.recordKeyResult = none)
    (distinct : (request.dataItems.map (fun item => item.address)).Nodup) (answer : ListDataAllowed)
    (allowed : authorizeListUsingContext store testRegex context request = .ok answer) :
    answer.allowedDataItems = request.dataItems.filter (visibleToAll store testRegex context request) ↔
      ∀ item ∈ request.dataItems, visibleToAll store testRegex context request item = true →
        ∀ subject ∈ listSubjects request, ∃ first,
          firstUsable (subjectContext store testRegex context subject.1 subject.2) request.dataItems =
            some first ∧
          listedFor (subjectContext store testRegex context subject.1 subject.2) first.permission.role
            item = true := by
  have sound : ∀ item ∈ request.dataItems, listedToAll store testRegex context request item = true →
      visibleToAll store testRegex context request item = true := by
    intro item _ seen
    refine List.all_eq_true.mpr (fun subject member => ?_)
    exact visible_of_listed _ noKey (List.all_eq_true.mp seen subject member)
  rw [allowed_listed store testRegex context request noKey distinct answer allowed, filter_eq_iff sound]
  simp only [listedToAll, List.all_eq_true, listed_iff]

end Request

/-! ### A public item before that of a role -/

def sharedListings : MongoDBPolicyStore where
  policies recordName marker :=
    if recordName = lit ['r'] ∧ marker = lit ['m'] then
      some { document := ⟨[.data .list .everyone .all]⟩, markers := [accountMarker] }
    else if recordName = lit ['r'] ∧ marker = lit ['n'] then
      some { document := ⟨[.data .list (.named (lit ['x'])) .all]⟩, markers := [accountMarker] }
    else none
  roles recordName subject :=
    if recordName = lit ['r'] ∧ subject = .user (lit ['u']) then
      [⟨lit ['x'], none⟩]
    else []

def listRequest : AuthorizeListDataRequest where
  userId := some (lit ['u'])
  instances := none
  dataItems := [⟨lit ['a'], [lit ['m']]⟩, ⟨lit ['b'], [lit ['n']]⟩]

def listAnswer : ListDataAllowed where
  recordName := lit ['r']
  recordKeyOwnerId := none
  authorizerId := some (lit ['u'])
  subject :=
    ⟨.everyone,
      [⟨lit ['m'],
          [⟨.data .list, ⟨⟨[.data .list .everyone .all]⟩, .data .list .everyone .all⟩⟩]⟩,
        ⟨lit ['n'], []⟩]⟩
  userId := some (lit ['u'])
  subjectPolicy := subjectfull
  instances := []
  allowedDataItems := [⟨lit ['a'], [lit ['m']]⟩]

theorem list_allowed : authorizeListUsingContext (readsAt sharedListings 0) (fun _ _ => false) sharedContext
    listRequest = .ok listAnswer := by decide

theorem public_item_decides :
    ¬ ∀ item ∈ listRequest.dataItems,
      visibleToAll (readsAt sharedListings 0) (fun _ _ => false) sharedContext listRequest item = true →
      ∀ subject ∈ listSubjects listRequest, ∃ first,
        firstUsable (subjectContext (readsAt sharedListings 0) (fun _ _ => false) sharedContext
          subject.1 subject.2) listRequest.dataItems = some first ∧
        listedFor (subjectContext (readsAt sharedListings 0) (fun _ _ => false) sharedContext
          subject.1 subject.2) first.permission.role item = true := by
  intro all
  have same := (listing_exact_iff (readsAt sharedListings 0) (fun _ _ => false) sharedContext listRequest
    rfl (by decide) listAnswer list_allowed).mpr all
  exact absurd same (by decide)

/-- The user may list both items, and sees the one alone that everyone may list. -/
theorem visible_item_missing :
    constructAuthorizationContext KeyCreation.pairing sharedRecords (lit ['r']) =
        .ok sharedContext ∧
      sharedContext.recordKeyResult = none ∧
      (listRequest.dataItems.map (fun item => item.address)).Nodup ∧
      authorizeListUsingContext (readsAt sharedListings 0) (fun _ _ => false) sharedContext listRequest =
        .ok listAnswer ∧
      listRequest.dataItems.filter
          (visibleToAll (readsAt sharedListings 0) (fun _ _ => false) sharedContext listRequest) =
        listRequest.dataItems ∧
      listAnswer.allowedDataItems ≠ listRequest.dataItems :=
  ⟨sharedContext_built, rfl, by decide, list_allowed, by decide, by decide⟩

end CasualOS.PolicyController
