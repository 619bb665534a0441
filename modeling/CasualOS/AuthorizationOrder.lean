import Mathlib.Data.List.Forall2
import Mathlib.Data.List.Perm.Basic
import CasualOS.AuthorizationRole

/-! When the decision about a write depends on the order of markers, policies and permissions. -/

namespace CasualOS.PolicyController

open JsString (lit)

/-! ### Arrangements -/

/-- The same documents in another order, each with its permissions in another order. -/
def SameDocuments (first second : List PolicyDocument) : Prop :=
  ∃ middle, first.Perm middle ∧
    List.Forall₂ (fun one other : PolicyDocument => one.permissions.Perm other.permissions) middle second

structure RearrangedStore (store store' : PolicyStore) : Prop where
  policies : ∀ recordName marker,
    SameDocuments (store.listPoliciesForMarker recordName marker)
      (store'.listPoliciesForMarker recordName marker)
  userRoles : store'.listRolesForUser = store.listRolesForUser
  instRoles : store'.listRolesForInst = store.listRolesForInst

inductive SameMarkers : Option (List JsString) → Option (List JsString) → Prop where
  | none : SameMarkers none none
  | some {first second : List JsString} : first.Perm second → SameMarkers (some first) (some second)

structure RearrangedChange (change change' : MarkerChange) : Prop where
  existing : change.existingMarkers.Perm change'.existingMarkers
  added : SameMarkers change.addedMarkers change'.addedMarkers
  removed : SameMarkers change.removedMarkers change'.removedMarkers

inductive RearrangedWrite : Action → Action → Prop where
  | dataCreate (address : JsString) {markers markers' : List JsString} : markers.Perm markers' →
      RearrangedWrite (.dataCreate address markers) (.dataCreate address markers')
  | dataUpdate (address : JsString) {change change' : MarkerChange} : RearrangedChange change change' →
      RearrangedWrite (.dataUpdate address change) (.dataUpdate address change')
  | fileCreate (file : FileInfo) {markers markers' : List JsString} : markers.Perm markers' →
      RearrangedWrite (.fileCreate file markers) (.fileCreate file markers')
  | fileUpdate (file : FileInfo) {change change' : MarkerChange} : RearrangedChange change change' →
      RearrangedWrite (.fileUpdate file change) (.fileUpdate file change')
  | eventUpdate (eventName : JsString) {change change' : MarkerChange} :
      RearrangedChange change change' →
      RearrangedWrite (.eventUpdate eventName change) (.eventUpdate eventName change')

/-- Another order of the markers of the request, of the policies and of their permissions. -/
structure Rearranged (store : PolicyStore) (request : AuthorizeRequest) (store' : PolicyStore)
    (request' : AuthorizeRequest) : Prop where
  store : RearrangedStore store store'
  action : RearrangedWrite request.action request'.action
  userId : request'.userId = request.userId
  instances : request'.instances = request.instances

/-- The markers of which each may come first. -/
def Action.leading : Action → List JsString
  | dataCreate _ markers | dataRead _ markers | dataDelete _ markers | fileCreate _ markers
  | fileRead _ markers | fileDelete _ markers | eventCount _ markers | eventIncrement _ markers => markers
  | dataUpdate _ change | fileUpdate _ change | eventUpdate _ change =>
    if change.existingMarkers ≠ [] then change.existingMarkers
    else if change.addedMarkers.getD [] ≠ [] then change.addedMarkers.getD []
    else change.removedMarkers.getD []

/-! ### What no arrangement changes -/

section Documents

theorem sameDocuments_refl (documents : List PolicyDocument) : SameDocuments documents documents :=
  ⟨documents, List.Perm.refl _, List.forall₂_same.mpr (fun _ _ => List.Perm.refl _)⟩

theorem permission_mem_iff {first second : List PolicyDocument} (same : SameDocuments first second)
    (P : Permission → Prop) :
    (∃ policy ∈ first, ∃ permission ∈ policy.permissions, P permission) ↔
      ∃ policy ∈ second, ∃ permission ∈ policy.permissions, P permission := by
  have ⟨middle, moved, pairs⟩ := same
  have front : (∃ policy ∈ first, ∃ permission ∈ policy.permissions, P permission) ↔
      ∃ policy ∈ middle, ∃ permission ∈ policy.permissions, P permission :=
    exists_congr (fun policy => and_congr_left (fun _ => moved.mem_iff))
  rw [front]
  clear front moved same
  induction pairs with
  | nil => rfl
  | cons pair rest ih =>
    simp only [List.exists_mem_cons_iff, ih]
    exact or_congr_left (exists_congr (fun permission => and_congr_left (fun _ => pair.mem_iff)))

end Documents

section Invariant

variable {store store' : PolicyStore} {recordName marker : JsString} {role : PermissionRole}
  {testRegex : JsString → JsString → Bool}

theorem grants_rearranged (same : RearrangedStore store store') (filter : PermissionFilter) :
    Grants store' recordName filter role marker ↔ Grants store recordName filter role marker :=
  (permission_mem_iff (same.policies recordName marker)
    (fun permission => filter permission = some true ∧ permission.role = role)).symm

theorem grantsPolicy_rearranged (same : RearrangedStore store store') (action : PolicyAction) :
    GrantsPolicy store' testRegex recordName action role marker ↔
      GrantsPolicy store testRegex recordName action role marker :=
  or_congr (grants_rearranged same _) (grants_rearranged same _)

theorem sameMarkers_mem {first second : Option (List JsString)} (same : SameMarkers first second)
    (marker : JsString) : marker ∈ second.getD [] ↔ marker ∈ first.getD [] := by
  cases same with
  | none => rfl
  | some moved => exact moved.mem_iff.symm

theorem sameMarkers_perm {first second : Option (List JsString)} (same : SameMarkers first second) :
    (first.getD []).Perm (second.getD []) := by
  cases same with
  | none => exact List.Perm.refl _
  | some moved => exact moved

theorem perm_eq_nil {first second : List JsString} (moved : first.Perm second) : second = [] ↔ first = [] := by
  constructor
  · intro none
    exact List.perm_nil.mp (none ▸ moved)
  · intro none
    exact List.nil_perm.mp (none ▸ moved)

variable {change change' : MarkerChange} {action action' : Action}

theorem isAdded_rearranged (same : RearrangedChange change change') (marker : JsString) :
    change'.isAdded marker = change.isAdded marker :=
  decide_eq_decide.mpr (sameMarkers_mem same.added marker)

theorem isRemoved_rearranged (same : RearrangedChange change change') (marker : JsString) :
    change'.isRemoved marker = change.isRemoved marker :=
  decide_eq_decide.mpr (sameMarkers_mem same.removed marker)

theorem assigns_rearranged (same : RearrangedChange change change') (marker : JsString) :
    change'.assigns marker = change.assigns marker := by
  rw [MarkerChange.assigns, MarkerChange.assigns, isAdded_rearranged same, isRemoved_rearranged same]

theorem remaining_rearranged (same : RearrangedChange change change') : change'.remaining = change.remaining := by
  have ⟨existing, added, removed⟩ := same
  have none_added := perm_eq_nil (sameMarkers_perm added)
  cases change with
  | mk existingMarkers addedMarkers removedMarkers =>
    cases change' with
    | mk existingMarkers' addedMarkers' removedMarkers' =>
      cases removed with
      | none => rfl
      | some moved =>
        apply decide_eq_decide.mpr
        simp only [ne_eq, none_added, existing.length_eq, moved.length_eq, existing.mem_iff, moved.mem_iff]

theorem turnedDown_rearranged (same : RearrangedWrite action action') : action'.turnedDown = action.turnedDown := by
  cases same with
  | dataCreate address moved => rfl
  | fileCreate file moved => rfl
  | dataUpdate address moved => simp only [Action.turnedDown, remaining_rearranged moved]
  | eventUpdate eventName moved => simp only [Action.turnedDown, remaining_rearranged moved]
  | fileUpdate file moved =>
    simp only [Action.turnedDown, remaining_rearranged moved, perm_eq_nil (sameMarkers_perm moved.added),
      perm_eq_nil (sameMarkers_perm moved.removed)]

theorem filter_rearranged (same : RearrangedWrite action action') :
    action'.filter testRegex = action.filter testRegex := by cases same <;> rfl

theorem isWrite_rearranged (same : RearrangedWrite action action') :
    action.isWrite = true ∧ action'.isWrite = true := by cases same <;> exact ⟨rfl, rfl⟩

theorem mem_markers_rearranged (same : RearrangedWrite action action') (marker : JsString) :
    marker ∈ action'.markers ↔ marker ∈ action.markers := by
  have ofChange : ∀ {change change' : MarkerChange}, RearrangedChange change change' →
      (marker ∈ change'.union ↔ marker ∈ change.union) := by
    intro change change' moved
    rw [mem_union, mem_union, moved.existing.mem_iff, isAdded_rearranged moved, isRemoved_rearranged moved]
  cases same with
  | dataCreate address moved => exact moved.mem_iff.symm
  | fileCreate file moved => exact moved.mem_iff.symm
  | dataUpdate address moved => exact ofChange moved
  | eventUpdate eventName moved => exact ofChange moved
  | fileUpdate file moved => exact ofChange moved

theorem leading_rearranged (same : RearrangedWrite action action') : action.leading.Perm action'.leading := by
  have ofChange : ∀ {change change' : MarkerChange}, RearrangedChange change change' →
      (if change.existingMarkers ≠ [] then change.existingMarkers
        else if change.addedMarkers.getD [] ≠ [] then change.addedMarkers.getD []
        else change.removedMarkers.getD []).Perm
      (if change'.existingMarkers ≠ [] then change'.existingMarkers
        else if change'.addedMarkers.getD [] ≠ [] then change'.addedMarkers.getD []
        else change'.removedMarkers.getD []) := by
    intro change change' moved
    simp only [ne_eq, perm_eq_nil moved.existing, perm_eq_nil (sameMarkers_perm moved.added)]
    split
    · exact moved.existing
    · split
      · exact sameMarkers_perm moved.added
      · exact sameMarkers_perm moved.removed
  cases same with
  | dataCreate address moved => exact moved
  | fileCreate file moved => exact moved
  | dataUpdate address moved => exact ofChange moved
  | eventUpdate eventName moved => exact ofChange moved
  | fileUpdate file moved => exact ofChange moved

theorem required_ofChange (sameStore : RearrangedStore store store')
    (same : RearrangedChange change change') (filter : PermissionFilter) :
    Required.RequiredOfChange store' testRegex recordName role filter change' ↔
      Required.RequiredOfChange store testRegex recordName role filter change := by
  simp only [Required.RequiredOfChange, isAdded_rearranged same, isRemoved_rearranged same,
    assigns_rearranged same, grants_rearranged sameStore, grantsPolicy_rearranged sameStore,
    ne_eq, perm_eq_nil same.existing, same.existing.mem_iff]

theorem required_rearranged (sameStore : RearrangedStore store store') (same : RearrangedWrite action action') :
    Required store' testRegex recordName role action' ↔
      Required store testRegex recordName role action := by
  cases same with
  | dataCreate address moved =>
    simp only [Required, grants_rearranged sameStore, grantsPolicy_rearranged sameStore, moved.mem_iff]
  | fileCreate file moved =>
    simp only [Required, grants_rearranged sameStore, grantsPolicy_rearranged sameStore, moved.mem_iff]
  | dataUpdate address moved => exact required_ofChange sameStore moved _
  | eventUpdate eventName moved => exact required_ofChange sameStore moved _
  | fileUpdate file moved =>
    simp only [Required, grants_rearranged sameStore, grantsPolicy_rearranged sameStore,
      isAdded_rearranged moved, isRemoved_rearranged moved, assigns_rearranged moved,
      moved.existing.mem_iff]

/-! ### The markers that come first -/

theorem leading_first (action : Action) :
    ∃ front rest, action.markers = front ++ rest ∧ ∀ marker, marker ∈ front ↔ marker ∈ action.leading := by
  have ofChange : ∀ change : MarkerChange, ∃ front rest, change.union = front ++ rest ∧
      ∀ marker, marker ∈ front ↔ marker ∈ (if change.existingMarkers ≠ [] then change.existingMarkers
          else if change.addedMarkers.getD [] ≠ [] then change.addedMarkers.getD []
          else change.removedMarkers.getD []) := by
    intro change
    rw [MarkerChange.union]
    split
    · exact ⟨_, _, List.eraseDups_append, fun marker => List.mem_eraseDups⟩
    · rename_i none
      rw [not_not.mp none, List.nil_append]
      split
      · exact ⟨_, _, List.eraseDups_append, fun marker => List.mem_eraseDups⟩
      · rename_i noneAdded
        rw [not_not.mp noneAdded, List.nil_append]
        exact ⟨_, [], (List.append_nil _).symm, fun marker => List.mem_eraseDups⟩
  have whole : ∀ markers : List JsString, ∃ front rest, markers = front ++ rest ∧
      ∀ marker, marker ∈ front ↔ marker ∈ markers :=
    fun markers => ⟨markers, [], (List.append_nil _).symm, fun _ => Iff.rfl⟩
  cases action with
  | dataUpdate address change => exact ofChange change
  | fileUpdate file change => exact ofChange change
  | eventUpdate eventName change => exact ofChange change
  | dataCreate address markers => exact whole markers
  | dataRead address markers => exact whole markers
  | dataDelete address markers => exact whole markers
  | fileCreate file markers => exact whole markers
  | fileRead file markers => exact whole markers
  | fileDelete file markers => exact whole markers
  | eventCount eventName markers => exact whole markers
  | eventIncrement eventName markers => exact whole markers

theorem leading_moved (write : action.isWrite = true) {marker : JsString} (leads : marker ∈ action.leading) :
    ∃ action' rest, RearrangedWrite action action' ∧ action'.markers = marker :: rest := by
  have moved : ∀ {markers : List JsString}, marker ∈ markers →
      markers.Perm (marker :: markers.erase marker) := List.perm_cons_erase
  have kept : ∀ markers : Option (List JsString), SameMarkers markers markers := by
    intro markers
    cases markers with
    | none => exact .none
    | some markers => exact .some (List.Perm.refl _)
  have ofChange : ∀ change : MarkerChange, marker ∈ (if change.existingMarkers ≠ [] then change.existingMarkers
          else if change.addedMarkers.getD [] ≠ [] then change.addedMarkers.getD []
          else change.removedMarkers.getD []) →
      ∃ change', RearrangedChange change change' ∧ ∃ rest, change'.union = marker :: rest := by
    intro change leads
    have first : ∀ later : List JsString, ∃ rest, (marker :: later).eraseDups = marker :: rest :=
      fun later => ⟨_, List.eraseDups_cons⟩
    split at leads
    · exact ⟨⟨marker :: change.existingMarkers.erase marker, change.addedMarkers, change.removedMarkers⟩,
        ⟨moved leads, kept _, kept _⟩, first _⟩
    · rename_i none
      have noExisting := not_not.mp none
      split at leads
      · cases added : change.addedMarkers with
        | none => rw [added] at leads; cases leads
        | some markers =>
          rw [added] at leads
          exact ⟨⟨[], some (marker :: markers.erase marker), change.removedMarkers⟩,
            ⟨by rw [noExisting], added ▸ .some (moved leads), kept _⟩, first _⟩
      · rename_i noneAdded
        have noAdded := not_not.mp noneAdded
        cases removed : change.removedMarkers with
        | none => rw [removed] at leads; cases leads
        | some markers =>
          rw [removed] at leads
          refine ⟨⟨[], change.addedMarkers, some (marker :: markers.erase marker)⟩,
            ⟨by rw [noExisting], kept _, removed ▸ .some (moved leads)⟩, ?_⟩
          simp only [MarkerChange.union, noAdded, List.nil_append, Option.getD_some]
          exact first _
  cases action with
  | dataCreate address markers => exact ⟨_, _, .dataCreate address (moved leads), rfl⟩
  | fileCreate file markers => exact ⟨_, _, .fileCreate file (moved leads), rfl⟩
  | dataUpdate address change =>
    obtain ⟨change', same, rest, first⟩ := ofChange change leads
    exact ⟨_, rest, .dataUpdate address same, first⟩
  | fileUpdate file change =>
    obtain ⟨change', same, rest, first⟩ := ofChange change leads
    exact ⟨_, rest, .fileUpdate file same, first⟩
  | eventUpdate eventName change =>
    obtain ⟨change', same, rest, first⟩ := ofChange change leads
    exact ⟨_, rest, .eventUpdate eventName same, first⟩
  | dataRead _ _ => cases write
  | dataDelete _ _ => cases write
  | fileRead _ _ => cases write
  | fileDelete _ _ => cases write
  | eventCount _ _ => cases write
  | eventIncrement _ _ => cases write

end Invariant

/-! ### Every order -/

/-- The role of the permission is good for all that the action requires. -/
def Works (store : PolicyStore) (testRegex : JsString → JsString → Bool) (context : AuthorizationContext)
    (action : Action) (permission : Permission) : Prop :=
  permission.role ≠ .named [] ∧ Required store testRegex context.recordName permission.role action

/-- Every permission of a leading marker that stops the search of a subject works. -/
def AllWork (store : PolicyStore) (testRegex : JsString → JsString → Bool)
    (context : AuthorizationContext) (request : AuthorizeRequest) : Prop :=
  ∀ subject ∈ subjects context request, ∀ marker ∈ request.action.leading,
    ∀ policy ∈ store.listPoliciesForMarker context.recordName marker, ∀ permission ∈ policy.permissions,
      passes (subjectContext store testRegex context subject.1 subject.2)
          (request.action.filter testRegex) permission ≠ some false →
        passes (subjectContext store testRegex context subject.1 subject.2)
            (request.action.filter testRegex) permission = some true ∧
          Works store testRegex context request.action permission

/-- The first permission that each subject meets works. -/
def FirstWork (store : PolicyStore) (testRegex : JsString → JsString → Bool)
    (context : AuthorizationContext) (request : AuthorizeRequest) : Prop :=
  ∀ subject ∈ subjects context request,
    LedBy (subjectContext store testRegex context subject.1 subject.2)
      (request.action.filter testRegex) request.action.markers
      (fun role => Required store testRegex context.recordName role request.action)

section Orders

variable {store store' : PolicyStore} {testRegex : JsString → JsString → Bool}
  {context : AuthorizationContext} {request request' : AuthorizeRequest}

theorem passes_rearranged (same : RearrangedStore store store')
    (testRegex : JsString → JsString → Bool) (context : AuthorizationContext)
    (subjectType : SubjectType) (id : Option JsString) (filter : PermissionFilter) :
    passes (subjectContext store' testRegex context subjectType id) filter =
      passes (subjectContext store testRegex context subjectType id) filter := by
  have roles : ∀ recordName, bySubjectRole store' subjectType recordName id =
      bySubjectRole store subjectType recordName id := by
    intro recordName
    have user : byUserRole store' = byUserRole store := by
      unfold byUserRole
      rw [same.userRoles]
    have inst : byInstRole store' = byInstRole store := by
      unfold byInstRole
      rw [same.instRoles]
    simp only [bySubjectRole, user, inst]
  simp only [passes, RolesContext.byCurrentRole, subjectContext, roles]

theorem subjects_rearranged (same : Rearranged store request store' request') :
    subjects context request' = subjects context request := by
  rw [subjects, subjects, same.userId, same.instances]

theorem admitted_rearranged (same : Rearranged store request store' request') :
    Admitted request' ↔ Admitted request := by
  have empty : request'.action.markers = [] ↔ request.action.markers = [] := by
    simp only [List.eq_nil_iff_forall_not_mem, mem_markers_rearranged same.action]
  rw [Admitted, Admitted, same.instances, turnedDown_rearranged same.action, ne_eq, ne_eq, empty]

theorem find_throws {filter : PermissionFilter} {permissions : List PossiblePermission}
    (thrown : findPermissionByFilter permissions filter = none) :
    ∃ permission ∈ permissions, filter permission.permission = none := by
  induction permissions with
  | nil => cases thrown
  | cons first rest ih =>
    rw [findPermissionByFilter] at thrown
    cases here : filter first.permission with
    | none => exact ⟨first, List.mem_cons_self, here⟩
    | some passed =>
      rw [here] at thrown
      cases passed with
      | true => cases thrown
      | false =>
        obtain ⟨permission, member, throws⟩ := ih thrown
        exact ⟨permission, List.mem_cons_of_mem _ member, throws⟩

theorem lead_append {c : RolesContext} {filter : PermissionFilter} {front : List JsString}
    (rest : List JsString) {found : PossiblePermission} (looked : lead c filter front = some (some found)) :
    lead c filter (front ++ rest) = some (some found) := by
  rw [lead] at looked
  rw [lead, List.flatMap_append, find_append, looked]

theorem required_leading (action : Action) (write : action.isWrite = true) (filled : action.markers ≠ [])
    {recordName : JsString} {role : PermissionRole}
    (required : Required store testRegex recordName role action) :
    ∃ marker ∈ action.leading, Grants store recordName (action.filter testRegex) role marker := by
  have ofChange : ∀ (filter : PermissionFilter) (change : MarkerChange), change.union ≠ [] →
      (change.existingMarkers ≠ [] → ∃ marker ∈ change.existingMarkers,
        Grants store recordName filter role marker) →
      (∀ marker, change.isAdded marker ∨ change.isRemoved marker → Grants store recordName filter role marker) →
      ∃ marker ∈ (if change.existingMarkers ≠ [] then change.existingMarkers
          else if change.addedMarkers.getD [] ≠ [] then change.addedMarkers.getD []
          else change.removedMarkers.getD []), Grants store recordName filter role marker := by
    intro filter change filled existing changed
    split
    · rename_i known
      exact existing known
    · rename_i none
      split
      · rename_i added
        obtain ⟨marker, member⟩ := List.exists_mem_of_ne_nil _ added
        exact ⟨marker, member, changed marker (.inl (decide_eq_true member))⟩
      · rename_i noneAdded
        have removed : change.removedMarkers.getD [] ≠ [] := by
          intro noneRemoved
          apply filled
          rw [MarkerChange.union, not_not.mp none, not_not.mp noneAdded, noneRemoved]
          rfl
        obtain ⟨marker, member⟩ := List.exists_mem_of_ne_nil _ removed
        exact ⟨marker, member, changed marker (.inr (decide_eq_true member))⟩
  cases action with
  | dataCreate address markers =>
    obtain ⟨marker, member⟩ := List.exists_mem_of_ne_nil _ filled
    exact ⟨marker, member, (required marker member).1⟩
  | fileCreate file markers =>
    obtain ⟨marker, member⟩ := List.exists_mem_of_ne_nil _ filled
    exact ⟨marker, member, (required marker member).1⟩
  | dataUpdate address change => exact ofChange _ change filled required.2.2 required.1
  | eventUpdate eventName change => exact ofChange _ change filled required.2.2 required.1
  | fileUpdate file change =>
    apply ofChange _ change filled
    · intro known
      obtain ⟨marker, member⟩ := List.exists_mem_of_ne_nil _ known
      exact ⟨marker, member, required.1 marker (.inl member)⟩
    · exact fun marker changed => required.1 marker (.inr changed)
  | dataRead _ _ => cases write
  | dataDelete _ _ => cases write
  | fileRead _ _ => cases write
  | fileDelete _ _ => cases write
  | eventCount _ _ => cases write
  | eventIncrement _ _ => cases write

/-- Where all that stops a subject works, it is enough that something does, in whatever order. -/
theorem led_iff (same : Rearranged store request store' request')
    (filled : request.action.markers ≠ []) (all : AllWork store testRegex context request)
    {subject : SubjectType × Option JsString} (listed : subject ∈ subjects context request) :
    LedBy (subjectContext store' testRegex context subject.1 subject.2)
        (request'.action.filter testRegex) request'.action.markers
        (fun role => Required store' testRegex context.recordName role request'.action) ↔
      ∃ marker ∈ request.action.leading, ∃ policy ∈ store.listPoliciesForMarker context.recordName marker,
          ∃ permission ∈ policy.permissions, passes (subjectContext store testRegex context subject.1 subject.2)
              (request.action.filter testRegex) permission ≠ some false := by
  have passing := passes_rearranged same.store testRegex context subject.1 subject.2 (request.action.filter testRegex)
  rw [filter_rearranged same.action]
  constructor
  · rintro ⟨found, led, _, required⟩
    have passed := lead_passes led
    rw [passing] at passed
    obtain ⟨marker, leads, policy, inside, permission, held, matched, role⟩ := required_leading
      request.action (isWrite_rearranged same.action).1 filled
      ((required_rearranged same.store same.action).mp required)
    refine ⟨marker, leads, policy, inside, permission, held, ?_⟩
    have current := (every_pair.mp passed).2
    rw [current_roleOnly _ _ _ role.symm] at current
    rw [passes, every_pair.mpr ⟨matched, current⟩]
    simp
  · rintro ⟨marker, leads, policy, inside, permission, held, stops⟩
    obtain ⟨front, rest, order, first⟩ := leading_first request'.action
    -- The permissions of the leading markers, in the other order.
    have known : ∀ found ∈ front.flatMap (fun marker =>
          (markerPermission store' context.recordName marker).permissions),
        passes (subjectContext store' testRegex context subject.1 subject.2)
            (request.action.filter testRegex) found.permission ≠ some false →
          passes (subjectContext store' testRegex context subject.1 subject.2)
              (request.action.filter testRegex) found.permission = some true ∧
            Works store testRegex context request.action found.permission := by
      intro found member stopped
      obtain ⟨marker, inFront, listed'⟩ := List.mem_flatMap.mp member
      obtain ⟨policy, inside, mapped⟩ := List.mem_flatMap.mp listed'
      obtain ⟨permission, held, equal⟩ := List.mem_map.mp mapped
      have leads := (leading_rearranged same.action).mem_iff.mpr ((first marker).mp inFront)
      obtain ⟨policy', inside', permission', held', role⟩ := (permission_mem_iff
        (same.store.policies context.recordName marker) (fun other => other = permission)).mpr
        ⟨policy, inside, permission, held, rfl⟩
      rw [passing] at stopped ⊢
      have works := all subject listed marker leads policy' inside' permission' held'
      rw [role] at works
      rw [← equal] at stopped ⊢
      exact works stopped
    obtain ⟨policy', inside', permission', held', stops'⟩ := (permission_mem_iff
      (same.store.policies context.recordName marker)
      (fun other => passes (subjectContext store testRegex context subject.1 subject.2)
        (request.action.filter testRegex) other ≠ some false)).mp ⟨policy, inside, permission, held, stops⟩
    have there : (⟨policy', permission'⟩ : PossiblePermission) ∈ front.flatMap (fun marker =>
        (markerPermission store' context.recordName marker).permissions) := by
      apply List.mem_flatMap.mpr
      refine ⟨marker, (first marker).mpr ((leading_rearranged same.action).mem_iff.mp leads), ?_⟩
      exact List.mem_flatMap.mpr ⟨policy', inside', List.mem_map.mpr ⟨permission', held', rfl⟩⟩
    rw [LedBy, order]
    cases looked : findPermissionByFilter (front.flatMap (fun marker =>
        (markerPermission store' context.recordName marker).permissions))
        (passes (subjectContext store' testRegex context subject.1 subject.2)
          (request.action.filter testRegex)) with
    | none =>
      obtain ⟨found, member, thrown⟩ := find_throws looked
      have works := (known found member (by rw [thrown]; simp)).1
      cases thrown.symm.trans works
    | some answer =>
      cases answer with
      | none =>
        have passed := find_none_iff.mp looked _ there
        rw [passing] at passed
        exact absurd passed stops'
      | some found =>
        obtain ⟨member, passed⟩ := find_sound looked
        have works := (known found member (by rw [passed]; simp)).2
        exact ⟨found, lead_append rest looked, works.1, (required_rearranged same.store same.action).mpr works.2⟩

theorem rearranged_refl (store : PolicyStore) (request : AuthorizeRequest)
    (write : request.action.isWrite = true) : Rearranged store request store request := by
  have kept : ∀ markers : Option (List JsString), SameMarkers markers markers := by
    intro markers
    cases markers with
    | none => exact .none
    | some markers => exact .some (List.Perm.refl _)
  have change : ∀ change, RearrangedChange change change :=
    fun change => ⟨List.Perm.refl _, kept _, kept _⟩
  refine ⟨⟨fun _ _ => sameDocuments_refl _, rfl, rfl⟩, ?_, rfl, rfl⟩
  cases same : request.action with
  | dataCreate address markers => exact .dataCreate address (List.Perm.refl _)
  | fileCreate file markers => exact .fileCreate file (List.Perm.refl _)
  | dataUpdate address c => exact .dataUpdate address (change c)
  | fileUpdate file c => exact .fileUpdate file (change c)
  | eventUpdate eventName c => exact .eventUpdate eventName (change c)
  | dataRead _ _ => rw [same] at write; cases write
  | dataDelete _ _ => rw [same] at write; cases write
  | fileRead _ _ => rw [same] at write; cases write
  | fileDelete _ _ => rw [same] at write; cases write
  | eventCount _ _ => rw [same] at write; cases write
  | eventIncrement _ _ => rw [same] at write; cases write

def withDocuments (store : PolicyStore) (recordName marker : JsString)
    (documents : List PolicyDocument) : PolicyStore :=
  { store with
    listPoliciesForMarker := fun name other =>
      if name = recordName ∧ other = marker then documents else store.listPoliciesForMarker name other }

theorem moved_first (context : AuthorizationContext) (write : request.action.isWrite = true) {marker : JsString}
    (leads : marker ∈ request.action.leading) {policy : PolicyDocument}
    (inside : policy ∈ store.listPoliciesForMarker context.recordName marker) {permission : Permission}
    (held : permission ∈ policy.permissions) :
    ∃ store' request', Rearranged store request store' request' ∧ ∃ found, found.permission = permission ∧ ∃ rest,
        request'.action.markers.flatMap (fun marker =>
          (markerPermission store' context.recordName marker).permissions) = found :: rest := by
  have ⟨action', rest, moved, markers⟩ := leading_moved write leads
  let first : PolicyDocument := ⟨permission :: policy.permissions.erase permission⟩
  let documents := first :: (store.listPoliciesForMarker context.recordName marker).erase policy
  have same : SameDocuments (store.listPoliciesForMarker context.recordName marker) documents :=
    ⟨_, List.perm_cons_erase inside, .cons (List.perm_cons_erase held)
      (List.forall₂_same.mpr (fun _ _ => List.Perm.refl _))⟩
  refine ⟨withDocuments store context.recordName marker documents, { request with action := action' },
    ⟨⟨fun name other => ?_, rfl, rfl⟩, moved, rfl, rfl⟩, ⟨first, permission⟩, rfl, ?_⟩
  · simp only [withDocuments]
    split
    · rename_i here
      exact here.1 ▸ here.2 ▸ same
    · exact sameDocuments_refl _
  · have listed : (withDocuments store context.recordName marker documents).listPoliciesForMarker
        context.recordName marker = documents := by simp [withDocuments]
    simp only [markers, List.flatMap_cons, markerPermission, listed]
    exact ⟨_, rfl⟩

end Orders

/-! ### A user with two roles -/

def twoRoles : MongoDBPolicyStore where
  policies recordName marker :=
    if recordName = lit ['r'] ∧ marker = lit ['m'] then
      some
        { document :=
            ⟨[.data .create (.named (lit ['x'])) .all,
              .policy .assign (.named (lit ['x'])) .all,
              .data .create (.named (lit ['y'])) .all,
              .policy .assign (.named (lit ['y'])) .all]⟩
          markers := [accountMarker] }
    else if recordName = lit ['r'] ∧ marker = lit ['n'] then
      some
        { document :=
            ⟨[.data .create (.named (lit ['y'])) .all,
              .policy .assign (.named (lit ['y'])) .all]⟩
          markers := [accountMarker] }
    else none
  roles recordName subject :=
    if recordName = lit ['r'] ∧ subject = .user (lit ['u']) then
      [⟨lit ['x'], none⟩, ⟨lit ['y'], none⟩]
    else []

def createRequest (markers : List JsString) : AuthorizeRequest where
  userId := some (lit ['u'])
  instances := none
  action := .dataCreate (lit ['a']) markers

theorem swapped_markers : Rearranged (readsAt twoRoles 0) (createRequest [lit ['m'], lit ['n']]) (readsAt twoRoles 0)
    (createRequest [lit ['n'], lit ['m']]) where
  store := ⟨fun _ _ => sameDocuments_refl _, rfl, rfl⟩
  action := .dataCreate _ (List.Perm.swap _ _ _)
  userId := rfl
  instances := rfl

end CasualOS.PolicyController
