import CasualOS.KeyCreation
import CasualOS.PolicyController

/-! What an allowed request tells about the policies and the roles of its subjects. -/

namespace CasualOS.PolicyController

open JsString (lit)
open KeyCreation (pairing)
open Option (some)

/-! ### What a subject may use -/

/-- A permission for the marker that passes the filter and is for the role. -/
def Grants (store : PolicyStore) (recordName : JsString) (filter : PermissionFilter)
    (role : PermissionRole) (marker : JsString) : Prop :=
  ∃ policy ∈ store.listPoliciesForMarker recordName marker, ∃ permission ∈ policy.permissions,
    filter permission = some true ∧ permission.role = role

/-- A permission to assign or unassign the marker, for the role or for everyone. -/
def GrantsPolicy (store : PolicyStore) (testRegex : JsString → JsString → Bool) (recordName : JsString)
    (action : PolicyAction) (role : PermissionRole) (marker : JsString) : Prop :=
  Grants store recordName (byPolicy testRegex action marker) .everyone marker ∨
    Grants store recordName (byPolicy testRegex action marker) role marker

def rolesOf (store : PolicyStore) (recordName : JsString) (subjectType : SubjectType) (id : JsString) :
    List AssignedRole :=
  match subjectType with
  | .user => store.listRolesForUser recordName id
  | .inst => store.listRolesForInst recordName id

/-- The roles that a subject may use: that of everyone, the admin role with a valid record key, any role
of the owner without a record key, and those that the store lists. -/
def MayUse (p : Platform) (records : MemoryRecordsStore) (key : JsString) (store : PolicyStore)
    (recordName : JsString) (subjectType : SubjectType) (id : Option JsString)
    (role : PermissionRole) : Prop :=
  role = .everyone ∨
    ((∃ valid, p.validatePublicRecordKey records key = .ok valid) ∧ role = adminRole) ∨
    (p.isRecordKey key = false ∧ subjectType = .user ∧
      ∃ owner, id = some owner ∧ validateRecordName records key = .ok owner) ∨
    ∃ known name, id = some known ∧ role = .named name ∧
      name ∈ (rolesOf store recordName subjectType known).map (fun assignment => assignment.role)

/-- What an action requires of a role. -/
def Required (store : PolicyStore) (testRegex : JsString → JsString → Bool) (recordName : JsString)
    (role : PermissionRole) : Action → Prop
  | .dataCreate address markers => ∀ marker ∈ markers,
      Grants store recordName (byData testRegex .create address) role marker ∧
        GrantsPolicy store testRegex recordName .assign role marker
  | .dataRead address markers =>
    ∃ marker ∈ markers, Grants store recordName (byData testRegex .read address) role marker
  | .dataUpdate address change =>
    RequiredOfChange store testRegex recordName role (byData testRegex .update address) change
  | .dataDelete address markers =>
    ∃ marker ∈ markers, Grants store recordName (byData testRegex .delete address) role marker
  | .fileCreate file markers => ∀ marker ∈ markers,
      Grants store recordName (byFile .create file) role marker ∧
        GrantsPolicy store testRegex recordName .assign role marker
  | .fileRead file markers =>
    ∃ marker ∈ markers, Grants store recordName (byFile .read file) role marker
  | .fileUpdate file change =>
    (∀ marker, marker ∈ change.existingMarkers ∨ change.isAdded marker ∨ change.isRemoved marker →
      Grants store recordName (byFile .update file) role marker) ∧
    ∀ marker action, change.assigns marker = some action →
      GrantsPolicy store testRegex recordName action role marker
  | .fileDelete file markers =>
    ∃ marker ∈ markers, Grants store recordName (byFile .delete file) role marker
  | .eventCount eventName markers =>
    ∃ marker ∈ markers, Grants store recordName (byEvent testRegex .count eventName) role marker
  | .eventIncrement eventName markers =>
    ∃ marker ∈ markers, Grants store recordName (byEvent testRegex .increment eventName) role marker
  | .eventUpdate eventName change =>
    RequiredOfChange store testRegex recordName role (byEvent testRegex .update eventName) change
where
  RequiredOfChange (store : PolicyStore) (testRegex : JsString → JsString → Bool) (recordName : JsString)
      (role : PermissionRole) (filter : PermissionFilter) (change : MarkerChange) : Prop :=
    (∀ marker, change.isAdded marker ∨ change.isRemoved marker →
      Grants store recordName filter role marker) ∧
    (∀ marker action, change.assigns marker = some action →
      GrantsPolicy store testRegex recordName action role marker) ∧
    (change.existingMarkers ≠ [] →
      ∃ marker ∈ change.existingMarkers, Grants store recordName filter role marker)

/-! ### Filters -/

section Filters

theorem find_sound {permissions : List PossiblePermission} {filter : PermissionFilter}
    {found : PossiblePermission} (looked : findPermissionByFilter permissions filter = some (some found)) :
    found ∈ permissions ∧ filter found.permission = some true := by
  induction permissions with
  | nil => cases looked
  | cons first rest ih =>
    rw [findPermissionByFilter] at looked
    split at looked
    · cases looked
    · rename_i passed
      have same : first = found := some.inj (some.inj looked)
      exact ⟨same ▸ List.mem_cons_self, same ▸ passed⟩
    · have ⟨member, passed⟩ := ih looked
      exact ⟨List.mem_cons_of_mem _ member, passed⟩

variable {permission : Permission}

theorem every_pair {first second : PermissionFilter} : everyFilter [first, second] permission = some true ↔
      first permission = some true ∧ second permission = some true := by
  constructor
  · intro passed
    rw [everyFilter] at passed
    split at passed
    · rename_i one
      rw [everyFilter] at passed
      split at passed
      · rename_i two
        exact ⟨one, two⟩
      · rename_i two
        exact absurd passed two
    · rename_i one
      exact absurd passed one
  · intro ⟨one, two⟩
    simp [everyFilter, one, two]

theorem some_cons {first : PermissionFilter} {rest : List PermissionFilter}
    (passed : someFilter (first :: rest) permission = some true) :
    first permission = some true ∨ someFilter rest permission = some true := by
  rw [someFilter] at passed
  split at passed
  · exact .inr passed
  · exact .inl passed

theorem byRole_true {role : PermissionRole} : byRole role permission = some true ↔ permission.role = role := by
  simp [byRole]

end Filters

/-! ### One subject -/

section Subject

variable {c : RolesContext} {type : PermissionType} {filter : PermissionFilter}

/-- The permissions of a marker, as the deciding functions get them. -/
def markerPermission (store : PolicyStore) (recordName marker : JsString) : MarkerPermission where
  marker := marker
  permissions := (store.listPoliciesForMarker recordName marker).flatMap (fun policy =>
    policy.permissions.map (fun permission => ⟨policy, permission⟩))

@[simp] theorem markerPermission_marker (store : PolicyStore) (recordName marker : JsString) :
    (markerPermission store recordName marker).marker = marker := rfl

theorem listPermissions_cons (store : PolicyStore) (recordName marker : JsString) (rest : List JsString) :
    listPermissionsForMarkers store recordName (marker :: rest) =
      markerPermission store recordName marker :: listPermissionsForMarkers store recordName rest := rfl

variable {marker : JsString} {found : PossiblePermission} {Use : PermissionRole → Prop}

theorem grants_of_mem {store : PolicyStore} {recordName : JsString}
    (member : found ∈ (markerPermission store recordName marker).permissions)
    (passed : filter found.permission = some true) :
    Grants store recordName filter found.permission.role marker := by
  have ⟨policy, listed, inside⟩ := List.mem_flatMap.mp member
  have ⟨permission, held, same⟩ := List.mem_map.mp inside
  rw [← same] at passed ⊢
  exact ⟨policy, listed, permission, held, passed, rfl⟩

theorem findAction_sound {role : Option PermissionRole}
    (looked : c.findAction filter role (markerPermission c.store c.recordName marker) = some (some found)) :
    Grants c.store c.recordName filter found.permission.role marker ∧
      c.byCurrentRole role found.permission = some true := by
  have ⟨member, passed⟩ := find_sound looked
  have ⟨action, current⟩ := every_pair.mp passed
  exact ⟨grants_of_mem member action, current⟩

theorem findPolicy_sound {action : PolicyAction} {role : PermissionRole}
    (looked : c.findPolicy action role (markerPermission c.store c.recordName marker) =
      some (some found)) : GrantsPolicy c.store c.testRegex c.recordName action role marker := by
  have ⟨member, passed⟩ := find_sound looked
  have ⟨policy, roles⟩ := every_pair.mp passed
  have granted := grants_of_mem member policy
  cases some_cons roles with
  | inl everyone => exact .inl (byRole_true.mp everyone ▸ granted)
  | inr later =>
    cases some_cons later with
    | inl same => exact .inr (byRole_true.mp same ▸ granted)
    | inr none => cases none

theorem role_of_found (usable : ∀ permission, c.byCurrentRole none permission = some true → Use permission.role)
    {role : Option PermissionRole} (used : ∀ r, role = some r → Use r) {permission : Permission}
    (passed : c.byCurrentRole role permission = some true) :
    role.getD permission.role = permission.role ∧ Use permission.role := by
  cases role with
  | none => exact ⟨rfl, usable permission passed⟩
  | some r =>
    have same := byRole_true.mp passed
    exact ⟨same.symm, same ▸ used r rfl⟩

theorem authorizeEvery_sound (usable : ∀ permission, c.byCurrentRole none permission = some true → Use permission.role)
    (assigns : JsString → Option PolicyAction) (markers : List JsString) (filled : markers ≠ [])
    (role : Option PermissionRole) (authorizations : List MarkerAuthorization)
    (result : GenericAuthorization) (used : ∀ r, role = some r → Use r)
    (answered : authorizeEvery c type filter assigns role authorizations
      (listPermissionsForMarkers c.store c.recordName markers) = some (.ok result)) :
    ∃ r, Use r ∧ (∀ r', role = some r' → r' = r) ∧ ∀ marker ∈ markers, Grants c.store c.recordName filter r marker ∧
        ∀ action, assigns marker = some action → GrantsPolicy c.store c.testRegex c.recordName action r marker := by
  induction markers generalizing role authorizations with
  | nil => exact absurd rfl filled
  | cons marker rest ih =>
    rw [listPermissions_cons, authorizeEvery] at answered
    split at answered
    · cases answered
    · cases answered
    · rename_i found looked
      have ⟨granted, current⟩ := findAction_sound looked
      have ⟨same, use⟩ := role_of_found usable used current
      rw [same] at answered
      -- The first marker is settled: what is left is asked of the rest with the same role.
      have settled : ∀ authorizations', (authorizeEvery c type filter assigns
            (some found.permission.role) authorizations'
            (listPermissionsForMarkers c.store c.recordName rest) = some (.ok result)) →
          (∀ action, assigns marker = some action →
            GrantsPolicy c.store c.testRegex c.recordName action found.permission.role marker) →
          ∃ r, Use r ∧ (∀ r', role = some r' → r' = r) ∧ ∀ m ∈ marker :: rest, Grants c.store c.recordName filter r m ∧
              ∀ action, assigns m = some action → GrantsPolicy c.store c.testRegex c.recordName action r m := by
        intro authorizations' later assigned
        have fixed : ∀ r', role = some r' → r' = found.permission.role := by
          intro r' held
          rw [held] at same
          exact same
        refine ⟨found.permission.role, use, fixed, fun m member => ?_⟩
        rcases List.mem_cons.mp member with here | inside
        · exact here ▸ ⟨granted, assigned⟩
        · have ⟨r, _, equal, all⟩ := ih (List.ne_nil_of_mem inside) _ _ (fun r held => some.inj held ▸ use) later
          exact equal _ rfl ▸ all m inside
      split at answered
      · rename_i nothing
        apply settled _ answered
        intro action asked
        cases asked.symm.trans nothing
      · rename_i policy asked
        split at answered
        · cases answered
        · cases answered
        · rename_i granting lookedPolicy
          apply settled _ answered
          intro action asked'
          rw [← some.inj (asked.symm.trans asked')]
          exact findPolicy_sound lookedPolicy

theorem authorizeAny_sound (usable : ∀ permission, c.byCurrentRole none permission = some true → Use permission.role)
    (markers : List JsString) (denialReason : Option DenialReason) (result : GenericAuthorization)
    (answered : authorizeAny c type filter denialReason
      (listPermissionsForMarkers c.store c.recordName markers) = some (.ok result)) :
    ∃ r, Use r ∧ ∃ marker ∈ markers, Grants c.store c.recordName filter r marker := by
  induction markers generalizing denialReason with
  | nil => cases answered
  | cons marker rest ih =>
    rw [listPermissions_cons, authorizeAny] at answered
    split at answered
    · cases answered
    · have ⟨r, use, m, member, granted⟩ := ih _ answered
      exact ⟨r, use, m, List.mem_cons_of_mem _ member, granted⟩
    · rename_i found looked
      have ⟨granted, current⟩ := findAction_sound looked
      exact ⟨found.permission.role, usable _ current, marker, List.mem_cons_self, granted⟩

theorem mem_union (change : MarkerChange) (marker : JsString) : marker ∈ change.union ↔
      marker ∈ change.existingMarkers ∨ change.isAdded marker ∨ change.isRemoved marker := by
  simp [MarkerChange.union, MarkerChange.isAdded, MarkerChange.isRemoved]

theorem mem_union_of_assigns {change : MarkerChange} {action : PolicyAction}
    (asked : change.assigns marker = some action) : marker ∈ change.union := by
  apply (mem_union change marker).mpr
  rw [MarkerChange.assigns] at asked
  split at asked
  · rename_i added
    exact .inr (.inl added)
  · split at asked
    · rename_i removed
      exact .inr (.inr removed)
    · cases asked

theorem authorizeChange_sound (usable : ∀ permission, c.byCurrentRole none permission = some true → Use permission.role)
    (change : MarkerChange) (markers : List JsString) (role : Option PermissionRole) (existing : Bool)
    (denialReason : Option DenialReason) (authorizations : List MarkerAuthorization)
    (result : GenericAuthorization) (used : ∀ r, role = some r → Use r)
    (answered : authorizeChange c type filter change role existing denialReason authorizations
      (listPermissionsForMarkers c.store c.recordName markers) = some (.ok result)) :
    ∃ r, Use r ∧ (∀ r', role = some r' → r' = r) ∧
      (∀ marker ∈ markers, change.isAdded marker ∨ change.isRemoved marker →
        Grants c.store c.recordName filter r marker) ∧
      (∀ marker ∈ markers, ∀ action, change.assigns marker = some action →
        GrantsPolicy c.store c.testRegex c.recordName action r marker) ∧
      (existing = true ∨ denialReason = none ∧ (∀ marker ∈ markers, marker ∉ change.existingMarkers) ∨
        ∃ marker ∈ markers, marker ∈ change.existingMarkers ∧ Grants c.store c.recordName filter r marker) := by
  induction markers generalizing role existing denialReason authorizations with
  | nil =>
    have ended : withRole role authorizations = .ok result ∧ (existing = true ∨ denialReason = none) := by
      cases existing with
      | true =>
        have same : authorizeChange c type filter change role true denialReason authorizations [] =
            some (withRole role authorizations) := by cases denialReason <;> rfl
        exact ⟨some.inj (same.symm.trans answered), .inl rfl⟩
      | false =>
        cases denialReason with
        | some reason => cases answered
        | none => exact ⟨some.inj answered, .inr rfl⟩
    cases role with
    | none =>
      have failed : Except.error DenialReason.missingRole = .ok result := ended.1
      cases failed
    | some r =>
      refine ⟨r, used r rfl, fun r' held => (some.inj held).symm, ?_, ?_, ?_⟩
      · intro marker member
        cases member
      · intro marker member
        cases member
      · exact ended.2.imp id (fun none => .inl ⟨none, fun marker member => by cases member⟩)
  | cons marker rest ih =>
    rw [listPermissions_cons, authorizeChange] at answered
    split at answered
    · cases answered
    · -- No permission from this marker: it is neither added nor removed, and the reason is kept.
      split at answered
      · cases answered
      · rename_i unchanged
        have ⟨r, use, fixed, all, assigned, one⟩ := ih role existing _ authorizations used answered
        refine ⟨r, use, fixed, ?_, ?_, ?_⟩
        · intro m member changed
          rcases List.mem_cons.mp member with here | inside
          · exact absurd (here ▸ changed) unchanged
          · exact all m inside changed
        · intro m member action asked
          rcases List.mem_cons.mp member with here | inside
          · have free : change.assigns marker = none := by
              have ⟨notAdded, notRemoved⟩ : ¬ change.isAdded marker ∧ ¬ change.isRemoved marker :=
                not_or.mp unchanged
              rw [MarkerChange.assigns, if_neg notAdded, if_neg notRemoved]
            rw [here, free] at asked
            cases asked
          · exact assigned m inside action asked
        · rcases one with was | none | ⟨m, inside, known, granted⟩
          · exact .inl was
          · cases none.1
          · exact .inr (.inr ⟨m, List.mem_cons_of_mem _ inside, known, granted⟩)
    · rename_i found looked
      have ⟨granted, current⟩ := findAction_sound looked
      have ⟨same, use⟩ := role_of_found usable used current
      rw [same] at answered
      have settled : ∀ authorizations', (authorizeChange c type filter change
            (some found.permission.role) (existing || decide (marker ∈ change.existingMarkers))
            denialReason authorizations' (listPermissionsForMarkers c.store c.recordName rest) =
              some (.ok result)) →
          (∀ action, change.assigns marker = some action →
            GrantsPolicy c.store c.testRegex c.recordName action found.permission.role marker) →
          ∃ r, Use r ∧ (∀ r', role = some r' → r' = r) ∧ (∀ m ∈ marker :: rest, change.isAdded m ∨ change.isRemoved m →
              Grants c.store c.recordName filter r m) ∧
            (∀ m ∈ marker :: rest, ∀ action, change.assigns m = some action →
              GrantsPolicy c.store c.testRegex c.recordName action r m) ∧
            (existing = true ∨
              denialReason = none ∧ (∀ m ∈ marker :: rest, m ∉ change.existingMarkers) ∨
              ∃ m ∈ marker :: rest, m ∈ change.existingMarkers ∧ Grants c.store c.recordName filter r m) := by
        intro authorizations' later assigned
        have ⟨r, _, equal, all, policies, one⟩ := ih (some found.permission.role) _ denialReason
          authorizations' (fun r held => some.inj held ▸ use) later
        have roles := equal _ rfl
        subst roles
        refine ⟨found.permission.role, use, ?_, ?_, ?_, ?_⟩
        · intro r' held
          rw [held] at same
          exact same
        · intro m member changed
          rcases List.mem_cons.mp member with here | inside
          · exact here ▸ granted
          · exact all m inside changed
        · intro m member
          rcases List.mem_cons.mp member with here | inside
          · exact here ▸ assigned
          · exact policies m inside
        · by_cases known : marker ∈ change.existingMarkers
          · exact .inr (.inr ⟨marker, List.mem_cons_self, known, granted⟩)
          · rcases one with was | none | ⟨m, inside, old, grantedLater⟩
            · exact .inl (by simpa [known] using was)
            · refine .inr (.inl ⟨none.1, fun m member => ?_⟩)
              rcases List.mem_cons.mp member with here | inside
              · exact here ▸ known
              · exact none.2 m inside
            · exact .inr (.inr ⟨m, List.mem_cons_of_mem _ inside, old, grantedLater⟩)
      split at answered
      · rename_i nothing
        apply settled _ answered
        intro action asked
        cases asked.symm.trans nothing
      · rename_i policy asked
        split at answered
        · cases answered
        · cases answered
        · rename_i granting lookedPolicy
          apply settled _ answered
          intro action asked'
          rw [← some.inj (asked.symm.trans asked')]
          exact findPolicy_sound lookedPolicy

theorem action_sound (usable : ∀ permission, c.byCurrentRole none permission = some true → Use permission.role)
    (action : Action) (filled : action.markers ≠ []) (result : GenericAuthorization)
    (answered : action.authorize c (listPermissionsForMarkers c.store c.recordName action.markers) =
      some (.ok result)) : ∃ role, Use role ∧ Required c.store c.testRegex c.recordName role action := by
  have anything : ∀ r, (none : Option PermissionRole) = some r → Use r := fun r held => by cases held
  have ofChange : ∀ type filter change, authorizeChange c type filter change none false none []
        (listPermissionsForMarkers c.store c.recordName change.union) = some (.ok result) →
      ∃ role, Use role ∧ Required.RequiredOfChange c.store c.testRegex c.recordName role filter change := by
    intro type filter change answered
    obtain ⟨r, use, _, all, policies, one⟩ := authorizeChange_sound usable change change.union none false
      none [] result anything answered
    refine ⟨r, use, fun m changed => ?_, fun m asked policy => ?_, fun known => ?_⟩
    · exact all m ((mem_union change m).mpr (.inr changed)) changed
    · exact policies m (mem_union_of_assigns policy) asked policy
    · rcases one with was | none | ⟨m, _, old, granted⟩
      · cases was
      · obtain ⟨m, member⟩ := List.exists_mem_of_ne_nil _ known
        exact absurd member (none.2 m ((mem_union change m).mpr (.inl member)))
      · exact ⟨m, old, granted⟩
  cases action with
  | dataCreate address markers =>
    obtain ⟨r, use, _, all⟩ :=
      authorizeEvery_sound usable _ markers filled none [] result anything answered
    exact ⟨r, use, fun m member => ⟨(all m member).1, (all m member).2 _ rfl⟩⟩
  | fileCreate file markers =>
    obtain ⟨r, use, _, all⟩ :=
      authorizeEvery_sound usable _ markers filled none [] result anything answered
    exact ⟨r, use, fun m member => ⟨(all m member).1, (all m member).2 _ rfl⟩⟩
  | fileUpdate file change =>
    simp only [Action.authorize, authorizeFileUpdate, Action.markers] at answered
    split at answered
    · cases answered
    · split at answered
      · cases answered
      · obtain ⟨r, use, _, all⟩ :=
          authorizeEvery_sound usable _ change.union filled none [] result anything answered
        refine ⟨r, use, fun m member => (all m ((mem_union change m).mpr member)).1,
          fun m asked policy => ?_⟩
        exact (all m (mem_union_of_assigns policy)).2 asked policy
  | dataUpdate address change => exact ofChange _ _ change answered
  | eventUpdate eventName change => exact ofChange _ _ change answered
  | dataRead address markers => exact authorizeAny_sound usable markers none result answered
  | dataDelete address markers => exact authorizeAny_sound usable markers none result answered
  | fileRead file markers => exact authorizeAny_sound usable markers none result answered
  | fileDelete file markers => exact authorizeAny_sound usable markers none result answered
  | eventCount eventName markers => exact authorizeAny_sound usable markers none result answered
  | eventIncrement eventName markers => exact authorizeAny_sound usable markers none result answered

end Subject

/-! ### A request -/

section Request

variable {p : Platform} {records : MemoryRecordsStore} {key : JsString} {context : AuthorizationContext}
  {store : PolicyStore} {testRegex : JsString → JsString → Bool} {request : AuthorizeRequest}

theorem context_built (built : constructAuthorizationContext p records key = .ok context) :
    (∃ result, p.validatePublicRecordKey records key = .ok result ∧ context.recordKeyResult = some result) ∨
    (p.isRecordKey key = false ∧ context.recordKeyResult = none ∧
      validateRecordName records key = .ok context.recordOwnerId) := by
  unfold constructAuthorizationContext at built
  split at built
  · split at built
    · cases built
    · rename_i result valid
      have same := Except.ok.inj built
      exact .inl ⟨result, valid, same ▸ rfl⟩
  · rename_i notKey
    split at built
    · cases built
    · rename_i ownerId named
      have same := Except.ok.inj built
      refine .inr ⟨by simpa using notKey, same ▸ rfl, ?_⟩
      rw [named, ← same]

theorem current_usable (built : constructAuthorizationContext p records key = .ok context)
    (subjectType : SubjectType) (id : Option JsString) (permission : Permission)
    (passed : (subjectContext store testRegex context subjectType id).byCurrentRole none permission =
      some true) : MayUse p records key store context.recordName subjectType id permission.role := by
  rcases some_cons passed with everyone | later
  · exact .inl (byRole_true.mp everyone)
  · rcases some_cons later with admin | last
    · change byAdminRole context subjectType id permission = some true at admin
      unfold byAdminRole at admin
      rcases context_built built with ⟨result, valid, found⟩ | ⟨notKey, noResult, owner⟩
      · rw [if_pos (by rw [found]; rfl)] at admin
        exact .inr (.inl ⟨⟨result, valid⟩, byRole_true.mp admin⟩)
      · rw [if_neg (by rw [noResult]; simp)] at admin
        have owns := of_decide_eq_true (some.inj admin)
        exact .inr (.inr (.inl ⟨notKey, owns.1, _, owns.2, owner⟩))
    · rcases some_cons last with subject | none
      · change bySubjectRole store subjectType context.recordName id permission = some true at subject
        unfold bySubjectRole at subject
        by_cases known : idText id = []
        · rw [if_pos known] at subject
          cases subject
        · rw [if_neg known] at subject
          have given : id = some (idText id) := by
            cases id with
            | none => exact absurd rfl known
            | some text => rfl
          have assigned : roleAssigned (rolesOf store context.recordName subjectType (idText id))
              permission.role = true := by
            cases subjectType with
            | user => exact some.inj subject
            | inst =>
              simp only [byInstRole] at subject
              split at subject
              · cases subject
              · exact some.inj subject
          cases role : permission.role with
          | everyone => exact .inl rfl
          | named name =>
            rw [role] at assigned
            exact .inr (.inr (.inr ⟨_, name, given, rfl, of_decide_eq_true assigned⟩))
      · cases none

theorem instances_iff {authorize : JsString → Option GenericResult} (valid : Bool) (insts : List JsString) :
    (∃ result, authorizeInstances valid authorize insts = some (.ok result)) ↔
      valid = true ∨ ∀ inst ∈ insts, ∃ authorization, authorize inst = some (.ok authorization) := by
  induction insts with
  | nil => exact iff_of_true ⟨[], rfl⟩ (.inr (fun inst member => by cases member))
  | cons first rest ih =>
    rw [authorizeInstances]
    cases valid with
    | true =>
      have ⟨later, ran⟩ := ih.mpr (.inl rfl)
      simp [ran, Except.map]
    | false =>
      simp only [Bool.false_eq_true, if_false, false_or, List.forall_mem_cons] at ih ⊢
      cases decided : authorize first with
      | none => simp
      | some answer =>
        cases answer with
        | error reason => simp
        | ok authorization =>
          simp only [some.injEq, Except.ok.injEq, exists_eq', true_and, ← ih]
          cases authorizeInstances false authorize rest with
          | none => simp
          | some later =>
            cases later with
            | error reason => simp [Except.map]
            | ok others => simp [Except.map]

theorem requestFor_iff {markers : List JsString}
    {authorize : RolesContext → List MarkerPermission → Option GenericResult} :
    (∃ answer, authorizeRequestFor store testRegex context request markers authorize = some (.ok answer)) ↔
      (request.instances.getD []).length ≤ maxAllowedInstances ∧ markers ≠ [] ∧
      (∃ result, authorize (subjectContext store testRegex context .user request.userId)
        (listPermissionsForMarkers store context.recordName markers) = some (.ok result)) ∧
      (context.recordKeyResult.isSome = true ∨ ∀ inst ∈ request.instances.getD [], ∃ result,
        authorize (subjectContext store testRegex context .inst (some inst))
          (listPermissionsForMarkers store context.recordName markers) = some (.ok result)) := by
  rw [authorizeRequestFor]
  by_cases many : maxAllowedInstances < (request.instances.getD []).length
  · rw [if_pos many]
    exact iff_of_false (fun ⟨result, failed⟩ => by cases failed) (fun all => absurd all.1 (by omega))
  · rw [if_neg many]
    by_cases filled : markers = []
    · rw [if_pos filled]
      exact iff_of_false (fun ⟨result, failed⟩ => by cases failed) (fun all => all.2.1 filled)
    · rw [if_neg filled, ← instances_iff]
      have few : (request.instances.getD []).length ≤ maxAllowedInstances := Nat.le_of_not_lt many
      simp only [few, filled, ne_eq, not_false_eq_true, true_and]
      cases authorize (subjectContext store testRegex context .user request.userId)
          (listPermissionsForMarkers store context.recordName markers) with
      | none => simp
      | some user =>
        cases user with
        | error reason =>
          refine iff_of_false (fun ⟨result, failed⟩ => ?_) (fun ⟨⟨_, failed⟩, _⟩ => by cases failed)
          simp only at failed
          split at failed
          · cases failed
          · cases failed
        | ok subject =>
          simp only [some.injEq, Except.ok.injEq, exists_eq', true_and]
          cases authorizeInstances context.recordKeyResult.isSome
              (fun inst => authorize (subjectContext store testRegex context .inst (some inst))
                (listPermissionsForMarkers store context.recordName markers))
              (request.instances.getD []) with
          | none => simp
          | some insts => cases insts <;> simp

end Request

/-- Who is allowed to do something has what it takes: one role that the user may use, and one for each
instance, grants all that the action requires. -/
theorem authorization_sound (p : Platform) (records : MemoryRecordsStore) (key : JsString)
    (context : AuthorizationContext)
    (built : constructAuthorizationContext p records key = .ok context) (store : PolicyStore)
    (testRegex : JsString → JsString → Bool) (request : AuthorizeRequest) (answer : AuthorizeAllowed)
    (allowed : authorizeRequestUsingContext store testRegex context request = .ok answer) :
    (request.instances.getD []).length ≤ 2 ∧
    (∃ role, MayUse p records key store context.recordName .user request.userId role ∧
      Required store testRegex context.recordName role request.action) ∧
    ((∃ valid, p.validatePublicRecordKey records key = .ok valid) ∨
      ∀ inst ∈ request.instances.getD [], ∃ role,
        MayUse p records key store context.recordName .inst (some inst) role ∧
        Required store testRegex context.recordName role request.action) := by
  rw [authorizeRequestUsingContext, authorizeAction_eq] at allowed
  split at allowed
  · cases allowed
  · cases decided : authorizeRequestFor store testRegex context request request.action.markers
        request.action.authorize with
    | none => rw [decided] at allowed; cases allowed
    | some result =>
      rw [decided] at allowed
      have same : result = .ok answer := allowed
      rw [same] at decided
      have ⟨few, filled, ⟨subject, user⟩, insts⟩ := requestFor_iff.mp ⟨answer, decided⟩
      refine ⟨few, action_sound (current_usable built .user request.userId) request.action filled
        subject user, ?_⟩
      rcases context_built built with ⟨valid, good, _⟩ | ⟨_, noResult, _⟩
      · exact .inl ⟨valid, good⟩
      · refine .inr (fun inst member => ?_)
        have ⟨result, ok⟩ := (insts.resolve_left (by rw [noResult]; simp)) inst member
        exact action_sound (current_usable built .inst (some inst)) request.action filled result ok

/-! ### A marker that is added and removed -/

def sharedRecords : MemoryRecordsStore where
  records := [⟨lit ['r'], lit ['o'], [], lit ['s']⟩]
  recordKeys := []

def sharedPolicies : MongoDBPolicyStore where
  policies recordName marker :=
    if recordName = lit ['r'] ∧ marker = lit ['m'] then
      some
        { document :=
            ⟨[.file .update (.named (lit ['x'])) none none,
              .policy .assign (.named (lit ['x'])) .all]⟩
          markers := [accountMarker] }
    else none
  roles recordName subject :=
    if recordName = lit ['r'] ∧ subject = .user (lit ['u']) then
      [⟨lit ['x'], none⟩]
    else []

def sharedContext : AuthorizationContext where
  recordKeyResult := none
  recordKeyProvided := false
  recordName := lit ['r']
  recordOwnerId := lit ['o']
  subjectPolicy := subjectfull

/-- The marker `m` is added and removed at once. -/
def swapRequest : AuthorizeRequest where
  userId := some (lit ['u'])
  instances := none
  action := .fileUpdate ⟨1, some (lit ['t'])⟩
    ⟨[lit ['m']], some [lit ['m']], some [lit ['m']]⟩

theorem sharedContext_built : constructAuthorizationContext pairing sharedRecords (lit ['r']) = .ok sharedContext := rfl

theorem swap_allowed : ∃ answer, authorizeRequestUsingContext (readsAt sharedPolicies 0) (fun _ _ => false)
    sharedContext swapRequest = .ok answer := ⟨_, rfl⟩

theorem swap_sound : ∃ role, MayUse pairing sharedRecords (lit ['r'])
      (readsAt sharedPolicies 0) (lit ['r']) .user (some (lit ['u'])) role ∧
    Required (readsAt sharedPolicies 0) (fun _ _ => false) (lit ['r']) role
      swapRequest.action := by
  have ⟨answer, allowed⟩ := swap_allowed
  exact (authorization_sound pairing sharedRecords (lit ['r']) sharedContext
    sharedContext_built (readsAt sharedPolicies 0) (fun _ _ => false) swapRequest answer allowed).2.1

/-- Nothing that the user may use lets it unassign the marker, which it may remove by adding it too. -/
theorem removed_without_unassign :
    constructAuthorizationContext pairing sharedRecords (lit ['r']) =
        .ok sharedContext ∧
      (∃ answer, authorizeRequestUsingContext (readsAt sharedPolicies 0) (fun _ _ => false) sharedContext
        swapRequest = .ok answer) ∧
      (∃ file change, swapRequest.action = .fileUpdate file change ∧
        change.isRemoved (lit ['m']) = true) ∧
      ¬ ∃ role, MayUse pairing sharedRecords (lit ['r'])
          (readsAt sharedPolicies 0) (lit ['r']) .user (some (lit ['u'])) role ∧
        GrantsPolicy (readsAt sharedPolicies 0) (fun _ _ => false) (lit ['r']) .unassign role
          (lit ['m']) := by
  refine ⟨sharedContext_built, swap_allowed, ⟨_, _, rfl, rfl⟩, ?_⟩
  intro ⟨role, use, granted⟩
  have admins : ∀ policy ∈ (readsAt sharedPolicies 0).listPoliciesForMarker (lit ['r'])
      (lit ['m']), ∀ permission ∈ policy.permissions,
      byPolicy (fun _ _ => false) .unassign (lit ['m']) permission = some true →
        permission.role = adminRole := by decide
  have admin : ∀ r, Grants (readsAt sharedPolicies 0) (lit ['r'])
      (byPolicy (fun _ _ => false) .unassign (lit ['m'])) r (lit ['m']) →
      r = adminRole := by
    intro r ⟨policy, inside, permission, held, passed, same⟩
    exact same.symm.trans (admins policy inside permission held passed)
  have isAdmin : role = adminRole := by
    rcases granted with everyone | same
    · cases admin _ everyone
    · exact admin _ same
  rw [isAdmin] at use
  rcases use with everyone | ⟨⟨valid, good⟩, _⟩ | ⟨_, _, owner, known, named⟩ | ⟨known, name, given, same, held⟩
  · cases everyone
  · cases good
  · rw [← Option.some.inj known] at named
    exact absurd named (by decide)
  · rw [← Option.some.inj given] at held
    rw [← PermissionRole.named.inj same] at held
    exact absurd held (by decide)

end CasualOS.PolicyController
