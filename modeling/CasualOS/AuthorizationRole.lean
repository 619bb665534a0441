import CasualOS.AuthorizationSound

/-! A write is decided by the first permission that each of its subjects meets. -/

namespace CasualOS.PolicyController

open List (forall_mem_cons mem_cons_self mem_map)
open Option (some)

/-! ### What a search finds -/

/-- The filter never throws. -/
def Sure (filter : PermissionFilter) : Prop := ∀ permission, filter permission ≠ none

section Searches

variable {filter : PermissionFilter} {permissions : List PossiblePermission}

theorem find_append (first second : List PossiblePermission) : findPermissionByFilter (first ++ second) filter =
      match findPermissionByFilter first filter with
      | some none => findPermissionByFilter second filter
      | other => other := by
  induction first with
  | nil => rfl
  | cons permission rest ih =>
    rw [List.cons_append, findPermissionByFilter, findPermissionByFilter]
    cases filter permission.permission with
    | none => rfl
    | some passed =>
      cases passed with
      | true => rfl
      | false => exact ih

theorem find_none_iff : findPermissionByFilter permissions filter = some none ↔
    ∀ permission ∈ permissions, filter permission.permission = some false := by
  induction permissions with
  | nil => exact iff_of_true rfl (fun permission member => by cases member)
  | cons first rest ih =>
    rw [findPermissionByFilter]
    cases same : filter first.permission with
    | none =>
      refine iff_of_false (by simp) (fun all => ?_)
      cases same.symm.trans (all first mem_cons_self)
    | some passed =>
      cases passed with
      | true =>
        refine iff_of_false (by simp) (fun all => ?_)
        cases same.symm.trans (all first mem_cons_self)
      | false =>
        simp only [forall_mem_cons, same, true_and]
        exact ih

theorem find_sure (sure : Sure filter) :
    (∃ found ∈ permissions, findPermissionByFilter permissions filter = some (some found) ∧
      filter found.permission = some true) ∨
    (findPermissionByFilter permissions filter = some none ∧
      ∀ permission ∈ permissions, filter permission.permission ≠ some true) := by
  induction permissions with
  | nil => exact .inr ⟨rfl, fun permission member => by cases member⟩
  | cons first rest ih =>
    rw [findPermissionByFilter]
    cases same : filter first.permission with
    | none => exact absurd same (sure first.permission)
    | some passed =>
      cases passed with
      | true => exact .inl ⟨first, mem_cons_self, rfl, same⟩
      | false =>
        rcases ih with ⟨found, member, looked, passes⟩ | ⟨looked, others⟩
        · exact .inl ⟨found, List.mem_cons_of_mem _ member, looked, passes⟩
        · refine .inr ⟨looked, forall_mem_cons.mpr ⟨?_, others⟩⟩
          rw [same]
          simp

theorem every_sure {first second : PermissionFilter} (one : Sure first) (two : Sure second) :
    Sure (everyFilter [first, second]) := by
  intro permission
  cases same : first permission with
  | none => exact absurd same (one permission)
  | some passed =>
    cases passed with
    | false => simp [everyFilter, same]
    | true =>
      cases same' : second permission with
      | none => exact absurd same' (two permission)
      | some passed' => cases passed' <;> simp [everyFilter, same, same']

theorem byRole_sure (role : PermissionRole) : Sure (byRole role) := fun _ none => by cases none

theorem byPolicy_sure (testRegex : JsString → JsString → Bool) (action : PolicyAction)
    (marker : JsString) : Sure (byPolicy testRegex action marker) := by
  intro permission none
  cases permission <;> cases none

end Searches

/-! ### One subject -/

section Subject

variable {c : RolesContext} {type : PermissionType} {filter : PermissionFilter}

theorem grants_iff {store : PolicyStore} {recordName marker : JsString} {role : PermissionRole} :
    Grants store recordName filter role marker ↔
      ∃ found ∈ (markerPermission store recordName marker).permissions,
        filter found.permission = some true ∧ found.permission.role = role := by
  constructor
  · intro ⟨policy, listed, permission, held, passed, same⟩
    refine ⟨⟨policy, permission⟩, ?_, passed, same⟩
    exact List.mem_flatMap.mpr ⟨policy, listed, mem_map.mpr ⟨permission, held, rfl⟩⟩
  · intro ⟨found, member, passed, same⟩
    exact same ▸ grants_of_mem member passed

theorem findAction_fixed (c : RolesContext) (sure : Sure filter) (role : PermissionRole) (marker : JsString) :
    (∃ found, c.findAction filter (some role) (markerPermission c.store c.recordName marker) =
        some (some found) ∧ found.permission.role = role ∧
        Grants c.store c.recordName filter role marker) ∨
    (c.findAction filter (some role) (markerPermission c.store c.recordName marker) = some none ∧
      ¬ Grants c.store c.recordName filter role marker) := by
  rcases find_sure (every_sure sure (byRole_sure role)) with ⟨found, member, looked, passes⟩ | ⟨looked, others⟩
  · have ⟨passed, current⟩ := every_pair.mp passes
    have same := byRole_true.mp current
    exact .inl ⟨found, looked, same, grants_iff.mpr ⟨found, member, passed, same⟩⟩
  · refine .inr ⟨looked, fun granted => ?_⟩
    have ⟨found, member, passed, same⟩ := grants_iff.mp granted
    exact others found member (every_pair.mpr ⟨passed, byRole_true.mpr same⟩)

theorem some_pair {first second : PermissionFilter} (sure : Sure first) {permission : Permission} :
    someFilter [first, second] permission = some true ↔
      first permission = some true ∨ second permission = some true := by
  cases one : first permission with
  | none => exact absurd one (sure permission)
  | some passed =>
    cases passed with
    | true => simp [someFilter, one]
    | false =>
      cases two : second permission with
      | none => simp [someFilter, one, two]
      | some passed' => cases passed' <;> simp [someFilter, one, two]

theorem findPolicy_cases (c : RolesContext) (action : PolicyAction) (role : PermissionRole) (marker : JsString) :
    (∃ found, c.findPolicy action role (markerPermission c.store c.recordName marker) =
        some (some found) ∧ GrantsPolicy c.store c.testRegex c.recordName action role marker) ∨
    (c.findPolicy action role (markerPermission c.store c.recordName marker) = some none ∧
      ¬ GrantsPolicy c.store c.testRegex c.recordName action role marker) := by
  have roles : Sure (someFilter [byEveryoneRole, byRole role]) := by
    intro permission none
    cases everyone : byEveryoneRole permission with
    | none => exact byRole_sure _ permission everyone
    | some passed =>
      cases passed with
      | true => simp [someFilter, everyone] at none
      | false => by_cases own : permission.role = role <;> simp [someFilter, everyone, byRole, own] at none
  have sure := every_sure (byPolicy_sure c.testRegex action marker) roles
  rcases find_sure sure with ⟨found, member, looked, passes⟩ | ⟨looked, others⟩
  · exact .inl ⟨found, looked, findPolicy_sound looked⟩
  · refine .inr ⟨looked, fun granted => ?_⟩
    have passed : ∀ r, r = .everyone ∨ r = role →
        ¬ Grants c.store c.recordName (byPolicy c.testRegex action marker) r marker := by
      intro r either holds
      obtain ⟨found, member, passed, same⟩ := grants_iff.mp holds
      apply others found member
      apply every_pair.mpr ⟨passed, (some_pair (byRole_sure _)).mpr ?_⟩
      exact either.imp (fun all => byRole_true.mpr (same.trans all)) (fun own => byRole_true.mpr (same.trans own))
    rcases granted with everyone | own
    · exact passed _ (.inl rfl) everyone
    · exact passed _ (.inr rfl) own

/-- What a function that asks all markers asks of one. -/
def AsksAll (c : RolesContext) (filter : PermissionFilter) (assigns : JsString → Option PolicyAction)
    (role : PermissionRole) (marker : JsString) : Prop :=
  Grants c.store c.recordName filter role marker ∧ ∀ action, assigns marker = some action →
    GrantsPolicy c.store c.testRegex c.recordName action role marker

theorem authorizeEvery_fixed (sure : Sure filter) (assigns : JsString → Option PolicyAction)
    (role : PermissionRole) (markers : List JsString) (authorizations : List MarkerAuthorization) :
    (∃ result, authorizeEvery c type filter assigns (some role) authorizations
        (listPermissionsForMarkers c.store c.recordName markers) = some (.ok result)) ↔
      role ≠ .named [] ∧ ∀ marker ∈ markers, AsksAll c filter assigns role marker := by
  induction markers generalizing authorizations with
  | nil =>
    have ended : authorizeEvery c type filter assigns (some role) authorizations
        (listPermissionsForMarkers c.store c.recordName []) =
        some (withRole (some role) authorizations) := rfl
    rw [ended, withRole]
    by_cases empty : role = .named []
    · simp [empty]
    · simp [empty]
  | cons marker rest ih =>
    rw [listPermissions_cons, authorizeEvery, forall_mem_cons]
    rcases findAction_fixed c sure role marker with ⟨found, looked, same, granted⟩ | ⟨looked, missing⟩
    · simp only [looked, Option.getD_some, same, markerPermission_marker]
      cases asked : assigns marker with
      | none =>
        have here : AsksAll c filter assigns role marker :=
          ⟨granted, fun action other => by cases asked.symm.trans other⟩
        simp only [ih]
        exact and_congr_right (fun _ => (and_iff_right here).symm)
      | some policy =>
        rcases findPolicy_cases c policy role marker with ⟨granting, lookedPolicy, allowed⟩ | ⟨lookedPolicy, refused⟩
        · have here : AsksAll c filter assigns role marker :=
            ⟨granted, fun action other => some.inj (asked.symm.trans other) ▸ allowed⟩
          simp only [lookedPolicy, ih]
          exact and_congr_right (fun _ => (and_iff_right here).symm)
        · simp only [lookedPolicy]
          refine iff_of_false (by rintro ⟨result, failed⟩; cases failed) ?_
          rintro ⟨_, here, _⟩
          exact refused (here.2 policy asked)
    · simp only [looked]
      refine iff_of_false (by rintro ⟨result, failed⟩; cases failed) ?_
      rintro ⟨_, here, _⟩
      exact missing here.1

/-! ### The permission that fixes the role -/

/-- The filter sees nothing of a permission but its role. -/
def RoleOnly (filter : PermissionFilter) : Prop :=
  ∀ first second : Permission, first.role = second.role → filter first = filter second

theorem someFilter_roleOnly {filters : List PermissionFilter} (all : ∀ f ∈ filters, RoleOnly f) :
    RoleOnly (someFilter filters) := by
  intro first second same
  induction filters with
  | nil => rfl
  | cons f rest ih =>
    rw [someFilter, someFilter, all f mem_cons_self first second same,
      ih (fun g member => all g (List.mem_cons_of_mem _ member))]

theorem byRole_roleOnly (role : PermissionRole) : RoleOnly (byRole role) := by
  intro first second same
  simp only [byRole, same]

theorem current_roleOnly (c : RolesContext) : RoleOnly (c.byCurrentRole none) := by
  apply someFilter_roleOnly
  intro f member
  simp only [List.mem_cons, List.not_mem_nil, or_false] at member
  rcases member with everyone | admin | subject
  · exact everyone ▸ byRole_roleOnly .everyone
  · rw [admin]
    unfold byAdminRole
    split
    · exact byRole_roleOnly adminRole
    · exact fun _ _ _ => rfl
  · rw [subject]
    intro first second same
    unfold bySubjectRole
    by_cases known : idText c.id = []
    · rw [if_pos known]
    · rw [if_neg known]
      cases c.subjectType with
      | user => simp only [byUserRole, same]
      | inst => simp only [byInstRole, same]

/-- Whether the subject is stopped by a permission: the search ends at it, or throws. -/
def passes (c : RolesContext) (filter : PermissionFilter) : PermissionFilter :=
  everyFilter [filter, c.byCurrentRole none]

/-- The first permission of the markers that the subject may use for the action. -/
def lead (c : RolesContext) (filter : PermissionFilter) (markers : List JsString) :
    Option (Option PossiblePermission) :=
  findPermissionByFilter
    (markers.flatMap (fun marker => (markerPermission c.store c.recordName marker).permissions))
    (passes c filter)

theorem lead_cons (marker : JsString) (rest : List JsString) : lead c filter (marker :: rest) =
      match c.findAction filter none (markerPermission c.store c.recordName marker) with
      | some none => lead c filter rest
      | other => other := by
  rw [lead, List.flatMap_cons, find_append]
  rfl

theorem stopped_of_grants {found : PossiblePermission} {marker : JsString}
    (passed : passes c filter found.permission = some true)
    (granted : Grants c.store c.recordName filter found.permission.role marker) :
    c.findAction filter none (markerPermission c.store c.recordName marker) ≠ some none := by
  intro nothing
  have ⟨other, member, matched, same⟩ := grants_iff.mp granted
  have stops := find_none_iff.mp nothing other member
  have current : c.byCurrentRole none other.permission = some true := by
    rw [current_roleOnly c _ _ same]
    exact (every_pair.mp passed).2
  cases stops.symm.trans (every_pair.mpr ⟨matched, current⟩)

theorem lead_passes {markers : List JsString} {found : PossiblePermission}
    (led : lead c filter markers = some (some found)) : passes c filter found.permission = some true :=
  (find_sound led).2

/-- What the markers must give the role of the first permission. -/
def LedBy (c : RolesContext) (filter : PermissionFilter) (markers : List JsString)
    (Suits : PermissionRole → Prop) : Prop :=
  ∃ found, lead c filter markers = some (some found) ∧ found.permission.role ≠ .named [] ∧
    Suits found.permission.role

theorem authorizeEvery_iff (c : RolesContext) (type : PermissionType) (sure : Sure filter)
    (assigns : JsString → Option PolicyAction) (markers : List JsString) (filled : markers ≠ []) :
    (∃ result, authorizeEvery c type filter assigns none []
        (listPermissionsForMarkers c.store c.recordName markers) = some (.ok result)) ↔
      LedBy c filter markers (fun role => ∀ marker ∈ markers, AsksAll c filter assigns role marker) := by
  cases markers with
  | nil => exact absurd rfl filled
  | cons marker rest =>
    rw [LedBy, lead_cons, listPermissions_cons, authorizeEvery]
    cases looked : c.findAction filter none (markerPermission c.store c.recordName marker) with
    | none => simp
    | some answer =>
      cases answer with
      | none =>
        refine iff_of_false (by rintro ⟨result, failed⟩; cases failed) ?_
        rintro ⟨found, led, _, all⟩
        exact stopped_of_grants (lead_passes led) (all marker mem_cons_self).1 looked
      | some found =>
        have granted := (findAction_sound looked).1
        have unique : ∀ Q : PossiblePermission → Prop, (∃ other, some (some found) = some (some other) ∧ Q other) ↔ Q found :=
          fun Q => ⟨by rintro ⟨other, same, holds⟩; exact some.inj (some.inj same) ▸ holds,
            fun holds => ⟨found, rfl, holds⟩⟩
        simp only [Option.getD_none, markerPermission_marker, unique, forall_mem_cons]
        cases asked : assigns marker with
        | none =>
          have here : AsksAll c filter assigns found.permission.role marker :=
            ⟨granted, fun action other => by cases asked.symm.trans other⟩
          simp only [authorizeEvery_fixed sure]
          exact and_congr_right (fun _ => (and_iff_right here).symm)
        | some policy =>
          rcases findPolicy_cases c policy found.permission.role marker with
            ⟨granting, lookedPolicy, allowed⟩ | ⟨lookedPolicy, refused⟩
          · have here : AsksAll c filter assigns found.permission.role marker :=
              ⟨granted, fun action other => some.inj (asked.symm.trans other) ▸ allowed⟩
            simp only [lookedPolicy, authorizeEvery_fixed sure]
            exact and_congr_right (fun _ => (and_iff_right here).symm)
          · simp only [lookedPolicy]
            refine iff_of_false (by rintro ⟨result, failed⟩; cases failed) ?_
            rintro ⟨_, here, _⟩
            exact refused (here.2 policy asked)

/-- What a change of markers asks of one of them: nothing, if it is neither added nor removed. -/
def AsksChanged (c : RolesContext) (filter : PermissionFilter) (change : MarkerChange)
    (role : PermissionRole) (marker : JsString) : Prop :=
  (change.isAdded marker ∨ change.isRemoved marker → Grants c.store c.recordName filter role marker) ∧
    ∀ action, change.assigns marker = some action →
      GrantsPolicy c.store c.testRegex c.recordName action role marker

/-- An existing marker that grants the action, or else no reason to turn the change down. -/
def AsksExisting (c : RolesContext) (filter : PermissionFilter) (change : MarkerChange)
    (markers : List JsString) (denialReason : Option DenialReason) (role : PermissionRole) : Prop :=
  (denialReason = none ∧ ∀ marker ∈ markers, Grants c.store c.recordName filter role marker) ∨
    ∃ marker ∈ markers, marker ∈ change.existingMarkers ∧
      Grants c.store c.recordName filter role marker

theorem asksChanged_unchanged {change : MarkerChange} {marker : JsString} {role : PermissionRole}
    (unchanged : ¬ (change.isAdded marker ∨ change.isRemoved marker)) :
    AsksChanged c filter change role marker := by
  refine ⟨fun changed => absurd changed unchanged, fun action asked => ?_⟩
  have ⟨notAdded, notRemoved⟩ := not_or.mp unchanged
  rw [MarkerChange.assigns, if_neg notAdded, if_neg notRemoved] at asked
  cases asked

theorem authorizeChange_nil {change : MarkerChange} {role : PermissionRole} {existing : Bool}
    {denialReason : Option DenialReason} {authorizations : List MarkerAuthorization} :
    (∃ result, authorizeChange c type filter change (some role) existing denialReason authorizations [] =
        some (.ok result)) ↔
      role ≠ .named [] ∧ (existing = true ∨ denialReason = none) := by
  have ended : (∃ result, some (withRole (some role) authorizations) =
      some (Except.ok result : GenericResult)) ↔ role ≠ .named [] := by
    rw [withRole]
    by_cases empty : role = .named []
    · simp [empty]
    · simp [empty]
  cases existing with
  | true =>
    have same : authorizeChange c type filter change (some role) true denialReason authorizations [] =
        some (withRole (some role) authorizations) := by cases denialReason <;> rfl
    rw [same, ended]
    simp
  | false =>
    cases denialReason with
    | none =>
      have same : authorizeChange c type filter change (some role) false none authorizations [] =
          some (withRole (some role) authorizations) := rfl
      rw [same, ended]
      simp
    | some reason =>
      refine iff_of_false (by rintro ⟨result, failed⟩; cases failed) ?_
      rintro ⟨_, either⟩
      rcases either with was | none
      · cases was
      · cases none

theorem authorizeChange_fixed (sure : Sure filter) (change : MarkerChange) (role : PermissionRole)
    (markers : List JsString) (existing : Bool) (denialReason : Option DenialReason)
    (authorizations : List MarkerAuthorization) :
    (∃ result, authorizeChange c type filter change (some role) existing denialReason authorizations
        (listPermissionsForMarkers c.store c.recordName markers) = some (.ok result)) ↔
      role ≠ .named [] ∧ (∀ marker ∈ markers, AsksChanged c filter change role marker) ∧
        (existing = true ∨ AsksExisting c filter change markers denialReason role) := by
  induction markers generalizing existing denialReason authorizations with
  | nil =>
    have nothing : listPermissionsForMarkers c.store c.recordName [] = [] := rfl
    rw [nothing, authorizeChange_nil]
    simp [AsksExisting]
  | cons marker rest ih =>
    rw [listPermissions_cons, authorizeChange]
    rcases findAction_fixed c sure role marker with ⟨found, looked, same, granted⟩ | ⟨looked, missing⟩
    · simp only [looked, Option.getD_some, same, markerPermission_marker]
      -- The marker grants the action, so it counts if it exists, and it gives no reason.
      have rest_iff : (existing || decide (marker ∈ change.existingMarkers)) = true ∨
            AsksExisting c filter change rest denialReason role ↔
          existing = true ∨ AsksExisting c filter change (marker :: rest) denialReason role := by
        simp only [AsksExisting, Bool.or_eq_true, decide_eq_true_eq, forall_mem_cons,
          List.exists_mem_cons_iff, granted, true_and, and_true, or_assoc]
        exact or_congr_right or_left_comm
      have here : (∀ action, change.assigns marker = some action →
            GrantsPolicy c.store c.testRegex c.recordName action role marker) →
          AsksChanged c filter change role marker := fun policies => ⟨fun _ => granted, policies⟩
      cases asked : change.assigns marker with
      | none =>
        have settled := here (fun action other => by cases asked.symm.trans other)
        simp only [ih, forall_mem_cons, settled, true_and]
        exact and_congr_right (fun _ => and_congr_right (fun _ => rest_iff))
      | some policy =>
        rcases findPolicy_cases c policy role marker with ⟨granting, lookedPolicy, allowed⟩ | ⟨lookedPolicy, refused⟩
        · have settled := here (fun action other => some.inj (asked.symm.trans other) ▸ allowed)
          simp only [lookedPolicy, ih, forall_mem_cons, settled, true_and]
          exact and_congr_right (fun _ => and_congr_right (fun _ => rest_iff))
        · simp only [lookedPolicy]
          refine iff_of_false (by rintro ⟨result, failed⟩; cases failed) ?_
          rintro ⟨_, all, _⟩
          exact refused ((all marker mem_cons_self).2 policy asked)
    · simp only [looked, markerPermission_marker]
      by_cases changed : change.isAdded marker = true ∨ change.isRemoved marker = true
      · simp only [changed, if_true]
        refine iff_of_false (by rintro ⟨result, failed⟩; cases failed) ?_
        rintro ⟨_, all, _⟩
        exact missing ((all marker mem_cons_self).1 changed)
      · have settled : AsksChanged c filter change role marker := asksChanged_unchanged changed
        simp only [changed, if_false, ih, forall_mem_cons, settled, true_and, AsksExisting, missing, false_and,
          and_false, List.exists_mem_cons_iff, false_or, reduceCtorEq]

theorem authorizeChange_open (c : RolesContext) (type : PermissionType) (sure : Sure filter)
    (change : MarkerChange) (markers : List JsString) (denialReason : Option DenialReason) (authorizations : List MarkerAuthorization) :
    (∃ result, authorizeChange c type filter change none false denialReason authorizations
        (listPermissionsForMarkers c.store c.recordName markers) = some (.ok result)) ↔
      LedBy c filter markers (fun role => (∀ marker ∈ markers, AsksChanged c filter change role marker) ∧
        AsksExisting c filter change markers denialReason role) := by
  induction markers generalizing denialReason authorizations with
  | nil =>
    refine iff_of_false ?_ (by rintro ⟨found, led, _⟩; cases led)
    rintro ⟨result, answered⟩
    cases denialReason with
    | none => cases answered
    | some reason => cases answered
  | cons marker rest ih =>
    rw [LedBy, lead_cons, listPermissions_cons, authorizeChange]
    cases looked : c.findAction filter none (markerPermission c.store c.recordName marker) with
    | none => simp
    | some answer =>
      cases answer with
      | none =>
        -- The role of a later permission has none here, or the search would have ended here.
        have missing : ∀ found, lead c filter rest = some (some found) →
            ¬ Grants c.store c.recordName filter found.permission.role marker :=
          fun found led granted => stopped_of_grants (lead_passes led) granted looked
        simp only [markerPermission_marker]
        by_cases changed : change.isAdded marker = true ∨ change.isRemoved marker = true
        · simp only [changed, if_true]
          refine iff_of_false (by rintro ⟨result, failed⟩; cases failed) ?_
          rintro ⟨found, led, _, all, _⟩
          exact missing found led ((all marker mem_cons_self).1 changed)
        · simp only [changed, if_false, ih, LedBy]
          apply exists_congr
          intro found
          apply and_congr_right
          intro led
          have settled : AsksChanged c filter change found.permission.role marker :=
            asksChanged_unchanged changed
          simp only [forall_mem_cons, settled, true_and, AsksExisting, missing found led,
            false_and, and_false, List.exists_mem_cons_iff, false_or, reduceCtorEq]
      | some found =>
        have granted := (findAction_sound looked).1
        simp only [Option.getD_none, markerPermission_marker, Bool.false_or]
        have unique : ∀ Q : PossiblePermission → Prop,
            (∃ other, some (some found) = some (some other) ∧ Q other) ↔ Q found :=
          fun Q => ⟨by rintro ⟨other, same, holds⟩; exact some.inj (some.inj same) ▸ holds,
            fun holds => ⟨found, rfl, holds⟩⟩
        rw [unique]
        have rest_iff : decide (marker ∈ change.existingMarkers) = true ∨
              AsksExisting c filter change rest denialReason found.permission.role ↔
            AsksExisting c filter change (marker :: rest) denialReason found.permission.role := by
          simp only [AsksExisting, decide_eq_true_eq, forall_mem_cons,
            List.exists_mem_cons_iff, granted, true_and, and_true]
          exact or_left_comm
        have here : (∀ action, change.assigns marker = some action →
              GrantsPolicy c.store c.testRegex c.recordName action found.permission.role marker) →
            AsksChanged c filter change found.permission.role marker :=
          fun policies => ⟨fun _ => granted, policies⟩
        cases asked : change.assigns marker with
        | none =>
          have settled := here (fun action other => by cases asked.symm.trans other)
          simp only [authorizeChange_fixed sure, forall_mem_cons, settled, true_and]
          exact and_congr_right (fun _ => and_congr_right (fun _ => rest_iff))
        | some policy =>
          rcases findPolicy_cases c policy found.permission.role marker with
            ⟨granting, lookedPolicy, allowed⟩ | ⟨lookedPolicy, refused⟩
          · have settled := here (fun action other => some.inj (asked.symm.trans other) ▸ allowed)
            simp only [lookedPolicy, authorizeChange_fixed sure, forall_mem_cons, settled, true_and]
            exact and_congr_right (fun _ => and_congr_right (fun _ => rest_iff))
          · simp only [lookedPolicy]
            refine iff_of_false (by rintro ⟨result, failed⟩; cases failed) ?_
            rintro ⟨_, all, _⟩
            exact refused ((all marker mem_cons_self).2 policy asked)

theorem asks_union_iff (change : MarkerChange) (role : PermissionRole) :
    ((∀ marker ∈ change.union, AsksChanged c filter change role marker) ∧
        AsksExisting c filter change change.union none role) ↔
      Required.RequiredOfChange c.store c.testRegex c.recordName role filter change := by
  constructor
  · intro ⟨all, existing⟩
    refine ⟨fun m changed => ?_, fun m action asked => ?_, fun known => ?_⟩
    · exact (all m ((mem_union change m).mpr (.inr changed))).1 changed
    · exact (all m (mem_union_of_assigns asked)).2 action asked
    · rcases existing with ⟨_, every⟩ | ⟨m, _, old, granted⟩
      · have ⟨m, member⟩ := List.exists_mem_of_ne_nil _ known
        exact ⟨m, member, every m ((mem_union change m).mpr (.inl member))⟩
      · exact ⟨m, old, granted⟩
  · intro ⟨changed, policies, existing⟩
    refine ⟨fun m _ => ⟨changed m, policies m⟩, ?_⟩
    by_cases none : change.existingMarkers = []
    · refine .inl ⟨rfl, fun m member => changed m ?_⟩
      rcases (mem_union change m).mp member with old | new
      · rw [none] at old
        cases old
      · exact new
    · have ⟨m, member, granted⟩ := existing none
      exact .inr ⟨m, (mem_union change m).mpr (.inl member), member, granted⟩

end Subject

/-! ### A request to write -/

namespace Action

/-- The actions for which several markers must agree on one role. -/
def isWrite : Action → Bool
  | dataCreate _ _ | dataUpdate _ _ | fileCreate _ _ | fileUpdate _ _ | eventUpdate _ _ => true
  | _ => false

def filter (testRegex : JsString → JsString → Bool) : Action → PermissionFilter
  | dataCreate address _ => byData testRegex .create address
  | dataRead address _ => byData testRegex .read address
  | dataUpdate address _ => byData testRegex .update address
  | dataDelete address _ => byData testRegex .delete address
  | fileCreate file _ => byFile .create file
  | fileRead file _ => byFile .read file
  | fileUpdate file _ => byFile .update file
  | fileDelete file _ => byFile .delete file
  | eventCount eventName _ => byEvent testRegex .count eventName
  | eventIncrement eventName _ => byEvent testRegex .increment eventName
  | eventUpdate eventName _ => byEvent testRegex .update eventName

def turnedDown : Action → Bool
  | dataUpdate _ change | eventUpdate _ change => ! change.remaining
  | fileUpdate _ change =>
    (change.addedMarkers.getD [] = [] ∧ change.removedMarkers.getD [] = []) || ! change.remaining
  | _ => false

theorem filter_sure (testRegex : JsString → JsString → Bool) (action : Action) : Sure (action.filter testRegex) := by
  intro permission none
  cases action <;> cases permission <;> cases none

end Action

/-- The request is looked at further than its form. -/
def Admitted (request : AuthorizeRequest) : Prop :=
  (request.instances.getD []).length ≤ maxAllowedInstances ∧ request.action.markers ≠ [] ∧
    request.action.turnedDown = false

def subjects (context : AuthorizationContext) (request : AuthorizeRequest) :
    List (SubjectType × Option JsString) :=
  (.user, request.userId) ::
    (if context.recordKeyResult.isSome then []
      else (request.instances.getD []).map (fun inst => (.inst, some inst)))

section Request

variable {store : PolicyStore} {testRegex : JsString → JsString → Bool} {context : AuthorizationContext}
  {request : AuthorizeRequest}

theorem subject_iff (c : RolesContext) (action : Action) (write : action.isWrite = true)
    (filled : action.markers ≠ []) :
    (∃ result, action.authorize c (listPermissionsForMarkers c.store c.recordName action.markers) = some (.ok result)) ↔
      (action.emptied = false → action.turnedDown = false) ∧
        LedBy c (action.filter c.testRegex) action.markers
          (fun role => Required c.store c.testRegex c.recordName role action) := by
  have sure := action.filter_sure c.testRegex
  have created : ∀ filter role (markers : List JsString),
      (∀ marker ∈ markers, AsksAll c filter (fun _ => some .assign) role marker) ↔
        ∀ marker ∈ markers, Grants c.store c.recordName filter role marker ∧
          GrantsPolicy c.store c.testRegex c.recordName .assign role marker := by
    intro filter role markers
    refine forall₂_congr (fun marker _ => and_congr_right (fun _ => ?_))
    exact ⟨fun all => all .assign rfl, fun one action same => some.inj same ▸ one⟩
  cases action with
  | dataCreate address markers =>
    have all := authorizeEvery_iff c (.data .create) sure (fun _ => some .assign) markers filled
    simp only [LedBy, created] at all
    simp only [Action.turnedDown, implies_true, true_and]
    exact all
  | fileCreate file markers =>
    have all := authorizeEvery_iff c (.file .create) sure (fun _ => some .assign) markers filled
    simp only [LedBy, created] at all
    simp only [Action.turnedDown, implies_true, true_and]
    exact all
  | dataUpdate address change =>
    have all := authorizeChange_open c (.data .update) sure change change.union none []
    simp only [LedBy, asks_union_iff] at all
    simp only [Action.turnedDown, Action.emptied, imp_self, true_and]
    exact all
  | eventUpdate eventName change =>
    have all := authorizeChange_open c (.event .update) sure change change.union none []
    simp only [LedBy, asks_union_iff] at all
    simp only [Action.turnedDown, Action.emptied, imp_self, true_and]
    exact all
  | fileUpdate file change =>
    have all := authorizeEvery_iff c (.file .update) sure change.assigns change.union filled
    have asked : ∀ role, (∀ marker ∈ change.union, AsksAll c (byFile .update file) change.assigns role marker) ↔
        Required c.store c.testRegex c.recordName role (.fileUpdate file change) := by
      intro role
      constructor
      · intro every
        exact ⟨fun m member => (every m ((mem_union change m).mpr member)).1,
          fun m action given => (every m (mem_union_of_assigns given)).2 action given⟩
      · rintro ⟨granted, policies⟩ m member
        exact ⟨granted m ((mem_union change m).mp member), policies m⟩
    simp only [LedBy, Action.filter, asked] at all
    simp only [Action.authorize, authorizeFileUpdate, Action.markers, Action.turnedDown, Action.emptied,
      forall_const, Action.filter, LedBy]
    by_cases nothing : change.addedMarkers.getD [] = [] ∧ change.removedMarkers.getD [] = []
    · simp [nothing]
    · by_cases remains : change.remaining = true
      · simp only [nothing, remains, if_false, not_true, decide_false, Bool.not_true, Bool.or_self, true_and]
        exact all
      · simp [nothing, remains]
  | dataRead _ _ => cases write
  | dataDelete _ _ => cases write
  | fileRead _ _ => cases write
  | fileDelete _ _ => cases write
  | eventCount _ _ => cases write
  | eventIncrement _ _ => cases write

theorem allowed_iff (write : request.action.isWrite = true) : allowed store testRegex context request = true ↔
      Admitted request ∧ ∀ subject ∈ subjects context request,
        LedBy (subjectContext store testRegex context subject.1 subject.2)
          (request.action.filter testRegex) request.action.markers
          (fun role => Required store testRegex context.recordName role request.action) := by
  have one : ∀ subjectType id, request.action.markers ≠ [] →
      ((∃ result, request.action.authorize (subjectContext store testRegex context subjectType id)
          (listPermissionsForMarkers store context.recordName request.action.markers) =
            some (.ok result)) ↔
        (request.action.emptied = false → request.action.turnedDown = false) ∧
          LedBy (subjectContext store testRegex context subjectType id)
            (request.action.filter testRegex) request.action.markers
            (fun role => Required store testRegex context.recordName role request.action)) :=
    fun subjectType id filled =>
      subject_iff (subjectContext store testRegex context subjectType id) request.action write filled
  have turned : request.action.emptied = true → request.action.turnedDown = true := by
    cases same : request.action <;> simp [Action.emptied, Action.turnedDown]
  have answer : allowed store testRegex context request = true ↔
      ∃ answer, authorizeAction store testRegex context request = some (.ok answer) := by
    rw [allowed, authorizeRequestUsingContext]
    cases authorizeAction store testRegex context request with
    | none => simp [Except.isOk, Except.toBool]
    | some result => cases result <;> simp [Except.isOk, Except.toBool]
  rw [answer, authorizeAction_eq]
  by_cases emptied : request.action.emptied = true
  · rw [if_pos emptied]
    refine iff_of_false (by rintro ⟨result, failed⟩; cases failed) ?_
    rintro ⟨admitted, _⟩
    exact absurd (turned emptied) (by rw [admitted.2.2]; simp)
  · rw [if_neg emptied, requestFor_iff]
    have open' : request.action.emptied = false := by simpa using emptied
    constructor
    · rintro ⟨few, filled, user, insts⟩
      obtain ⟨down, led⟩ := (one .user request.userId filled).mp user
      refine ⟨⟨few, filled, down open'⟩, fun subject member => ?_⟩
      rcases List.mem_cons.mp member with here | inside
      · exact here ▸ led
      · by_cases valid : context.recordKeyResult.isSome = true
        · rw [if_pos valid] at inside
          cases inside
        · rw [if_neg valid] at inside
          obtain ⟨inst, listed, same⟩ := mem_map.mp inside
          have decided := (insts.resolve_left valid) inst listed
          exact same ▸ ((one .inst (some inst) filled).mp decided).2
    · rintro ⟨⟨few, filled, down⟩, all⟩
      refine ⟨few, filled, (one .user request.userId filled).mpr ⟨fun _ => down, all _ mem_cons_self⟩, ?_⟩
      by_cases valid : context.recordKeyResult.isSome = true
      · exact .inl valid
      · refine .inr (fun inst listed => (one .inst (some inst) filled).mpr ⟨fun _ => down, ?_⟩)
        apply all (.inst, some inst)
        rw [subjects, if_neg valid]
        exact List.mem_cons_of_mem _ (mem_map.mpr ⟨inst, listed, rfl⟩)

end Request

end CasualOS.PolicyController
