import CasualOS.PolicyChanges

/-! Roles that are granted one after the other, over the store that is kept in memory. -/

namespace CasualOS.RoleGrants

open Run
open PolicyChanges (expiresBy makeNewRoles unexpired targetSubject lastsAfter_mono
  lastsAfter_of_expiresBy)
open JsString (lit)

/-- By record name and id. Users and instances share the ids. -/
structure MemoryPolicyStore where
  roles : JsString → JsString → List JsString
  roleAssignments : JsString → JsString → List AssignedRole

def subjectId : Subject → JsString
  | .user id => id
  | .inst id => id

namespace MemoryPolicyStore

def empty : MemoryPolicyStore where
  roles := fun _ _ => []
  roleAssignments := fun _ _ => []

/-- `listRolesForUser` and `listRolesForInst`. -/
def getRolesForEntity (store : MemoryPolicyStore) (recordName id : JsString) (now : Int) :
    List AssignedRole :=
  (store.roles recordName id).map (fun role => ⟨role, none⟩) ++
    unexpired now (store.roleAssignments recordName id)

/-- `updateUserRoles` and `updateInstRoles`. -/
def updateRoles (store : MemoryPolicyStore) (recordName id : JsString) (roles : List AssignedRole)
    (now : Int) : MemoryPolicyStore :=
  { store with
    roleAssignments := fun name other =>
      if name = recordName ∧ other = id then unexpired now roles else store.roleAssignments name other }

end MemoryPolicyStore

/-- An authorized call, which reads the roles at one time and writes them at another. It fails where
neither a user nor an instance is given. -/
def grantRole (store : MemoryPolicyStore) (recordName : JsString) (userId inst : Option JsString)
    (role : AssignedRole) (listedAt savedAt : Int) : MemoryPolicyStore × Bool :=
  match targetSubject userId inst with
  | none => (store, false)
  | some subject =>
    let roles := store.getRolesForEntity recordName (subjectId subject) listedAt
    (store.updateRoles recordName (subjectId subject) (makeNewRoles roles role) savedAt, true)

/-! ### Grants to one subject -/

/-- `granted` is history: what the calls that have succeeded have granted. -/
structure Server where
  store : MemoryPolicyStore
  now : Int
  granted : List AssignedRole

def idle (now : Int) : Server where
  store := .empty
  now := now
  granted := []

/-- How long a call waits before it reads, and then until it writes. -/
structure Grant where
  role : AssignedRole
  waits : Nat
  takes : Nat
  deriving DecidableEq, Repr

def Grant.listedAt (grant : Grant) (s : Server) : Int := s.now + grant.waits

def Grant.savedAt (grant : Grant) (s : Server) : Int := grant.listedAt s + grant.takes

section Grants

variable (recordName : JsString) (userId inst : Option JsString)

def step (s : Server) (grant : Grant) : Option Server :=
  let (store, success) :=
    grantRole s.store recordName userId inst grant.role (grant.listedAt s) (grant.savedAt s)
  some
    { store := store
      now := grant.savedAt s
      granted := if success then s.granted ++ [grant.role] else s.granted }

def Server.stored (s : Server) : List AssignedRole :=
  match targetSubject userId inst with
  | none => []
  | some subject => s.store.roleAssignments recordName (subjectId subject)

def Server.listed (s : Server) (time : Int) : List AssignedRole :=
  match targetSubject userId inst with
  | none => []
  | some subject => s.store.getRolesForEntity recordName (subjectId subject) time

/-- From now on a role is listed as long as some call has granted it, and is stored for no less than
the longest of these. -/
structure Server.Exact (s : Server) : Prop where
  lists : ∀ time, s.now ≤ time → ∀ role,
    (∃ assignment ∈ s.listed recordName userId inst time, assignment.role = role) ↔
      ∃ assignment ∈ s.granted, assignment.role = role ∧ assignment.lastsAfter time = true
  longest : ∀ first ∈ s.stored recordName userId inst, ∀ second ∈ s.stored recordName userId inst,
    first.role = second.role → expiresBy first.expireTimeMs second.expireTimeMs = true

/-- Where the role has been granted before and has not expired, it is granted for as long again. -/
def Renews (s : Server) (grant : Grant) : Prop :=
  ∀ earlier ∈ s.granted, earlier.role = grant.role.role → earlier.lastsAfter (grant.savedAt s) = true →
    earlier.expireTimeMs = grant.role.expireTimeMs

instance instDecidableRenews (s : Server) (grant : Grant) : Decidable (Renews s grant) :=
  inferInstanceAs (Decidable (∀ earlier ∈ s.granted, earlier.role = grant.role.role →
    earlier.lastsAfter (grant.savedAt s) = true → earlier.expireTimeMs = grant.role.expireTimeMs))

end Grants

/-! ### Expiration times -/

section Times

variable {first second : AssignedRole} {time : Int}

theorem expiresBy_refl (expireTimeMs : Option Int) : expiresBy expireTimeMs expireTimeMs = true := by
  cases expireTimeMs with
  | none => rfl
  | some time => exact decide_eq_true (le_refl time)

theorem expiresBy_antisymm {left right : Option Int} (front : expiresBy left right = true)
    (back : expiresBy right left = true) : left = right := by
  cases left with
  | none =>
    cases right with
    | none => rfl
    | some later => exact absurd front Bool.false_ne_true
  | some earlier =>
    cases right with
    | none => exact absurd back Bool.false_ne_true
    | some later => exact congrArg some (le_antisymm (of_decide_eq_true front) (of_decide_eq_true back))

/-- Whatever outlives another is there at some time when the other is not. -/
theorem exists_between (order : expiresBy first.expireTimeMs second.expireTimeMs = false)
    (lasts : first.lastsAfter time = true) :
    ∃ later, time ≤ later ∧ first.lastsAfter later = true ∧ second.lastsAfter later = false := by
  unfold AssignedRole.lastsAfter at lasts ⊢
  cases right : second.expireTimeMs with
  | none => rw [right] at order; exact absurd order.symm Bool.false_ne_true
  | some ends =>
    refine ⟨max time ends, le_max_left time ends, ?_, ?_⟩
    · cases left : first.expireTimeMs with
      | none => rfl
      | some expires =>
        rw [left, right] at order
        rw [left] at lasts
        have after : ends < expires := not_le.mp (of_decide_eq_false order)
        exact decide_eq_true (max_lt (of_decide_eq_true lasts) after)
    · exact decide_eq_false (not_lt.mpr (le_max_right time ends))

end Times

/-! ### What a grant leaves -/

section Steps

variable {recordName : JsString} {userId inst : Option JsString} {s next : Server} {grant : Grant}

theorem le_savedAt (s : Server) (grant : Grant) : s.now ≤ grant.listedAt s ∧ grant.listedAt s ≤ grant.savedAt s := by
  unfold Grant.savedAt Grant.listedAt
  omega

/-- The grants that count are stored, and nothing else is. With nobody to grant to nothing is granted. -/
structure Kept (recordName : JsString) (userId inst : Option JsString) (s : Server) : Prop where
  roles : s.store.roles = fun _ _ => []
  nobody : targetSubject userId inst = none → s.granted = []
  granted : ∀ assignment ∈ s.stored recordName userId inst, assignment ∈ s.granted
  lasting : ∀ assignment ∈ s.stored recordName userId inst, assignment.lastsAfter s.now = true
  stored : ∀ assignment ∈ s.granted, assignment.lastsAfter s.now = true →
    assignment ∈ s.stored recordName userId inst
  agree : ∀ first ∈ s.granted, ∀ second ∈ s.granted, first.role = second.role →
    first.lastsAfter s.now = true → second.lastsAfter s.now = true →
    first.expireTimeMs = second.expireTimeMs

theorem kept_idle (now : Int) : Kept recordName userId inst (idle now) := by
  have nothing : (idle now).stored recordName userId inst = [] := by
    unfold Server.stored
    split <;> rfl
  constructor
  · rfl
  · exact fun _ => rfl
  · intro assignment member
    rw [nothing] at member
    cases member
  · intro assignment member
    rw [nothing] at member
    cases member
  · intro assignment member
    cases member
  · intro first member
    cases member

theorem mem_listed (roles : s.store.roles = fun _ _ => []) (time : Int) (assignment : AssignedRole) :
    assignment ∈ s.listed recordName userId inst time ↔
      assignment ∈ s.stored recordName userId inst ∧ assignment.lastsAfter time = true := by
  unfold Server.listed Server.stored
  cases target : targetSubject userId inst with
  | none => simp
  | some subject => simp [MemoryPolicyStore.getRolesForEntity, roles, unexpired]

/-- What a call grants, if it has someone to grant it to. -/
structure Granted (recordName : JsString) (userId inst : Option JsString) (s next : Server) (grant : Grant) :
    Prop where
  target : targetSubject userId inst ≠ none
  now : next.now = grant.savedAt s
  roles : next.store.roles = s.store.roles
  granted : next.granted = s.granted ++ [grant.role]
  mem_stored : ∀ assignment, assignment ∈ next.stored recordName userId inst ↔
    assignment.lastsAfter (grant.savedAt s) = true ∧
      ((assignment ∈ s.stored recordName userId inst ∧ (assignment.role ≠ grant.role.role ∨
        expiresBy assignment.expireTimeMs grant.role.expireTimeMs = true)) ∨ assignment = grant.role)

theorem step_cases (kept : Kept recordName userId inst s) (ran : step recordName userId inst s grant = some next) :
    (targetSubject userId inst = none ∧ s.now ≤ next.now ∧ next.store = s.store ∧ next.granted = s.granted) ∨
      Granted recordName userId inst s next grant := by
  have order := le_savedAt s grant
  cases target : targetSubject userId inst with
  | none =>
    simp only [step, grantRole, target, Option.some.injEq] at ran
    subst ran
    exact .inl ⟨rfl, le_trans order.1 order.2, rfl, rfl⟩
  | some subject =>
    simp only [step, grantRole, target, Option.some.injEq] at ran
    subst ran
    refine .inr ⟨by simp [target], rfl, rfl, rfl, ?_⟩
    intro assignment
    have listed := @mem_listed recordName userId inst s kept.roles (grant.listedAt s) assignment
    simp only [Server.listed, Server.stored, target] at listed ⊢
    simp only [MemoryPolicyStore.updateRoles, and_self, if_true, unexpired, makeNewRoles,
      List.mem_filter, List.mem_append, List.mem_singleton, listed, decide_eq_true_eq]
    constructor
    · rintro ⟨⟨⟨there, _⟩, keeps⟩ | same, lasts⟩
      · exact ⟨lasts, .inl ⟨there, keeps⟩⟩
      · exact ⟨lasts, .inr same⟩
    · rintro ⟨lasts, ⟨there, keeps⟩ | same⟩
      · exact ⟨.inl ⟨⟨there, lastsAfter_mono order.2 lasts⟩, keeps⟩, lasts⟩
      · exact ⟨.inr same, lasts⟩

theorem Granted.later (given : Granted recordName userId inst s next grant) {assignment : AssignedRole}
    (lasts : assignment.lastsAfter next.now = true) : assignment.lastsAfter s.now = true := by
  have order := le_savedAt s grant
  rw [given.now] at lasts
  exact lastsAfter_mono (le_trans order.1 order.2) lasts

theorem mem_granted (given : Granted recordName userId inst s next grant) {assignment : AssignedRole}
    (member : assignment ∈ next.granted) : assignment ∈ s.granted ∨ assignment = grant.role := by
  rw [given.granted] at member
  exact (List.mem_append.mp member).imp_right List.mem_singleton.mp

theorem kept_granted (kept : Kept recordName userId inst s)
    (given : Granted recordName userId inst s next grant) (renews : Renews s grant) :
    Kept recordName userId inst next := by
  have agrees : ∀ earlier ∈ next.granted, earlier.role = grant.role.role →
      earlier.lastsAfter next.now = true → earlier.expireTimeMs = grant.role.expireTimeMs := by
    intro earlier member same lasts
    rcases mem_granted given member with there | rfl
    · exact renews earlier there same (given.now ▸ lasts)
    · rfl
  constructor
  · rw [given.roles, kept.roles]
  · exact fun nobody => absurd nobody given.target
  · intro assignment member
    rw [given.granted]
    rcases ((given.mem_stored assignment).mp member).2 with ⟨there, _⟩ | rfl
    · exact List.mem_append_left _ (kept.granted assignment there)
    · exact List.mem_append_right _ (List.mem_singleton_self _)
  · intro assignment member
    rw [given.now]
    exact ((given.mem_stored assignment).mp member).1
  · intro assignment member lasts
    refine (given.mem_stored assignment).mpr ⟨given.now ▸ lasts, ?_⟩
    rcases mem_granted given member with there | new
    · refine .inl ⟨kept.stored assignment there (given.later lasts), ?_⟩
      by_cases same : assignment.role = grant.role.role
      · rw [agrees assignment member same lasts]
        exact .inr (expiresBy_refl _)
      · exact .inl same
    · exact .inr new
  · intro first firstMember second secondMember same firstLasts secondLasts
    rcases mem_granted given firstMember with firstThere | rfl
    · rcases mem_granted given secondMember with secondThere | rfl
      · exact kept.agree first firstThere second secondThere same (given.later firstLasts)
          (given.later secondLasts)
      · exact agrees first firstMember same firstLasts
    · exact (agrees second secondMember same.symm secondLasts).symm

theorem kept_refused (kept : Kept recordName userId inst s) (target : targetSubject userId inst = none)
    (order : s.now ≤ next.now) (store : next.store = s.store) (granted : next.granted = s.granted) :
    Kept recordName userId inst next := by
  have same : next.stored recordName userId inst = s.stored recordName userId inst := by
    unfold Server.stored
    rw [store]
  constructor
  · rw [store, kept.roles]
  · exact fun nobody => granted.trans (kept.nobody nobody)
  · rw [same, granted]
    exact kept.granted
  · intro assignment member
    simp only [Server.stored, target] at member
    cases member
  · rw [same, granted]
    intro assignment member lasts
    exact kept.stored assignment member (lastsAfter_mono order lasts)
  · rw [granted]
    intro first firstMember second secondMember roles firstLasts secondLasts
    exact kept.agree first firstMember second secondMember roles (lastsAfter_mono order firstLasts)
      (lastsAfter_mono order secondLasts)

theorem keeps_kept (kept : Kept recordName userId inst s) (renews : Renews s grant)
    (ran : step recordName userId inst s grant = some next) : Kept recordName userId inst next := by
  rcases step_cases kept ran with ⟨target, order, store, granted⟩ | given
  · exact kept_refused kept target order store granted
  · exact kept_granted kept given renews

theorem exact_of_kept (kept : Kept recordName userId inst s) : s.Exact recordName userId inst := by
  constructor
  · intro time later role
    constructor
    · rintro ⟨assignment, member, same⟩
      have there := (@mem_listed recordName userId inst s kept.roles time assignment).mp member
      exact ⟨assignment, kept.granted assignment there.1, same, there.2⟩
    · rintro ⟨assignment, member, same, lasts⟩
      have there := kept.stored assignment member (lastsAfter_mono later lasts)
      exact ⟨assignment, (@mem_listed recordName userId inst s kept.roles time assignment).mpr ⟨there, lasts⟩, same⟩
  · intro first firstMember second secondMember same
    rw [kept.agree first (kept.granted first firstMember) second (kept.granted second secondMember) same
      (kept.lasting first firstMember) (kept.lasting second secondMember)]
    exact expiresBy_refl _

/-! ### What is lost when a role is granted for less -/

theorem expiresBy_of_exact (kept : Kept recordName userId inst s)
    (given : Granted recordName userId inst s next grant) (exactly : next.Exact recordName userId inst)
    {earlier : AssignedRole} (member : earlier ∈ s.granted) (same : earlier.role = grant.role.role)
    (lasts : earlier.lastsAfter (grant.savedAt s) = true) :
    expiresBy earlier.expireTimeMs grant.role.expireTimeMs = true := by
  by_contra longer
  -- After the new grant has run out, nothing that is stored lists the role.
  have ⟨later, order, there, gone⟩ := exists_between (Bool.eq_false_of_not_eq_true longer) lasts
  have recorded : earlier ∈ next.granted := given.granted ▸ List.mem_append_left _ member
  have ⟨assignment, listed, role⟩ := (exactly.lists later (given.now.symm ▸ order) grant.role.role).mpr
    ⟨earlier, recorded, same, there⟩
  have ⟨stored, remains⟩ := (@mem_listed recordName userId inst next (given.roles.trans kept.roles) later assignment).mp listed
  rcases ((given.mem_stored assignment).mp stored).2 with ⟨_, other | shorter⟩ | new
  · exact other role
  · rw [lastsAfter_of_expiresBy shorter remains] at gone
    exact absurd gone.symm Bool.false_ne_true
  · rw [new, gone] at remains
    exact Bool.false_ne_true remains

theorem renews_of_exact (kept : Kept recordName userId inst s)
    (given : Granted recordName userId inst s next grant) (exactly : next.Exact recordName userId inst) :
    Renews s grant := by
  intro earlier member same lasts
  have order := expiresBy_of_exact kept given exactly member same lasts
  have there := kept.stored earlier member (given.later (given.now.symm ▸ lasts))
  have old := (given.mem_stored earlier).mpr ⟨lasts, .inl ⟨there, .inr order⟩⟩
  have new := (given.mem_stored grant.role).mpr ⟨lastsAfter_of_expiresBy order lasts, .inr rfl⟩
  exact expiresBy_antisymm order (exactly.longest grant.role new earlier old same.symm)

end Steps

section Runs

variable (recordName : JsString) (userId inst : Option JsString) (now : Int)

/-- The roles are listed exactly as long as they have been granted for, and no stored one is outlived by
another, throughout exactly those runs that never grant a role that is there for another time. -/
theorem grants_exact_iff (grants : List Grant) :
    Throughout (step recordName userId inst) (Server.Exact recordName userId inst) (idle now) grants ↔
      AllAllowed (step recordName userId inst) Renews (idle now) grants := by
  refine throughout_iff (fun _ => exact_of_kept) (fun _ _ _ => keeps_kept) ?_ _ (kept_idle now) grants
  intro s grant kept exactly
  cases ran : step recordName userId inst s grant with
  | none => cases ran
  | some next =>
    rcases step_cases kept ran with ⟨nobody, _⟩ | given
    · intro earlier member
      rw [kept.nobody nobody] at member
      cases member
    · exact renews_of_exact kept given (exactly next ran)

end Runs

def developer : AssignedRole := ⟨lit ['d', 'e', 'v'], none⟩

/-- A role for good, and then the same role for a while. -/
def shortened : List Grant := [⟨developer, 0, 0⟩, ⟨{ developer with expireTimeMs := some 100 }, 0, 0⟩]

/-- The role is gone when the second grant runs out. -/
theorem permanent_role_lost :
    ¬ Throughout (step (lit ['r']) (some (lit ['u'])) none)
      (Server.Exact (lit ['r']) (some (lit ['u'])) none) (idle 0) shortened := by
  intro all
  have exactly := (all.2 _ rfl).2 _ rfl
  have ⟨assignment, listed, _⟩ := (exactly.lists 100 (by decide) developer.role).mpr
    ⟨developer, by decide, rfl, rfl⟩
  have nothing : assignment ∈ ([] : List AssignedRole) := listed
  cases nothing

end CasualOS.RoleGrants
