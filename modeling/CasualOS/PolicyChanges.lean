import CasualOS.PolicyController
import CasualOS.Lib.Linear
import CasualOS.Lib.Run

/-! Permissions and roles that are granted and revoked by calls running at the same time, over a store
that answers with copies. -/

namespace CasualOS.PolicyChanges

open Run Linear
open PolicyController (idText)
open List (mem_append mem_filter mem_map mem_singleton)
open Option (some getD_some map_eq_some_iff)
open JsString (lit)

/-! ### What the calls make of what they read -/

/-- The policy where the store has none. -/
def newPolicy : UserPolicyRecord where
  document := ⟨[]⟩
  markers := [accountMarker]

def grantMarkerPermission (found : Option UserPolicyRecord) (permission : Permission) :
    Option UserPolicyRecord :=
  let policy := found.getD newPolicy
  if permission ∈ policy.document.permissions then none
  else some { policy with document := ⟨policy.document.permissions ++ [permission]⟩ }

def revokeMarkerPermission (found : Option UserPolicyRecord) (permission : Permission) :
    Option UserPolicyRecord :=
  match found with
  | none => none
  | some policy =>
    if permission ∈ policy.document.permissions then
      some { policy with document := ⟨policy.document.permissions.filter (fun p => p ≠ permission)⟩ }
    else none

/-- `getExpireTime` of both, where a missing one is infinite. -/
def expiresBy : Option Int → Option Int → Bool
  | _, none => true
  | none, some _ => false
  | some first, some second => first ≤ second

/-- The comment at this filter says that the same roles that expire before the new one are removed. It
removes those that expire after it. -/
def makeNewRoles (roles : List AssignedRole) (role : AssignedRole) : List AssignedRole :=
  roles.filter (fun r => r.role ≠ role.role ∨ expiresBy r.expireTimeMs role.expireTimeMs) ++ [role]

def withoutRole (roles : List AssignedRole) (role : JsString) : List AssignedRole :=
  roles.filter (fun r => r.role ≠ role)

/-! ### Changes -/

def targetSubject (userId inst : Option JsString) : Option Subject :=
  if idText userId ≠ [] then some (.user (idText userId))
  else if idText inst ≠ [] then some (.inst (idText inst))
  else none

/-- `recordName` is that of the context. -/
inductive Change where
  | grantMarkerPermission (recordName marker : JsString) (permission : Permission)
  | revokeMarkerPermission (recordName marker : JsString) (permission : Permission)
  | grantRole (recordName : JsString) (userId inst : Option JsString) (role : AssignedRole)
  | revokeRole (recordName : JsString) (userId inst : Option JsString) (role : JsString)
  deriving DecidableEq, Repr

/-- What a call reads and writes. -/
inductive Target where
  | policy (recordName marker : JsString)
  | roles (recordName : JsString) (subject : Subject)
  deriving DecidableEq, Repr

inductive Document where
  | policy (found : Option UserPolicyRecord)
  | roles (assignments : List AssignedRole)
  deriving DecidableEq, Repr

def unexpired (now : Int) (roles : List AssignedRole) : List AssignedRole :=
  roles.filter (fun assignment => assignment.lastsAfter now)

namespace Document

/-- Expired roles are dropped after reading and before writing. -/
def unexpired (now : Int) : Document → Document
  | policy found => policy found
  | roles assignments => roles (PolicyChanges.unexpired now assignments)

end Document

namespace Change

/-- Nothing where neither a user nor an instance is given. -/
def target : Change → Option Target
  | grantMarkerPermission recordName marker _ | revokeMarkerPermission recordName marker _ =>
    some (.policy recordName marker)
  | grantRole recordName userId inst _ | revokeRole recordName userId inst _ =>
    (targetSubject userId inst).map (.roles recordName)

/-- Nothing where the call has nothing to write. -/
def makes : Change → Document → Option Document
  | grantMarkerPermission _ _ permission, .policy found =>
    (PolicyChanges.grantMarkerPermission found permission).map (fun policy => .policy (some policy))
  | revokeMarkerPermission _ _ permission, .policy found =>
    (PolicyChanges.revokeMarkerPermission found permission).map (fun policy => .policy (some policy))
  | grantRole _ _ _ role, .roles assignments => some (.roles (makeNewRoles assignments role))
  | revokeRole _ _ _ role, .roles assignments => some (.roles (withoutRole assignments role))
  | _, _ => none

end Change

/-! ### The store -/

namespace Store

def find (store : MongoDBPolicyStore) : Target → Document
  | .policy recordName marker => .policy (store.getUserPolicy recordName marker)
  | .roles recordName subject => .roles (store.roles recordName subject)

def put (store : MongoDBPolicyStore) : Target → Document → MongoDBPolicyStore
  | .policy recordName marker, .policy (some policy) => store.updateUserPolicy recordName marker policy
  | .roles recordName subject, .roles assignments =>
    { store with
      roles := fun name other =>
        if name = recordName ∧ other = subject then assignments else store.roles name other }
  | _, _ => store

/-- What can be read at a time. -/
def visible (now : Int) (store : MongoDBPolicyStore) : MongoDBPolicyStore :=
  { store with roles := fun recordName subject => store.listRoles recordName subject now }

end Store

/-- A change made by one call alone, at one time. -/
def Change.alone (store : MongoDBPolicyStore) (change : Change) (now : Int) : MongoDBPolicyStore :=
  match change.target with
  | none => store
  | some target =>
    match change.makes ((Store.find store target).unexpired now) with
    | none => store
    | some new => Store.put store target (new.unexpired now)

/-! ### Calls -/

/-- Where a call stands between its awaits. `read` is what it has read. -/
inductive Stage where
  | authorizing
  | reading (target : Target)
  | found (target : Target) (document : Document)
  | listed (target : Target) (read : Document)
  | writing (target : Target) (read new : Document)
  | written
  | finished (success : Bool)
  deriving DecidableEq, Repr

/-- `earlier` is history: the calls that had succeeded when this one began. -/
structure Call where
  change : Change
  earlier : List Nat
  stage : Stage
  deriving DecidableEq, Repr

structure Server where
  store : MongoDBPolicyStore
  now : Int
  calls : List Call

def idle (store : MongoDBPolicyStore) (now : Int) : Server where
  store := store
  now := now
  calls := []

inductive Label where
  | call (change : Change)
  | pass (later : Int)
  /-- Whether the change is authorized is decided elsewhere. -/
  | authorize (call : Nat) (allowed : Bool)
  | read (call : Nat)
  | list (call : Nat)
  | send (call : Nat)
  | write (call : Nat)
  | finish (call : Nat)

namespace Server

def succeededCalls (s : Server) : List Nat :=
  (List.range s.calls.length).filter
    (fun i => s.calls[i]?.map (fun call => call.stage) = some (.finished true))

def setStage (s : Server) (i : Nat) (call : Call) (stage : Stage) : Server :=
  { s with calls := s.calls.set i { call with stage := stage } }

end Server

def authorized (change : Change) (allowed : Bool) : Stage :=
  if allowed then
    match change.target with
    | none => .finished false
    | some target => .reading target
  else .finished false

def sent (change : Change) (target : Target) (read : Document) (now : Int) : Stage :=
  match change.makes read with
  | none => .written
  | some new => .writing target read (new.unexpired now)

/-- What a call does next, which ends in the stage that is returned. -/
def advance (s : Server) (call : Call) : Label → Option (MongoDBPolicyStore × Stage)
  | .authorize _ allowed =>
    match call.stage with
    | .authorizing => some (s.store, authorized call.change allowed)
    | _ => none
  | .read _ =>
    match call.stage with
    | .reading target => some (s.store, .found target (Store.find s.store target))
    | _ => none
  | .list _ =>
    match call.stage with
    | .found target document => some (s.store, .listed target (document.unexpired s.now))
    | _ => none
  | .send _ =>
    match call.stage with
    | .listed target read => some (s.store, sent call.change target read s.now)
    | _ => none
  | .write _ =>
    match call.stage with
    | .writing target _ new => some (Store.put s.store target new, .written)
    | _ => none
  | .finish _ =>
    match call.stage with
    | .written => some (s.store, .finished true)
    | _ => none
  | _ => none

def resume (s : Server) (i : Nat) (label : Label) : Option Server :=
  match s.calls[i]? with
  | none => none
  | some call =>
    (advance s call label).map (fun next => { s.setStage i call next.2 with store := next.1 })

def step (s : Server) : Label → Option Server
  | .call change =>
    some { s with calls := s.calls ++ [⟨change, s.succeededCalls, .authorizing⟩] }
  | .pass later => if s.now ≤ later then some { s with now := later } else none
  | .authorize i allowed => resume s i (.authorize i allowed)
  | .read i => resume s i (.read i)
  | .list i => resume s i (.list i)
  | .send i => resume s i (.send i)
  | .write i => resume s i (.write i)
  | .finish i => resume s i (.finish i)

/-! ### Documents and stores at a time -/

section Times

variable {now later : Int}

theorem lastsAfter_mono {assignment : AssignedRole} (order : now ≤ later)
    (lasts : assignment.lastsAfter later) : assignment.lastsAfter now := by
  unfold AssignedRole.lastsAfter at lasts ⊢
  split at lasts
  · rfl
  · exact decide_eq_true (lt_of_le_of_lt order (of_decide_eq_true lasts))

theorem unexpired_unexpired (order : now ≤ later) (roles : List AssignedRole) :
    unexpired later (unexpired now roles) = unexpired later roles := by
  rw [unexpired, unexpired, List.filter_filter]
  apply List.filter_congr
  intro assignment _
  cases lasts : assignment.lastsAfter later with
  | false => rfl
  | true => rw [lastsAfter_mono order lasts]; rfl

theorem unexpired_filter (keep : AssignedRole → Bool) (roles : List AssignedRole) :
    unexpired later (roles.filter keep) = (unexpired later roles).filter keep := by
  rw [unexpired, unexpired, List.filter_filter, List.filter_filter]
  apply List.filter_congr
  intro assignment _
  exact Bool.and_comm _ _

theorem unexpired_append (front back : List AssignedRole) :
    unexpired later (front ++ back) = unexpired later front ++ unexpired later back := List.filter_append ..

theorem Document.unexpired_unexpired (order : now ≤ later) (document : Document) :
    (document.unexpired now).unexpired later = document.unexpired later := by
  cases document with
  | policy found => rfl
  | roles assignments => exact congrArg Document.roles (PolicyChanges.unexpired_unexpired order assignments)

def Change.outcome (change : Change) (document : Document) : Document :=
  (change.makes document).getD document

/-- What expires does not matter to a change. -/
theorem Change.makes_unexpired (change : Change) (document : Document) (later : Int) :
    (change.makes (document.unexpired later)).map (Document.unexpired later) =
      (change.makes document).map (Document.unexpired later) := by
  cases document with
  | policy found => cases change <;> rfl
  | roles assignments =>
    cases change with
    | grantMarkerPermission recordName marker permission => rfl
    | revokeMarkerPermission recordName marker permission => rfl
    | grantRole recordName userId inst role =>
      apply congrArg (fun roles => some (Document.roles roles))
      rw [makeNewRoles, makeNewRoles, unexpired_append, unexpired_append, unexpired_filter,
        unexpired_filter, PolicyChanges.unexpired_unexpired (le_refl later)]
    | revokeRole recordName userId inst role =>
      apply congrArg (fun roles => some (Document.roles roles))
      rw [withoutRole, withoutRole, unexpired_filter, unexpired_filter,
        PolicyChanges.unexpired_unexpired (le_refl later)]

theorem Change.makes_none_iff (change : Change) (document : Document) (now : Int) :
    change.makes (document.unexpired now) = none ↔ change.makes document = none := by
  have same := change.makes_unexpired document now
  constructor
  · intro nothing
    rw [nothing] at same
    exact Option.map_eq_none_iff.mp same.symm
  · intro nothing
    rw [nothing] at same
    exact Option.map_eq_none_iff.mp same

theorem Change.outcome_unexpired (order : now ≤ later) (change : Change) (document : Document) :
    (change.outcome (document.unexpired now)).unexpired later = (change.outcome document).unexpired later := by
  have same := change.makes_unexpired document now
  have nones := change.makes_none_iff document now
  unfold Change.outcome
  cases made : change.makes document with
  | none =>
    rw [nones.mpr made]
    exact Document.unexpired_unexpired order document
  | some new =>
    rw [made] at same
    have ⟨new', made', news⟩ := map_eq_some_iff.mp same
    rw [made']
    calc
      new'.unexpired later = (new'.unexpired now).unexpired later :=
        (Document.unexpired_unexpired order new').symm
      _ = (new.unexpired now).unexpired later := by rw [news]
      _ = new.unexpired later := Document.unexpired_unexpired order new

variable {store : MongoDBPolicyStore}

theorem find_visible (target : Target) :
    Store.find (Store.visible later store) target = (Store.find store target).unexpired later := by
  cases target <;> rfl

theorem visible_put (target : Target) (document : Document) : Store.visible later (Store.put store target document) =
      Store.put (Store.visible later store) target (document.unexpired later) := by
  cases target with
  | policy recordName marker =>
    cases document with
    | policy found => cases found <;> rfl
    | roles assignments => rfl
  | roles recordName subject =>
    cases document with
    | policy found => rfl
    | roles assignments =>
      apply congrArg (MongoDBPolicyStore.mk _)
      funext name other
      change (if _ then _ else _ : List AssignedRole).filter _ = if _ then _ else _
      rw [apply_ite (List.filter _)]
      rfl

theorem put_find (target : Target) : Store.put store target (Store.find store target) = store := by
  cases target with
  | policy recordName marker =>
    rw [Store.find]
    cases found : store.getUserPolicy recordName marker with
    | none => rfl
    | some policy =>
      apply congrArg (fun policies => MongoDBPolicyStore.mk policies _)
      funext name other
      split
      · rename_i same
        rw [same.1, same.2]
        exact found.symm
      · rfl
  | roles recordName subject =>
    apply congrArg (MongoDBPolicyStore.mk _)
    funext name other
    split
    · rename_i same
      rw [same.1, same.2]
    · rfl

theorem visible_alone (order : now ≤ later) (change : Change) : Store.visible later (change.alone store now) =
      match change.target with
      | none => Store.visible later store
      | some target => Store.put (Store.visible later store) target
          ((change.outcome (Store.find store target)).unexpired later) := by
  unfold Change.alone
  cases change.target with
  | none => rfl
  | some target =>
    simp only
    have outcome := change.outcome_unexpired order (Store.find store target)
    rw [← outcome, Change.outcome]
    cases made : change.makes ((Store.find store target).unexpired now) with
    | none =>
      rw [Option.getD_none, Document.unexpired_unexpired order, ← find_visible, put_find]
    | some new =>
      simp only
      rw [visible_put, Document.unexpired_unexpired order, getD_some]

/-- What a change makes is seen later as if it had been made of what is seen then. -/
theorem visible_alone_congr {other : MongoDBPolicyStore} (order : now ≤ later) (change : Change)
    (same : Store.visible later store = Store.visible later other) :
    Store.visible later (change.alone store now) = Store.visible later (change.alone other now) := by
  rw [visible_alone order, visible_alone order]
  cases change.target with
  | none => exact same
  | some target =>
    simp only
    rw [← change.outcome_unexpired (le_refl later) (Store.find store target), ← find_visible,
      ← change.outcome_unexpired (le_refl later) (Store.find other target), ← find_visible, same]

end Times

/-! ### Effects -/

/-- A change that has been made, and when. -/
structure Made where
  change : Change
  time : Int
  deriving DecidableEq, Repr

namespace Made

def on (store : MongoDBPolicyStore) (made : Made) : MongoDBPolicyStore := made.change.alone store made.time

/-- No assignment is dropped that lasts longer than the one that is granted. -/
def DropsNone (store : MongoDBPolicyStore) (made : Made) : Prop :=
  match made.change with
  | .grantRole recordName userId inst role =>
    ∀ subject, targetSubject userId inst = some subject →
      ∀ assignment ∈ store.listRoles recordName subject made.time, assignment.role = role.role →
        expiresBy assignment.expireTimeMs role.expireTimeMs
  | _ => True

theorem dropsNone_congr {store other : MongoDBPolicyStore} {made : Made}
    (same : Store.visible made.time store = Store.visible made.time other)
    (drops : made.DropsNone store) : made.DropsNone other := by
  unfold DropsNone at drops ⊢
  split
  · rename_i recordName userId inst role change
    rw [change] at drops
    intro subject target assignment member
    apply drops subject target assignment
    have roles := congrArg (fun seen => MongoDBPolicyStore.roles seen recordName subject) same
    change store.listRoles recordName subject made.time = other.listRoles recordName subject made.time at roles
    rw [roles]
    exact member
  · trivial

end Made

/-- When a call writes, its change makes of what it has read, as far as it has not expired, what it would
make of what is stored now, and drops no assignment that lasts longer. -/
def Current (s : Server) : Label → Prop
  | .write i => ∀ call target read new, s.calls[i]? = some call → call.stage = .writing target read new →
      call.change.outcome (read.unexpired s.now) =
          call.change.outcome ((Store.find s.store target).unexpired s.now) ∧
        Made.DropsNone s.store ⟨call.change, s.now⟩
  | _ => True

def Call.took (call : Call) : Bool :=
  match call.stage with
  | .found _ document | .listed _ document => (call.change.makes document).isNone
  | .written | .finished true => true
  | _ => false

/-- What is known of a call from its stage. -/
def Call.Sound (now : Int) (call : Call) : Prop :=
  match call.stage with
  | .reading target | .found target _ | .listed target _ => call.change.target = some target
  | .writing target read new =>
    call.change.target = some target ∧ ∃ made, call.change.makes read = some made ∧
      ∀ later, now ≤ later → new.unexpired later = made.unexpired later
  | _ => True

namespace Server

/-- The one call had succeeded when the other began. -/
def Earlier (s : Server) (j i : Nat) : Prop := ∃ call, s.calls[i]? = some call ∧ j ∈ call.earlier

end Server

structure Inv (start : MongoDBPolicyStore) (s : Server) (order : List (Entry Made)) : Prop where
  once : (indices order).Nodup
  took : ∀ i, i ∈ indices order ↔ ∃ call, s.calls[i]? = some call ∧ call.took = true
  changes : ∀ entry ∈ order, ∃ call, s.calls[entry.index]? = some call ∧ call.change = entry.op.change
  earlier : ∀ i j, s.Earlier j i → j ∈ indices order
  realTime : Respects s.Earlier order
  timed : (order.map (fun entry => entry.op.time)).Pairwise (fun first second => first ≤ second)
  past : ∀ entry ∈ order, entry.op.time ≤ s.now
  same : ∀ later, s.now ≤ later →
    Store.visible later s.store = Store.visible later (result Made.on start order)
  keeps : Meets Made.on Made.DropsNone start order
  sound : ∀ (i : Nat) (call : Call), s.calls[i]? = some call → call.Sound s.now

theorem Inv.idle (store : MongoDBPolicyStore) (now : Int) : Inv store (idle store now) [] where
  once := List.nodup_nil
  took i := iff_of_false List.not_mem_nil (fun ⟨call, here, _⟩ => by cases here)
  changes entry member := by cases member
  earlier i j before := by obtain ⟨call, here, _⟩ := before; cases here
  realTime := respects_nil
  timed := List.Pairwise.nil
  past entry member := by cases member
  same later _ := rfl
  keeps := trivial
  sound i call here := by cases here

section Keeping

variable {start : MongoDBPolicyStore} {s : Server} {order : List (Entry Made)} {i : Nat} {call : Call}

theorem calls_setStage (here : s.calls[i]? = some call) (stage : Stage) (j : Nat) (other : Call) :
    (s.setStage i call stage).calls[j]? = some other ↔
      (j = i ∧ other = { call with stage := stage }) ∨ (j ≠ i ∧ s.calls[j]? = some other) := by
  have inside := (List.getElem?_eq_some_iff.mp here).1
  change (s.calls.set i { call with stage := stage })[j]? = some other ↔ _
  by_cases same : j = i
  · rw [same, List.getElem?_set_self inside]
    simp [eq_comm]
  · rw [List.getElem?_set_ne (fun equal => same equal.symm)]
    simp [same]

theorem earlier_setStage (here : s.calls[i]? = some call) (stage : Stage) (j k : Nat) :
    (s.setStage i call stage).Earlier j k ↔ s.Earlier j k := by
  constructor
  · intro ⟨other, there, before⟩
    rcases (calls_setStage here stage k other).mp there with ⟨same, new⟩ | ⟨_, old⟩
    · rw [new] at before
      exact ⟨call, same ▸ here, before⟩
    · exact ⟨other, old, before⟩
  · intro ⟨other, there, before⟩
    by_cases same : k = i
    · rw [same, here] at there
      rw [← some.inj there] at before
      exact ⟨_, (calls_setStage here stage k _).mpr (.inl ⟨same, rfl⟩), before⟩
    · exact ⟨other, (calls_setStage here stage k other).mpr (.inr ⟨same, there⟩), before⟩

variable {stage : Stage} {target : Target}

theorem Inv.quiet (inv : Inv start s order) (here : s.calls[i]? = some call)
    (kept : Call.took { call with stage := stage } = call.took)
    (sound : Call.Sound s.now { call with stage := stage }) :
    Inv start (s.setStage i call stage) order where
  once := inv.once
  took j := by
    rw [inv.took j]
    constructor
    · intro ⟨other, there, took⟩
      by_cases same : j = i
      · rw [same, here] at there
        rw [← some.inj there, ← kept] at took
        exact ⟨_, (calls_setStage here stage j _).mpr (.inl ⟨same, rfl⟩), took⟩
      · exact ⟨other, (calls_setStage here stage j other).mpr (.inr ⟨same, there⟩), took⟩
    · intro ⟨other, there, took⟩
      rcases (calls_setStage here stage j other).mp there with ⟨same, new⟩ | ⟨_, old⟩
      · rw [new, kept] at took
        exact ⟨call, same ▸ here, took⟩
      · exact ⟨other, old, took⟩
  changes entry member := by
    have ⟨other, there, change⟩ := inv.changes entry member
    by_cases same : entry.index = i
    · rw [same, here] at there
      rw [← some.inj there] at change
      exact ⟨_, (calls_setStage here stage _ _).mpr (.inl ⟨same, rfl⟩), change⟩
    · exact ⟨other, (calls_setStage here stage _ other).mpr (.inr ⟨same, there⟩), change⟩
  earlier k j before := inv.earlier k j ((earlier_setStage here stage j k).mp before)
  realTime := inv.realTime.weaken (fun k _ j => (earlier_setStage here stage j k).mp)
  timed := inv.timed
  past := inv.past
  same := inv.same
  keeps := inv.keeps
  sound j other there := by
    rcases (calls_setStage here stage j other).mp there with ⟨_, new⟩ | ⟨_, old⟩
    · exact new ▸ sound
    · exact inv.sound j other old

theorem Inv.take (inv : Inv start s order) (here : s.calls[i]? = some call) {store : MongoDBPolicyStore}
    (before : call.took = false) (after : Call.took { call with stage := stage } = true)
    (drops : Made.DropsNone s.store ⟨call.change, s.now⟩)
    (seen : ∀ later, s.now ≤ later →
      Store.visible later store = Store.visible later (call.change.alone s.store s.now))
    (sound : Call.Sound s.now { call with stage := stage }) :
    Inv start { s.setStage i call stage with store := store } (order ++ [⟨i, ⟨call.change, s.now⟩⟩]) where
  once := by
    rw [indices_append]
    refine List.nodup_append.mpr ⟨inv.once, List.pairwise_singleton _ i, fun j member k last same => ?_⟩
    rw [same, mem_singleton.mp last] at member
    have ⟨other, there, took⟩ := (inv.took i).mp member
    rw [here] at there
    rw [← some.inj there, before] at took
    cases took
  took j := by
    rw [indices_append, mem_append]
    change _ ∨ j ∈ [i] ↔ ∃ other, (s.setStage i call stage).calls[j]? = some other ∧ _
    rw [mem_singleton, inv.took j]
    constructor
    · intro either
      by_cases same : j = i
      · exact ⟨_, (calls_setStage here stage j _).mpr (.inl ⟨same, rfl⟩), after⟩
      · have ⟨other, there, took⟩ := either.resolve_right same
        exact ⟨other, (calls_setStage here stage j other).mpr (.inr ⟨same, there⟩), took⟩
    · intro ⟨other, there, took⟩
      rcases (calls_setStage here stage j other).mp there with ⟨same, _⟩ | ⟨_, old⟩
      · exact .inr same
      · exact .inl ⟨other, old, took⟩
  changes entry member := by
    change ∃ other, (s.setStage i call stage).calls[entry.index]? = some other ∧ _
    rcases mem_append.mp member with old | new
    · have ⟨other, there, change⟩ := inv.changes entry old
      by_cases same : entry.index = i
      · rw [same, here] at there
        rw [← some.inj there] at change
        exact ⟨_, (calls_setStage here stage _ _).mpr (.inl ⟨same, rfl⟩), change⟩
      · exact ⟨other, (calls_setStage here stage _ other).mpr (.inr ⟨same, there⟩), change⟩
    · rw [mem_singleton.mp new]
      exact ⟨_, (calls_setStage here stage i _).mpr (.inl ⟨rfl, rfl⟩), rfl⟩
  earlier k j known := by
    rw [indices_append]
    exact List.mem_append_left _ (inv.earlier k j ((earlier_setStage here stage j k).mp known))
  realTime := by
    have old : Respects (s.setStage i call stage).Earlier order :=
      inv.realTime.weaken (fun k _ j => (earlier_setStage here stage j k).mp)
    exact old.append (fun j known => inv.earlier i j ((earlier_setStage here stage j i).mp known))
  timed := by
    rw [List.map_append, List.pairwise_append]
    refine ⟨inv.timed, List.pairwise_singleton _ _, ?_⟩
    intro time member last final
    have ⟨entry, inside, same⟩ := mem_map.mp member
    rw [← same, mem_singleton.mp final]
    exact inv.past entry inside
  past entry member := by
    rcases mem_append.mp member with old | new
    · exact inv.past entry old
    · rw [mem_singleton.mp new]
      exact le_refl s.now
  same later past := by
    rw [result_append]
    exact (seen later past).trans (visible_alone_congr past call.change (inv.same later past))
  keeps := by
    refine meets_append.mpr ⟨inv.keeps, ?_, trivial⟩
    exact Made.dropsNone_congr (inv.same s.now (le_refl s.now)) drops
  sound j other there := by
    rcases (calls_setStage here stage j other).mp there with ⟨_, new⟩ | ⟨_, old⟩
    · exact new ▸ sound
    · exact inv.sound j other old

theorem calls_append {change : Change} {j : Nat} {other : Call}
    (there : (s.calls ++ [⟨change, s.succeededCalls, .authorizing⟩])[j]? = some other) :
    s.calls[j]? = some other ∨ other = ⟨change, s.succeededCalls, .authorizing⟩ := by
  by_cases inside : j < s.calls.length
  · rw [List.getElem?_append_left inside] at there
    exact .inl there
  · rw [List.getElem?_append_right (Nat.le_of_not_lt inside), List.getElem?_singleton] at there
    split at there
    · exact .inr (some.inj there).symm
    · cases there

theorem calls_append_left {later : List Call} {j : Nat} {other : Call} (there : s.calls[j]? = some other) :
    (s.calls ++ later)[j]? = some other := by
  rw [List.getElem?_append_left (List.getElem?_eq_some_iff.mp there).1]
  exact there

theorem Inv.succeeded (inv : Inv start s order) (j : Nat) (member : j ∈ s.succeededCalls) : j ∈ indices order := by
  have stage := of_decide_eq_true (mem_filter.mp member).2
  have ⟨other, there, finished⟩ := map_eq_some_iff.mp stage
  exact (inv.took j).mpr ⟨other, there, by rw [Call.took, finished]⟩

theorem Inv.begin (inv : Inv start s order) (change : Change) :
    Inv start { s with calls := s.calls ++ [⟨change, s.succeededCalls, .authorizing⟩] } order where
  once := inv.once
  took j := by
    rw [inv.took j]
    constructor
    · intro ⟨other, there, took⟩
      exact ⟨other, calls_append_left there, took⟩
    · intro ⟨other, there, took⟩
      rcases calls_append there with old | new
      · exact ⟨other, old, took⟩
      · rw [new] at took
        cases took
  changes entry member := by
    have ⟨other, there, change⟩ := inv.changes entry member
    exact ⟨other, calls_append_left there, change⟩
  earlier k j known := by
    have ⟨other, there, before⟩ := known
    rcases calls_append there with old | new
    · exact inv.earlier k j ⟨other, old, before⟩
    · rw [new] at before
      exact inv.succeeded j before
  realTime := by
    refine inv.realTime.weaken (fun k member j known => ?_)
    have ⟨other, there, before⟩ := known
    have ⟨old, inside, _⟩ := (inv.took k).mp member
    have same := some.inj ((calls_append_left inside).symm.trans there)
    exact ⟨old, inside, same ▸ before⟩
  timed := inv.timed
  past := inv.past
  same := inv.same
  keeps := inv.keeps
  sound j other there := by
    rcases calls_append there with old | new
    · exact inv.sound j other old
    · rw [new]
      trivial

theorem Call.Sound.later {now later : Int} (order : now ≤ later) (sound : call.Sound now) : call.Sound later := by
  unfold Call.Sound at sound ⊢
  cases stage : call.stage with
  | writing target read new =>
    rw [stage] at sound
    have ⟨target, made, makes, seen⟩ := sound
    exact ⟨target, made, makes, fun time past => seen time (le_trans order past)⟩
  | reading target | found target document | listed target read =>
    rw [stage] at sound
    exact sound
  | authorizing | written | finished success => trivial

theorem Inv.pass (inv : Inv start s order) {later : Int} (past : s.now ≤ later) :
    Inv start { s with now := later } order where
  once := inv.once
  took := inv.took
  changes := inv.changes
  earlier := inv.earlier
  realTime := inv.realTime
  timed := inv.timed
  past entry member := le_trans (inv.past entry member) past
  same time after := inv.same time (le_trans past after)
  keeps := inv.keeps
  sound j other there := (inv.sound j other there).later past

/-! ### Each step -/

theorem sound_of_stage (inv : Inv start s order) (here : s.calls[i]? = some call)
    (stands : call.stage = stage) : Call.Sound s.now { call with stage := stage } := by
  rw [← stands]
  exact inv.sound i call here

theorem took_authorized (change : Change) (earlier : List Nat) (allowed : Bool) :
    Call.took ⟨change, earlier, authorized change allowed⟩ = false := by
  unfold authorized
  cases allowed with
  | false => rfl
  | true => cases change.target <;> rfl

theorem sound_authorized (now : Int) (change : Change) (earlier : List Nat) (allowed : Bool) :
    Call.Sound now ⟨change, earlier, authorized change allowed⟩ := by
  unfold authorized
  cases allowed with
  | false => trivial
  | true =>
    cases target : change.target with
    | none => trivial
    | some target => exact target

theorem makes_some_of_grantRole {recordName : JsString} {userId inst : Option JsString}
    {role : AssignedRole} {store : MongoDBPolicyStore}
    (found : (Change.grantRole recordName userId inst role).target = some target) :
    (Change.grantRole recordName userId inst role).makes (Store.find store target) ≠ none := by
  have ⟨subject, _, same⟩ := map_eq_some_iff.mp found
  rw [← same]
  exact Option.some_ne_none _

theorem Inv.read (inv : Inv start s order) (here : s.calls[i]? = some call) (stage : call.stage = .reading target) :
    ∃ order, Inv start (s.setStage i call (.found target (Store.find s.store target))) order := by
  have found : call.change.target = some target := sound_of_stage inv here stage
  have before : call.took = false := by rw [Call.took, stage]
  cases made : call.change.makes (Store.find s.store target) with
  | some new =>
    refine ⟨order, inv.quiet here ?_ found⟩
    rw [before]
    simp only [Call.took, made, Option.isNone_some]
  | none =>
    have after : Call.took { call with stage := .found target (Store.find s.store target) } = true := by
      simp only [Call.took, made, Option.isNone_none]
    have drops : Made.DropsNone s.store ⟨call.change, s.now⟩ := by
      cases change : call.change with
      | grantRole recordName userId inst role =>
        rw [change] at found made
        exact absurd made (makes_some_of_grantRole found)
      | grantMarkerPermission recordName marker permission => trivial
      | revokeMarkerPermission recordName marker permission => trivial
      | revokeRole recordName userId inst role => trivial
    have unchanged : call.change.alone s.store s.now = s.store := by
      rw [Change.alone, found]
      simp only
      rw [(call.change.makes_none_iff _ s.now).mpr made]
    have seen : ∀ later, s.now ≤ later →
        Store.visible later s.store = Store.visible later (call.change.alone s.store s.now) := by
      intro _ _
      rw [unchanged]
    exact ⟨_, inv.take here before after drops seen found⟩

theorem Inv.list (inv : Inv start s order) (here : s.calls[i]? = some call)
    {document : Document} (stage : call.stage = .found target document) :
    Inv start (s.setStage i call (.listed target (document.unexpired s.now))) order := by
  have found : call.change.target = some target := sound_of_stage inv here stage
  refine inv.quiet here ?_ found
  simp only [Call.took, stage]
  have nones := call.change.makes_none_iff document s.now
  cases made : call.change.makes document with
  | none => rw [nones.mpr made]
  | some new =>
    cases again : call.change.makes (document.unexpired s.now) with
    | none => cases made.symm.trans (nones.mp again)
    | some other => rfl

theorem Inv.send (inv : Inv start s order) (here : s.calls[i]? = some call)
    {read : Document} (stage : call.stage = .listed target read) :
    Inv start (s.setStage i call (sent call.change target read s.now)) order := by
  have found : call.change.target = some target := sound_of_stage inv here stage
  unfold sent
  cases made : call.change.makes read with
  | none =>
    refine inv.quiet here ?_ trivial
    simp only [Call.took, stage, made, Option.isNone_none]
  | some new =>
    refine inv.quiet here ?_ ⟨found, new, made, ?_⟩
    · simp only [Call.took, stage, made, Option.isNone_some]
    · exact fun later past => Document.unexpired_unexpired past new

theorem Inv.write (inv : Inv start s order) (here : s.calls[i]? = some call)
    {read new : Document} (stage : call.stage = .writing target read new)
    (same : call.change.outcome (read.unexpired s.now) =
      call.change.outcome ((Store.find s.store target).unexpired s.now))
    (drops : Made.DropsNone s.store ⟨call.change, s.now⟩) :
    ∃ order, Inv start { s.setStage i call .written with store := Store.put s.store target new } order := by
  have ⟨found, made, makes, seen⟩ : Call.Sound s.now { call with stage := .writing target read new } :=
    sound_of_stage inv here stage
  refine ⟨_, inv.take here ?_ rfl drops ?_ trivial⟩
  · rw [Call.took, stage]
  · intro later past
    rw [visible_put, seen later past, visible_alone past, found]
    simp only
    have outcome : call.change.outcome read = made := by rw [Change.outcome, makes, getD_some]
    rw [← outcome, ← Change.outcome_unexpired past, same, Change.outcome_unexpired past]

theorem Inv.finish (inv : Inv start s order) (here : s.calls[i]? = some call)
    (stage : call.stage = .written) : Inv start (s.setStage i call (.finished true)) order := by
  refine inv.quiet here ?_ trivial
  simp only [Call.took, stage]

theorem Inv.resume (inv : Inv start s order) (label : Label) (i : Nat) (next : Server)
    (ran : resume s i label = some next)
    (current : ∀ j, label = .write j → Current s (.write i)) : ∃ order, Inv start next order := by
  unfold PolicyChanges.resume at ran
  cases here : s.calls[i]? with
  | none => rw [here] at ran; cases ran
  | some call =>
    rw [here] at ran
    have ⟨made, advanced, same⟩ := map_eq_some_iff.mp ran
    rw [← same]
    unfold advance at advanced
    split at advanced <;> try contradiction
    · split at advanced <;> try contradiction
      rename_i stage
      rw [← some.inj advanced]
      refine ⟨order, inv.quiet here ?_ (sound_authorized _ _ _ _)⟩
      rw [took_authorized, Call.took, stage]
    · split at advanced <;> try contradiction
      rename_i stage
      rw [← some.inj advanced]
      exact inv.read here stage
    · split at advanced <;> try contradiction
      rename_i stage
      rw [← some.inj advanced]
      exact ⟨order, inv.list here stage⟩
    · split at advanced <;> try contradiction
      rename_i stage
      rw [← some.inj advanced]
      exact ⟨order, inv.send here stage⟩
    · split at advanced <;> try contradiction
      rename_i stage
      rw [← some.inj advanced]
      have ⟨outcome, drops⟩ := current _ rfl call _ _ _ here stage
      exact inv.write here stage outcome drops
    · split at advanced <;> try contradiction
      rename_i stage
      rw [← some.inj advanced]
      exact ⟨order, inv.finish here stage⟩

theorem Inv.step (inv : Inv start s order) (label : Label) (next : Server) (current : Current s label)
    (ran : step s label = some next) : ∃ order, Inv start next order := by
  cases label with
  | call change =>
    rw [← some.inj ran]
    exact ⟨order, inv.begin change⟩
  | pass later =>
    change (if s.now ≤ later then some { s with now := later } else none) = some next at ran
    split at ran
    · rename_i past
      rw [← some.inj ran]
      exact ⟨order, inv.pass past⟩
    · cases ran
  | authorize i allowed => exact inv.resume _ i next ran (fun j same => by cases same)
  | read i => exact inv.resume _ i next ran (fun j same => by cases same)
  | list i => exact inv.resume _ i next ran (fun j same => by cases same)
  | send i => exact inv.resume _ i next ran (fun j same => by cases same)
  | write i => exact inv.resume _ i next ran (fun _ _ => current)
  | finish i => exact inv.resume _ i next ran (fun j same => by cases same)

end Keeping

theorem Inv.reached {start : MongoDBPolicyStore} {now : Int} {s : Server}
    (reached : Reaches PolicyChanges.step Current (PolicyChanges.idle start now) s) : ∃ order, Inv start s order :=
  reached.invariant (fun s => ∃ order, Inv start s order) ⟨[], Inv.idle start now⟩
    (fun _ label next ⟨_, inv⟩ current ran => inv.step label next current ran)

/-! ### What an order of changes leaves -/

def Change.revokes (recordName : JsString) (subject : Subject) (role : JsString) : Change → Prop
  | revokeRole name userId inst other =>
    name = recordName ∧ targetSubject userId inst = some subject ∧ other = role
  | _ => False

def Change.grants (recordName : JsString) (subject : Subject) (role : JsString) : Change → Prop
  | grantRole name userId inst other =>
    name = recordName ∧ targetSubject userId inst = some subject ∧ other.role = role
  | _ => False

def Permitted (store : MongoDBPolicyStore) (recordName marker : JsString) (permission : Permission) : Prop :=
  ∃ policy, store.getUserPolicy recordName marker = some policy ∧ permission ∈ policy.document.permissions

/-- What stands of a change that the `later` ones do not take back. -/
def Stands (store : MongoDBPolicyStore) (now : Int) (later : List Change) : Change → Prop
  | .grantMarkerPermission recordName marker permission =>
    (∀ change ∈ later, change ≠ .revokeMarkerPermission recordName marker permission) →
      Permitted store recordName marker permission
  | .revokeMarkerPermission recordName marker permission =>
    (∀ change ∈ later, change ≠ .grantMarkerPermission recordName marker permission) →
      ¬ Permitted store recordName marker permission
  | .grantRole recordName userId inst role =>
    ∀ subject, targetSubject userId inst = some subject →
      (∀ change ∈ later, ¬ change.revokes recordName subject role.role) → role.lastsAfter now →
        ∃ assignment ∈ store.listRoles recordName subject now,
          assignment.role = role.role ∧ expiresBy role.expireTimeMs assignment.expireTimeMs
  | .revokeRole recordName userId inst role =>
    ∀ subject, targetSubject userId inst = some subject →
      (∀ change ∈ later, ¬ change.grants recordName subject role) →
        ∀ assignment ∈ store.listRoles recordName subject now, assignment.role ≠ role

section Standing

variable {store : MongoDBPolicyStore} {now : Int} {recordName marker : JsString} {subject : Subject}

theorem alone_grantMarkerPermission (permission : Permission) :
    (Change.grantMarkerPermission recordName marker permission).alone store now =
      match grantMarkerPermission (store.getUserPolicy recordName marker) permission with
      | none => store
      | some policy => store.updateUserPolicy recordName marker policy := by
  simp only [Change.alone, Change.target, Store.find, Document.unexpired, Change.makes]
  cases grantMarkerPermission (store.getUserPolicy recordName marker) permission <;> rfl

theorem alone_revokeMarkerPermission (permission : Permission) :
    (Change.revokeMarkerPermission recordName marker permission).alone store now =
      match revokeMarkerPermission (store.getUserPolicy recordName marker) permission with
      | none => store
      | some policy => store.updateUserPolicy recordName marker policy := by
  simp only [Change.alone, Change.target, Store.find, Document.unexpired, Change.makes]
  cases revokeMarkerPermission (store.getUserPolicy recordName marker) permission <;> rfl

theorem alone_grantRole (userId inst : Option JsString) (role : AssignedRole) :
    (Change.grantRole recordName userId inst role).alone store now =
      match targetSubject userId inst with
      | none => store
      | some subject => store.updateRoles recordName subject
          (makeNewRoles (store.listRoles recordName subject now) role) now := by
  simp only [Change.alone, Change.target]
  cases targetSubject userId inst <;> rfl

theorem alone_revokeRole (userId inst : Option JsString) (role : JsString) :
    (Change.revokeRole recordName userId inst role).alone store now =
      match targetSubject userId inst with
      | none => store
      | some subject => store.updateRoles recordName subject
          (withoutRole (store.listRoles recordName subject now) role) now := by
  simp only [Change.alone, Change.target]
  cases targetSubject userId inst <;> rfl

variable {permission : Permission} {change : Change} {assignment : AssignedRole}

theorem permitted_update {name other : JsString} {policy : UserPolicyRecord} :
    Permitted (store.updateUserPolicy name other policy) recordName marker permission ↔
      if recordName = name ∧ marker = other then permission ∈ policy.document.permissions
      else Permitted store recordName marker permission := by
  unfold Permitted MongoDBPolicyStore.getUserPolicy MongoDBPolicyStore.updateUserPolicy
  simp only
  split
  · simp only [some.injEq, exists_eq_left']
  · rfl

theorem permitted_iff : Permitted store recordName marker permission ↔
      permission ∈ ((store.getUserPolicy recordName marker).getD newPolicy).document.permissions := by
  unfold Permitted
  cases store.getUserPolicy recordName marker with
  | none => exact iff_of_false (fun ⟨_, found, _⟩ => by cases found) List.not_mem_nil
  | some policy => simp

theorem permitted_grant (permission granted : Permission) :
    Permitted ((Change.grantMarkerPermission recordName marker granted).alone store now)
        recordName marker permission ↔
      granted = permission ∨ Permitted store recordName marker permission := by
  rw [alone_grantMarkerPermission, grantMarkerPermission]
  by_cases inside : granted ∈ ((store.getUserPolicy recordName marker).getD newPolicy).document.permissions
  · simp only [if_pos inside]
    refine ⟨.inr, fun either => either.elim (fun same => ?_) id⟩
    exact permitted_iff.mpr (same ▸ inside)
  · simp only [if_neg inside]
    rw [permitted_update, if_pos ⟨rfl, rfl⟩, mem_append, mem_singleton, ← permitted_iff, or_comm, eq_comm]

theorem permitted_revoke (permission revoked : Permission) :
    Permitted ((Change.revokeMarkerPermission recordName marker revoked).alone store now)
        recordName marker permission ↔
      Permitted store recordName marker permission ∧ permission ≠ revoked := by
  rw [alone_revokeMarkerPermission]
  unfold revokeMarkerPermission
  cases found : store.getUserPolicy recordName marker with
  | none =>
    have absent : ¬ Permitted store recordName marker permission := by
      intro ⟨_, there, _⟩
      cases found.symm.trans there
    exact iff_of_false absent (fun both => absent both.1)
  | some policy =>
    have members : Permitted store recordName marker permission ↔ permission ∈ policy.document.permissions := by
      rw [permitted_iff, found, getD_some]
    simp only
    by_cases inside : revoked ∈ policy.document.permissions
    · simp only [if_pos inside]
      rw [permitted_update, if_pos ⟨rfl, rfl⟩, mem_filter, members, decide_eq_true_iff]
    · simp only [if_neg inside]
      rw [members]
      exact ⟨fun member => ⟨member, fun same => inside (same ▸ member)⟩, And.left⟩

theorem permitted_elsewhere (change : Change) (permission : Permission)
    (elsewhere : change.target ≠ some (.policy recordName marker)) :
    Permitted (change.alone store now) recordName marker permission ↔
      Permitted store recordName marker permission := by
  cases change with
  | grantMarkerPermission name other granted =>
    rw [alone_grantMarkerPermission]
    cases grantMarkerPermission (store.getUserPolicy name other) granted with
    | none => exact Iff.rfl
    | some policy =>
      rw [permitted_update, if_neg]
      exact fun same => elsewhere (by rw [same.1, same.2]; rfl)
  | revokeMarkerPermission name other revoked =>
    rw [alone_revokeMarkerPermission]
    cases revokeMarkerPermission (store.getUserPolicy name other) revoked with
    | none => exact Iff.rfl
    | some policy =>
      rw [permitted_update, if_neg]
      exact fun same => elsewhere (by rw [same.1, same.2]; rfl)
  | grantRole name userId inst role =>
    rw [alone_grantRole]
    cases targetSubject userId inst with
    | none => exact Iff.rfl
    | some subject => exact Iff.rfl
  | revokeRole name userId inst role =>
    rw [alone_revokeRole]
    cases targetSubject userId inst with
    | none => exact Iff.rfl
    | some subject => exact Iff.rfl

theorem of_policy_target (here : change.target = some (.policy recordName marker)) :
    ∃ permission, change = .grantMarkerPermission recordName marker permission ∨
      change = .revokeMarkerPermission recordName marker permission := by
  cases change with
  | grantMarkerPermission name m granted =>
    obtain ⟨rfl, rfl⟩ := Target.policy.inj (some.inj here)
    exact ⟨granted, .inl rfl⟩
  | revokeMarkerPermission name m revoked =>
    obtain ⟨rfl, rfl⟩ := Target.policy.inj (some.inj here)
    exact ⟨revoked, .inr rfl⟩
  | grantRole name userId inst role =>
    have ⟨_, _, same⟩ := map_eq_some_iff.mp here
    cases same
  | revokeRole name userId inst role =>
    have ⟨_, _, same⟩ := map_eq_some_iff.mp here
    cases same

/-- Only the call that revokes a permission takes it away. -/
theorem permitted_kept (other : change ≠ .revokeMarkerPermission recordName marker permission)
    (permitted : Permitted store recordName marker permission) :
    Permitted (change.alone store now) recordName marker permission := by
  by_cases here : change.target = some (.policy recordName marker)
  · obtain ⟨found, rfl | rfl⟩ := of_policy_target here
    · exact (permitted_grant _ _).mpr (.inr permitted)
    · exact (permitted_revoke _ _).mpr ⟨permitted, fun equal => other (by rw [equal])⟩
  · exact (permitted_elsewhere change permission here).mpr permitted

/-- Only the call that grants a permission brings it. -/
theorem permitted_before (other : change ≠ .grantMarkerPermission recordName marker permission)
    (permitted : Permitted (change.alone store now) recordName marker permission) :
    Permitted store recordName marker permission := by
  by_cases here : change.target = some (.policy recordName marker)
  · obtain ⟨found, rfl | rfl⟩ := of_policy_target here
    · exact ((permitted_grant _ _).mp permitted).resolve_left (fun equal => other (by rw [equal]))
    · exact ((permitted_revoke _ _).mp permitted).1
  · exact (permitted_elsewhere change permission here).mp permitted

theorem roles_grant (name m : JsString) (granted : Permission) :
    ((Change.grantMarkerPermission name m granted).alone store now).roles = store.roles := by
  rw [alone_grantMarkerPermission]
  cases grantMarkerPermission (store.getUserPolicy name m) granted <;> rfl

theorem roles_revoke (name m : JsString) (revoked : Permission) :
    ((Change.revokeMarkerPermission name m revoked).alone store now).roles = store.roles := by
  rw [alone_revokeMarkerPermission]
  cases revokeMarkerPermission (store.getUserPolicy name m) revoked <;> rfl

theorem mem_updateRoles {name : JsString} {other : Subject} {roles : List AssignedRole} :
    assignment ∈ (store.updateRoles name other roles now).roles recordName subject ↔
      if recordName = name ∧ subject = other then assignment ∈ roles ∧ assignment.lastsAfter now
      else assignment ∈ store.roles recordName subject := by
  unfold MongoDBPolicyStore.updateRoles
  simp only
  split
  · exact mem_filter
  · rfl

theorem role_before (member : assignment ∈ (change.alone store now).roles recordName subject) :
    assignment ∈ store.roles recordName subject ∧ ¬ change.revokes recordName subject assignment.role ∨
      change.grants recordName subject assignment.role := by
  cases change with
  | grantMarkerPermission name m granted =>
    rw [roles_grant] at member
    exact .inl ⟨member, id⟩
  | revokeMarkerPermission name m revoked =>
    rw [roles_revoke] at member
    exact .inl ⟨member, id⟩
  | grantRole name userId inst role =>
    rw [alone_grantRole] at member
    cases target : targetSubject userId inst with
    | none => rw [target] at member; exact .inl ⟨member, id⟩
    | some found =>
      simp only [target] at member
      rw [mem_updateRoles] at member
      split at member
      · rename_i same
        rcases mem_append.mp member.1 with old | new
        · rw [← same.1, ← same.2] at old
          exact .inl ⟨(mem_filter.mp (mem_filter.mp old).1).1, id⟩
        · rw [mem_singleton.mp new]
          exact .inr ⟨same.1.symm, same.2 ▸ target, rfl⟩
      · exact .inl ⟨member, id⟩
  | revokeRole name userId inst role =>
    rw [alone_revokeRole] at member
    cases target : targetSubject userId inst with
    | none =>
      rw [target] at member
      exact .inl ⟨member, fun ⟨_, found, _⟩ => by cases target.symm.trans found⟩
    | some found =>
      simp only [target] at member
      rw [mem_updateRoles] at member
      split at member
      · rename_i same
        have ⟨listed, differs⟩ := mem_filter.mp member.1
        rw [← same.1, ← same.2] at listed
        refine .inl ⟨(mem_filter.mp listed).1, fun ⟨_, _, equal⟩ => ?_⟩
        exact of_decide_eq_true differs equal.symm
      · rename_i elsewhere
        refine .inl ⟨member, fun ⟨name, found, _⟩ => elsewhere ⟨name.symm, ?_⟩⟩
        exact (some.inj (target.symm.trans found)).symm

/-- The assignment that a call grants is there, until it expires. -/
theorem role_granted {userId inst : Option JsString} {role : AssignedRole} (lasts : role.lastsAfter now)
    (target : targetSubject userId inst = some subject) :
    role ∈ ((Change.grantRole recordName userId inst role).alone store now).roles recordName subject := by
  rw [alone_grantRole, target]
  simp only
  rw [mem_updateRoles, if_pos ⟨rfl, rfl⟩]
  exact ⟨List.mem_append_right _ (mem_singleton.mpr rfl), lasts⟩

theorem role_kept {later : Int} (order : now ≤ later)
    (other : ¬ change.revokes recordName subject assignment.role) (lasts : assignment.lastsAfter later)
    (drops : Made.DropsNone store ⟨change, now⟩) (member : assignment ∈ store.roles recordName subject) :
    assignment ∈ (change.alone store now).roles recordName subject := by
  have listed : assignment ∈ store.listRoles recordName subject now :=
    mem_filter.mpr ⟨member, lastsAfter_mono order lasts⟩
  cases change with
  | grantMarkerPermission name m granted => rwa [roles_grant]
  | revokeMarkerPermission name m revoked => rwa [roles_revoke]
  | grantRole name userId inst role =>
    rw [alone_grantRole]
    cases target : targetSubject userId inst with
    | none => exact member
    | some found =>
      rw [mem_updateRoles]
      split
      · rename_i same
        refine ⟨List.mem_append_left _ (mem_filter.mpr ⟨?_, ?_⟩), lastsAfter_mono order lasts⟩
        · rw [← same.1, ← same.2]
          exact listed
        · apply decide_eq_true
          by_cases equal : assignment.role = role.role
          · exact .inr (drops found target assignment (by rw [← same.1, ← same.2]; exact listed) equal)
          · exact .inl equal
      · exact member
  | revokeRole name userId inst role =>
    rw [alone_revokeRole]
    cases target : targetSubject userId inst with
    | none => exact member
    | some found =>
      rw [mem_updateRoles]
      split
      · rename_i same
        refine ⟨mem_filter.mpr ⟨?_, ?_⟩, lastsAfter_mono order lasts⟩
        · rw [← same.1, ← same.2]
          exact listed
        · apply decide_eq_true
          intro equal
          exact other ⟨same.1.symm, same.2 ▸ target, equal.symm⟩
      · exact member

end Standing

theorem expiresBy_refl (time : Option Int) : expiresBy time time = true := by
  cases time with
  | none => rfl
  | some time => exact decide_eq_true (le_refl time)

theorem lastsAfter_of_expiresBy {first second : AssignedRole} {time : Int}
    (order : expiresBy first.expireTimeMs second.expireTimeMs) (lasts : first.lastsAfter time) :
    second.lastsAfter time := by
  unfold AssignedRole.lastsAfter at lasts ⊢
  cases late : second.expireTimeMs with
  | none => rfl
  | some last =>
    cases early : first.expireTimeMs with
    | none => rw [early, late] at order; cases order
    | some before =>
      rw [early, late] at order
      rw [early] at lasts
      exact decide_eq_true (lt_of_lt_of_le (of_decide_eq_true lasts) (of_decide_eq_true order))

theorem stands_after {start : MongoDBPolicyStore} {order front back : List (Entry Made)} {entry : Entry Made}
    {now : Int} (split : order = front ++ entry :: back) (past : ∀ entry ∈ order, entry.op.time ≤ now)
    (meets : Meets Made.on Made.DropsNone start order) :
    Stands (result Made.on start order) now (back.map (fun later => later.op.change)) entry.op.change := by
  have before : ∀ later ∈ back, later.op.time ≤ now := fun later member =>
    past later (split ▸ List.mem_append_right _ (List.mem_cons_of_mem _ member))
  have first : entry.op.time ≤ now := past entry (split ▸ List.mem_append_right _ List.mem_cons_self)
  have changes : ∀ later ∈ back, later.op.change ∈ back.map (fun later => later.op.change) :=
    fun later member => mem_map.mpr ⟨later, member, rfl⟩
  rw [split] at meets ⊢
  unfold Stands
  split
  · rename_i recordName marker permission change
    intro others
    refine result_brings (P := fun state => Permitted state recordName marker permission)
      (fun state => ?_) (fun later member state _ => ?_) meets
    · rw [Made.on, change]
      exact (permitted_grant _ _).mpr (.inl rfl)
    · exact permitted_kept (others _ (changes later member))
  · rename_i recordName marker permission change
    intro others
    refine result_brings (P := fun state => ¬ Permitted state recordName marker permission)
      (fun state => ?_) (fun later member state _ => ?_) meets
    · rw [Made.on, change]
      exact fun permitted => ((permitted_revoke _ _).mp permitted).2 rfl
    · exact fun absent permitted => absent (permitted_before (others _ (changes later member)) permitted)
  · rename_i recordName userId inst role change
    intro subject target others lasts
    have stays : ∃ assignment ∈ (result Made.on start (front ++ entry :: back)).roles recordName subject,
        assignment.role = role.role ∧ expiresBy role.expireTimeMs assignment.expireTimeMs := by
      refine result_brings (P := fun state => ∃ assignment ∈ state.roles recordName subject,
          assignment.role = role.role ∧ expiresBy role.expireTimeMs assignment.expireTimeMs)
        (fun state => ?_) (fun later member state drops there => ?_) meets
      · rw [Made.on, change]
        exact ⟨role, role_granted (lastsAfter_mono first lasts) target, rfl, expiresBy_refl _⟩
      · have ⟨assignment, inside, same, longer⟩ := there
        have others := others _ (changes later member)
        rw [← same] at others
        exact ⟨assignment, role_kept (before later member) others (lastsAfter_of_expiresBy longer lasts)
          drops inside, same, longer⟩
    have ⟨assignment, inside, same, longer⟩ := stays
    exact ⟨assignment, mem_filter.mpr ⟨inside, lastsAfter_of_expiresBy longer lasts⟩, same, longer⟩
  · rename_i recordName userId inst role change
    intro subject target others assignment member
    refine result_brings (P := fun state => ∀ assignment ∈ state.roles recordName subject,
        assignment.role ≠ role) (fun state assignment inside equal => ?_)
      (fun later member state _ absent assignment inside equal => ?_) meets assignment
      (mem_filter.mp member).1
    · rw [Made.on, change] at inside
      rcases role_before inside with ⟨_, kept⟩ | granted
      · exact kept ⟨rfl, target, equal.symm⟩
      · exact granted
    · rcases role_before inside with ⟨old, _⟩ | granted
      · exact absent assignment old equal
      · exact others _ (changes later member) (equal ▸ granted)

theorem stands_congr {store other : MongoDBPolicyStore} {now : Int} {later : List Change} {change : Change}
    (same : Store.visible now store = Store.visible now other) (stands : Stands store now later change) :
    Stands other now later change := by
  have policies : ∀ recordName marker permission,
      Permitted store recordName marker permission ↔ Permitted other recordName marker permission := by
    intro recordName marker permission
    have equal := congrArg (fun seen => MongoDBPolicyStore.policies seen recordName marker) same
    change store.getUserPolicy recordName marker = other.getUserPolicy recordName marker at equal
    rw [Permitted, Permitted, equal]
  have roles : ∀ recordName subject, store.listRoles recordName subject now = other.listRoles recordName subject now :=
    fun recordName subject => congrArg (fun seen => MongoDBPolicyStore.roles seen recordName subject) same
  unfold Stands at stands ⊢
  split
  · exact fun others => (policies _ _ _).mp (stands others)
  · exact fun others permitted => stands others ((policies _ _ _).mpr permitted)
  · intro subject target others lasts
    rw [← roles]
    exact stands subject target others lasts
  · intro subject target others
    rw [← roles]
    exact stands subject target others

/-! ### Runs -/

/-- The calls that succeeded, one after the other in an order that keeps to real time, leave what is
stored. -/
structure Sequential (start : MongoDBPolicyStore) (s : Server) (order : List (Entry Made)) : Prop where
  once : (indices order).Nodup
  succeeded : ∀ i, i ∈ indices order ↔
    ∃ call, s.calls[i]? = some call ∧ call.stage = .finished true
  changes : ∀ entry ∈ order, ∃ call, s.calls[entry.index]? = some call ∧ call.change = entry.op.change
  realTime : Respects s.Earlier order
  timed : (order.map (fun entry => entry.op.time)).Pairwise (fun first second => first ≤ second)
  past : ∀ entry ∈ order, entry.op.time ≤ s.now
  result : Store.visible s.now s.store = Store.visible s.now (result Made.on start order)

/-- Calls that are current when they write leave what they leave one after the other, and what each brings
stands unless a later one takes it back. -/
theorem changes_in_sequence (start : MongoDBPolicyStore) (now : Int) (s : Server)
    (reached : Reaches step Current (idle start now) s)
    (finished : ∀ call ∈ s.calls, ∃ success, call.stage = .finished success) :
    ∃ order, Sequential start s order ∧ ∀ front entry back, order = front ++ entry :: back →
      Stands s.store s.now (back.map (fun later => later.op.change)) entry.op.change := by
  have ⟨order, inv⟩ := Inv.reached reached
  refine ⟨order, ⟨inv.once, fun i => (inv.took i).trans ?_, inv.changes, inv.realTime, inv.timed, inv.past,
    inv.same s.now (le_refl s.now)⟩, fun front entry back split => ?_⟩
  · constructor
    · intro ⟨call, here, took⟩
      have ⟨success, stage⟩ := finished call (List.mem_of_getElem? here)
      cases success with
      | true => exact ⟨call, here, stage⟩
      | false => rw [Call.took, stage] at took; cases took
    · intro ⟨call, here, stage⟩
      exact ⟨call, here, by rw [Call.took, stage]⟩
  · exact stands_congr (inv.same s.now (le_refl s.now)).symm (stands_after split inv.past inv.keeps)

/-! ### Two calls at once -/

def readPermission : Permission := .data .read .everyone .all

def countPermission : Permission := .event .count .everyone .all

def revokesRead : Change :=
  .revokeMarkerPermission (lit ['r']) (lit ['m']) readPermission

def grantsCount : Change :=
  .grantMarkerPermission (lit ['r']) (lit ['m']) countPermission

def readable : MongoDBPolicyStore :=
  MongoDBPolicyStore.empty.updateUserPolicy (lit ['r']) (lit ['m'])
    { document := ⟨[readPermission]⟩, markers := [accountMarker] }

/-- A call that meets no other, up to its writing. -/
def untilSent (i : Nat) (change : Change) : List Label :=
  [.call change, .authorize i true, .read i, .list i, .send i]

theorem reaches_unwritten {s next : Server} (labels : List Label)
    (unwritten : ∀ label ∈ labels, ∀ i, label ≠ .write i) (ran : runAll step s labels = some next) :
    Reaches step Current s next := by
  refine reaches_of_runAll labels ?_ ran
  clear ran
  induction labels generalizing s with
  | nil => trivial
  | cons label rest ih =>
    refine ⟨?_, fun next _ => ih (fun other member => unwritten other (List.mem_cons_of_mem _ member))⟩
    unfold Current
    split
    · rename_i i
      exact absurd rfl (unwritten _ List.mem_cons_self i)
    · trivial

theorem reaches_written {start s : Server} {i : Nat} {call : Call} {target : Target} {read new : Document}
    (reached : Reaches step Current start s) (here : s.calls[i]? = some call)
    (stage : call.stage = .writing target read new)
    (same : call.change.outcome (read.unexpired s.now) =
      call.change.outcome ((Store.find s.store target).unexpired s.now))
    (drops : Made.DropsNone s.store ⟨call.change, s.now⟩) :
    Reaches step Current start { s.setStage i call .written with store := Store.put s.store target new } := by
  refine reached.step (.write i) ?_ ?_
  · intro other target' read' new' there stage'
    rw [← some.inj (here.symm.trans there)] at stage' ⊢
    cases stage.symm.trans stage'
    exact ⟨same, drops⟩
  · change resume s i (.write i) = _
    simp only [resume, here, advance, stage, Option.map_some]

theorem reaches_one_by_one : ∃ s, Reaches step Current (idle readable 0) s ∧
    s.calls = [⟨revokesRead, [], .finished true⟩, ⟨grantsCount, [0], .finished true⟩] := by
  have unwritten : ∀ i change, ∀ label ∈ untilSent i change, ∀ j, label ≠ .write j := by
    intro i change label member j same
    rw [same] at member
    simp [untilSent] at member
  have finishing : ∀ i, ∀ label ∈ [Label.finish i], ∀ j, label ≠ .write j := by simp
  have sent : Reaches step Current (idle readable 0) _ :=
    reaches_unwritten (untilSent 0 revokesRead) (unwritten 0 revokesRead) rfl
  have wrote := reaches_written (i := 0) sent rfl rfl rfl trivial
  have finished := wrote.trans (reaches_unwritten [.finish 0] (finishing 0) rfl)
  have sentNext := finished.trans (reaches_unwritten (untilSent 1 grantsCount) (unwritten 1 grantsCount) rfl)
  have wroteNext := reaches_written (i := 1) sentNext rfl rfl rfl trivial
  exact ⟨_, wroteNext.trans (reaches_unwritten [.finish 1] (finishing 1) rfl), rfl⟩

theorem one_by_one_in_sequence : ∃ s order, s.calls.length = 2 ∧ Sequential readable s order := by
  have ⟨s, reached, calls⟩ := reaches_one_by_one
  have finished : ∀ call ∈ s.calls, ∃ success, call.stage = .finished success := by
    rw [calls]
    intro call member
    rcases List.mem_pair.mp member with first | second
    · exact ⟨true, by rw [first]⟩
    · exact ⟨true, by rw [second]⟩
  have ⟨order, sequential, _⟩ := changes_in_sequence readable 0 s reached finished
  exact ⟨s, order, by rw [calls]; rfl, sequential⟩

def crossing : List Label :=
  [ .call revokesRead, .call grantsCount, .authorize 0 true, .authorize 1 true, .read 0, .read 1, .list 0,
    .list 1, .send 0, .send 1, .write 0, .write 1, .finish 0, .finish 1 ]

theorem runs_crossing : ∃ s, runAll step (idle readable 0) crossing = some s ∧
    s.calls = [⟨revokesRead, [], .finished true⟩, ⟨grantsCount, [], .finished true⟩] ∧
    s.store.getUserPolicy (lit ['r']) (lit ['m']) =
      some { document := ⟨[readPermission, countPermission]⟩, markers := [accountMarker] } :=
  ⟨_, rfl, rfl, rfl⟩

/-- A permission that was revoked and that no call grants is there, as after no order of the calls. -/
theorem revoked_permission_returns : ∃ s, runAll step (idle readable 0) crossing = some s ∧
    s.calls = [⟨revokesRead, [], .finished true⟩, ⟨grantsCount, [], .finished true⟩] ∧
    Permitted s.store (lit ['r']) (lit ['m']) readPermission ∧
    ¬ ∃ order, Sequential readable s order := by
  have ⟨s, ran, calls, stored⟩ := runs_crossing
  have permitted : Permitted s.store (lit ['r']) (lit ['m']) readPermission :=
    ⟨_, stored, List.mem_cons_self⟩
  refine ⟨s, ran, calls, permitted, fun ⟨order, sequential⟩ => ?_⟩
  have first : s.calls[0]? = some ⟨revokesRead, [], .finished true⟩ := by rw [calls]; rfl
  have ⟨entry, member, index⟩ := mem_map.mp ((sequential.succeeded 0).mpr ⟨_, first, rfl⟩)
  have ⟨front, back, split⟩ := List.append_of_mem member
  have revokes : entry.op.change = revokesRead := by
    have ⟨call, here, change⟩ := sequential.changes entry member
    rw [index, first] at here
    rw [← change, ← Option.some.inj here]
  have others : ∀ later ∈ order, later.op.change ≠
      .grantMarkerPermission (lit ['r']) (lit ['m']) readPermission := by
    intro later inside same
    have ⟨call, here, change⟩ := sequential.changes later inside
    have known := List.mem_of_getElem? here
    rw [calls] at known
    rw [same] at change
    rcases List.mem_pair.mp known with revoking | granting
    · rw [revoking] at change
      cases change
    · rw [granting] at change
      cases change
  have absent : ¬ Permitted (result Made.on readable order) (lit ['r']) (lit ['m'])
      readPermission := by
    rw [split]
    refine result_brings (Q := fun _ _ => True)
      (P := fun state => ¬ Permitted state (lit ['r']) (lit ['m']) readPermission)
      (fun state => ?_) (fun later inside state _ gone there => gone (permitted_before ?_ there))
      (meets_of_all (fun _ _ => trivial) _ _)
    · rw [Made.on, revokes]
      exact fun there => ((permitted_revoke _ _).mp there).2 rfl
    · exact others later (split ▸ List.mem_append_right _ (List.mem_cons_of_mem _ inside))
  have same := congrArg (fun seen => MongoDBPolicyStore.policies seen (lit ['r'])
    (lit ['m'])) sequential.result
  have ⟨policy, found, inside⟩ := permitted
  exact absent ⟨policy, same.symm.trans found, inside⟩

end CasualOS.PolicyChanges
