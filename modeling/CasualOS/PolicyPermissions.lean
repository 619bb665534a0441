import CasualOS.JsString

/-! Permissions, policy documents and `MongoDBPolicyStore`, which gives copies of its documents. -/

namespace CasualOS

open JsString (lit)

/-- `string | true`: one role, or every role. -/
inductive PermissionRole where
  | everyone
  | named (name : JsString)
  deriving DecidableEq, Repr

/-- `string | true`: everything, or what a regular expression matches. -/
inductive Pattern where
  | all
  | regex (source : JsString)
  deriving DecidableEq, Repr

/-- `string[] | boolean`. -/
inductive UserIds where
  | anyone
  | noOne
  | only (ids : List JsString)
  deriving DecidableEq, Repr

/-- `string | boolean`. -/
inductive Instances where
  | any
  | none
  | regex (source : JsString)
  deriving DecidableEq, Repr

/-- `true | string[]`. -/
inductive MimeTypes where
  | all
  | only (types : List JsString)
  deriving DecidableEq, Repr

inductive DataAction where
  | create | read | update | delete | list
  deriving DecidableEq, Repr

inductive FileAction where
  | create | read | update | delete
  deriving DecidableEq, Repr

inductive EventAction where
  | increment | count | update
  deriving DecidableEq, Repr

inductive PolicyAction where
  | read | grantPermission | revokePermission | list | assign | unassign
  deriving DecidableEq, Repr

inductive RoleAction where
  | grant | revoke | read | list | update
  deriving DecidableEq, Repr

/-- `AvailablePermissions['type']`. -/
inductive PermissionType where
  | data (action : DataAction)
  | file (action : FileAction)
  | event (action : EventAction)
  | policy (action : PolicyAction)
  | role (action : RoleAction)
  | recordKeyCreate
  deriving DecidableEq, Repr

/-- `AvailablePermissions`. -/
inductive Permission where
  | data (action : DataAction) (role : PermissionRole) (addresses : Pattern)
  | file (action : FileAction) (role : PermissionRole) (maxFileSizeInBytes : Option Rat)
      (allowedMimeTypes : Option MimeTypes)
  | event (action : EventAction) (role : PermissionRole) (events : Pattern)
  | policy (action : PolicyAction) (role : PermissionRole) (policies : Pattern)
  | roleGrant (role : PermissionRole) (roles : Pattern) (userIds : UserIds) (instances : Instances)
      (maxDurationMs : Option Rat)
  | roleRevoke (role : PermissionRole) (roles : Pattern) (userIds : UserIds) (instances : Instances)
  | roleRead (role : PermissionRole) (roles : Pattern)
  | roleList (role : PermissionRole) (roles : Pattern)
  | roleUpdate (role : PermissionRole) (roles : Pattern)
  | recordKeyCreate (role : PermissionRole) (recordNames : Pattern)
  deriving DecidableEq, Repr

namespace Permission

def type : Permission → PermissionType
  | data action _ _ => .data action
  | file action _ _ _ => .file action
  | event action _ _ => .event action
  | policy action _ _ => .policy action
  | roleGrant _ _ _ _ _ => .role .grant
  | roleRevoke _ _ _ _ => .role .revoke
  | roleRead _ _ => .role .read
  | roleList _ _ => .role .list
  | roleUpdate _ _ => .role .update
  | recordKeyCreate _ _ => .recordKeyCreate

def role : Permission → PermissionRole
  | data _ role _ | file _ role _ _ | event _ role _ | policy _ role _ | roleGrant role _ _ _ _
  | roleRevoke role _ _ _ | roleRead role _ | roleList role _ | roleUpdate role _
  | recordKeyCreate role _ => role

end Permission

structure PolicyDocument where
  permissions : List Permission
  deriving DecidableEq, Repr

def adminRoleName : JsString := lit ['a', 'd', 'm', 'i', 'n']

def recordOwnerRoleName : JsString :=
  lit ['r', 'e', 'c', 'o', 'r', 'd', 'O', 'w', 'n', 'e', 'r']

def publicReadMarker : JsString := lit ['p', 'u', 'b', 'l', 'i', 'c', 'R', 'e', 'a', 'd']

def accountMarker : JsString := lit ['a', 'c', 'c', 'o', 'u', 'n', 't']

def adminRole : PermissionRole := .named adminRoleName

def defaultAnyResourcePolicyDocument : PolicyDocument where
  permissions :=
    [ .data .create adminRole .all, .data .read adminRole .all, .data .update adminRole .all,
      .data .delete adminRole .all, .data .list adminRole .all,
      .file .create adminRole none none, .file .read adminRole none none,
      .file .delete adminRole none none, .file .update adminRole none none,
      .event .increment adminRole .all, .event .count adminRole .all, .event .update adminRole .all,
      .policy .grantPermission adminRole .all, .policy .revokePermission adminRole .all,
      .policy .assign adminRole .all, .policy .unassign adminRole .all,
      .policy .list adminRole .all, .policy .read adminRole .all,
      .roleGrant adminRole .all .anyone .any none, .roleRevoke adminRole .all .anyone .any,
      .roleRead adminRole .all, .roleList adminRole .all, .roleUpdate adminRole .all,
      .recordKeyCreate (.named recordOwnerRoleName) .all ]

def defaultPublicReadPolicyDocument : PolicyDocument where
  permissions :=
    [ .data .read .everyone .all, .data .list .everyone .all, .file .read .everyone none none,
      .event .count .everyone .all ]

/-! ### The store -/

structure UserPolicyRecord where
  document : PolicyDocument
  markers : List JsString
  deriving DecidableEq, Repr

/-- `expireTimeMs` is missing where the code has `null` or `Infinity`. -/
structure AssignedRole where
  role : JsString
  expireTimeMs : Option Int
  deriving DecidableEq, Repr

inductive Subject where
  | user (id : JsString)
  | inst (id : JsString)
  deriving DecidableEq, Repr

/-- `getExpireTime` compared with a time. -/
def AssignedRole.lastsAfter (assignment : AssignedRole) (time : Int) : Bool :=
  match assignment.expireTimeMs with
  | none => true
  | some expireTimeMs => expireTimeMs > time

structure MongoDBPolicyStore where
  policies : JsString → JsString → Option UserPolicyRecord
  roles : JsString → Subject → List AssignedRole

namespace MongoDBPolicyStore

def empty : MongoDBPolicyStore where
  policies _ _ := none
  roles _ _ := []

/-- Nothing where the code answers with `policy_not_found`. -/
def getUserPolicy (s : MongoDBPolicyStore) (recordName marker : JsString) : Option UserPolicyRecord :=
  s.policies recordName marker

def updateUserPolicy (s : MongoDBPolicyStore) (recordName marker : JsString) (policy : UserPolicyRecord) :
    MongoDBPolicyStore :=
  { s with
    policies := fun name m =>
      if name = recordName ∧ m = marker then some policy else s.policies name m }

def listPoliciesForMarker (s : MongoDBPolicyStore) (recordName marker : JsString) :
    List PolicyDocument :=
  defaultAnyResourcePolicyDocument ::
    ((if marker = publicReadMarker then [defaultPublicReadPolicyDocument] else []) ++
      ((s.policies recordName marker).map (fun policy => policy.document)).toList)

/-- `listRolesForUser` and `listRolesForInst`. -/
def listRoles (s : MongoDBPolicyStore) (recordName : JsString) (subject : Subject) (now : Int) :
    List AssignedRole :=
  (s.roles recordName subject).filter (fun assignment => assignment.lastsAfter now)

/-- `updateUserRoles` and `updateInstRoles`. -/
def updateRoles (s : MongoDBPolicyStore) (recordName : JsString) (subject : Subject)
    (roles : List AssignedRole) (now : Int) : MongoDBPolicyStore :=
  { s with
    roles := fun name other =>
      if name = recordName ∧ other = subject then
        roles.filter (fun assignment => assignment.lastsAfter now)
      else s.roles name other }

end MongoDBPolicyStore

end CasualOS
