import SoulAuth.Services.Rbac

/-! # The administration of roles

The operations under `/api/rbac` that ask for a permission, with the
permission that each of them asks for. The writes that touch a role and the
rows that refer to it are a system of their own as well: any number of them at
a time, statement by statement.
-/

namespace SoulAuth

open Framework Framework.System

/-! ## The operations -/

/-- The operations that ask for a permission. Where a row is created, the key
    is the one that the database draws for it. -/
inductive RoleOperation
  | createRole (request : CreateRoleRequest) (key : Str)
  | listRoles (page limit : Option Nat)
  | getRole (roleName : Str)
  | updateRole (roleName : Str) (request : UpdateRoleRequest)
  | deleteRole (roleName : Str)
  | createPermission (request : CreatePermissionRequest) (key : Str)
  | listPermissions (page limit : Option Nat)
  | getPermission (permissionName : Str)
  | getRolePermissions (roleName : Str)
  | assignPermissionToRole (roleName permissionName : Str)
  | removePermissionFromRole (roleName permissionName : Str)
  | assignRoleToUser (userId roleName : Str)
  | removeRoleFromUser (userId roleName : Str)
  deriving DecidableEq, Repr

/-- The permission that an operation asks for. -/
def RoleOperation.permission : RoleOperation → Str
  | createRole _ _ | updateRole _ _ | assignRoleToUser _ _ | removeRoleFromUser _ _ =>
    Names.rolesWrite
  | listRoles _ _ | getRole _ | getRolePermissions _ => Names.rolesRead
  | deleteRole _ => Names.rolesDelete
  | createPermission _ _ | assignPermissionToRole _ _ | removePermissionFromRole _ _ =>
    Names.permissionsWrite
  | listPermissions _ _ | getPermission _ => Names.permissionsRead

/-- What the operations answer. -/
inductive RoleReply
  | role (r : RoleResponse)
  | roles (rs : List RoleResponse)
  | permission (p : Permission)
  | permissions (ps : List Permission)
  | names (permissions : List Str)
  | noContent
  deriving DecidableEq, Repr

variable [Platform]

/-- `get_role`: a failure to read the permissions leaves them out. -/
def getRole (roleName : Str) : RoleReq AuthError RoleResponse := do
  let role ← findRole roleName
  let permissions : Except AuthError (List Str) ← (getRolePermissions roleName).attempt
  match permissions with
  | .ok names => return { RoleResponse.of role with permissions := names }
  | .error _ => return .of role

/-- What an operation does on behalf of the user `operator`. -/
def RoleOperation.program (operator : Str) : RoleOperation → RoleReq AuthError RoleReply
  | createRole request key => return .role (← SoulAuth.createRole request key)
  | listRoles page limit => return .roles (← SoulAuth.listRoles page limit)
  | getRole roleName => return .role (← SoulAuth.getRole roleName)
  | updateRole roleName request => return .role (← SoulAuth.updateRole roleName request)
  | deleteRole roleName => do
    SoulAuth.deleteRole roleName
    return .noContent
  | createPermission request key =>
    return .permission (← SoulAuth.createPermission request key)
  | listPermissions page limit => return .permissions (← SoulAuth.listPermissions page limit)
  | getPermission permissionName => return .permission (← findPermission permissionName)
  | getRolePermissions roleName => return .names (← SoulAuth.getRolePermissions roleName)
  | assignPermissionToRole roleName permissionName => do
    SoulAuth.assignPermissionToRole roleName permissionName operator
    return .noContent
  | removePermissionFromRole roleName permissionName => do
    SoulAuth.removePermissionFromRole roleName permissionName
    return .noContent
  | assignRoleToUser userId roleName => do
    SoulAuth.assignRoleToUser (normalizeUserId userId) roleName operator
    return .noContent
  | removeRoleFromUser userId roleName => do
    SoulAuth.removeRoleFromUser (normalizeUserId userId) roleName
    return .noContent

/-! ## The writes on their own -/

/-- A request of an administrator, or a grant by the system itself. -/
inductive RbacOperation
  | deleteRole (roleName : Str)
  | assignRoleToUser (userId roleName assignedBy : Str)
  | assignRoleAsSystem (userId roleName : Str)
  | removeRoleFromUser (userId roleName : Str)
  | assignPermissionToRole (roleName permissionName grantedBy : Str)
  | removePermissionFromRole (roleName permissionName : Str)
  deriving DecidableEq, Repr

/-- The program that serves a request. -/
def RbacOperation.program : RbacOperation → RoleReq AuthError Unit
  | deleteRole roleName => SoulAuth.deleteRole roleName
  | assignRoleToUser userId roleName assignedBy =>
    SoulAuth.assignRoleToUser userId roleName assignedBy
  | assignRoleAsSystem userId roleName => SoulAuth.assignRoleAsSystem userId roleName
  | removeRoleFromUser userId roleName => SoulAuth.removeRoleFromUser userId roleName
  | assignPermissionToRole roleName permissionName grantedBy =>
    SoulAuth.assignPermissionToRole roleName permissionName grantedBy
  | removePermissionFromRole roleName permissionName =>
    SoulAuth.removePermissionFromRole roleName permissionName

/-- The role service. -/
@[reducible] def rbac : System where
  machine := roleTables.machine
  Req := RbacOperation
  Err := AuthError
  Res := Unit
  program := RbacOperation.program

end SoulAuth
