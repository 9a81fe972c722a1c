import SoulAuth.Database.Roles
import SoulAuth.Services.Database

/-! # Roles and permissions

The role service. Its writes look a role up by name, check, and write, each a
statement of its own. A name is validated before it is looked up; a role that
is listed or edited comes with its permissions, which two queries collect for
any number of roles. Its reads answer what a user may do, from four different
sides.
-/

namespace SoulAuth

open Framework

def roleNotFound (roleName : Str) : AuthError :=
  .notFound ("Role '" ++ String.ofList roleName ++ "' not found")

def permissionNotFound (permissionName : Str) : AuthError :=
  .notFound ("Permission '" ++ String.ofList permissionName ++ "' not found")

/-- A count that found something, `unwrap_or(0) > 0`. -/
def isPositive (count : Option Nat) : Bool := 0 < count.getD 0

/-- `validate_rbac_name`. -/
def validateRbacName (kind : String) (name : Str) : Except AuthError Str :=
  let trimmed := Str.trim name
  if trimmed = [] then .error (.validationError (kind ++ " name is required"))
  else if 64 < trimmed.length then
    .error (.validationError (kind ++ " name must be at most 64 characters"))
  else if trimmed.all fun c =>
      Str.isAsciiAlphanumeric c || c = '_' || c = '-' || c = '.' || c = ':' then .ok trimmed
  else .error (.validationError
    (kind ++ " name may only contain letters, digits and '_' '-' '.' ':'"))

/-- `CreateRoleRequest`. -/
structure CreateRoleRequest where
  name : Str
  displayName : Str
  description : Option Str
  deriving DecidableEq, Repr

/-- `UpdateRoleRequest`. -/
structure UpdateRoleRequest where
  displayName : Option Str
  description : Option Str
  deriving DecidableEq, Repr

/-- `RoleResponse`. -/
structure RoleResponse where
  id : Str
  name : Str
  displayName : Str
  description : Option Str
  isSystem : Bool
  createdAt : Timestamp
  updatedAt : Timestamp
  permissions : List Str
  deriving DecidableEq, Repr

/-- `From<Role>`: the permissions are filled in later. -/
def RoleResponse.of (r : Role) : RoleResponse :=
  ⟨r.key, r.name, r.displayName, r.description, r.isSystem, r.createdAt, r.updatedAt, []⟩

/-- `CreatePermissionRequest`. -/
structure CreatePermissionRequest where
  name : Str
  displayName : Str
  description : Option Str
  resource : Str
  action : Str
  deriving DecidableEq, Repr

/-- `Vec::dedup`: of equal neighbours the first one stays. -/
def dedup {α : Type} [DecidableEq α] : List α → List α
  | [] => []
  | [a] => [a]
  | a :: b :: rest => if a = b then dedup (b :: rest) else a :: dedup (b :: rest)

/-- The map from the text of a role to the names of its permissions, one
    entry for each link whose permission has a name. -/
def namesByRole (links : List PermissionLink) (named : List NamedPermission) : List (Str × Str) :=
  links.filterMap fun link =>
    (named.reverse.find? fun p => p.id = link.permissionId).map fun p => (link.roleId, p.name)

/-- The loop of `attach_permissions`: each role takes its names out of the
    map. -/
def fillPermissions : List (Str × Str) → List RoleResponse → List RoleResponse
  | _, [] => []
  | byRole, role :: rest =>
    let text := recordAddress "role".toList role.id
    let names := (byRole.filter fun e => e.1 = text).map Prod.snd
    let filled := if names = [] then role
      else { role with permissions := names.insertionSort (· ≤ ·) }
    filled :: fillPermissions (byRole.filter fun e => e.1 ≠ text) rest

/-- The bounds of a page: `page.unwrap_or(1).max(1)`, `limit.unwrap_or(50).clamp(1, 200)`
    and the product of `u32` that saturates. -/
def pageBounds (page limit : Option Nat) : Nat × Nat :=
  let limit := min (max (limit.getD 50) 1) 200
  (limit, min ((max (page.getD 1) 1 - 1) * limit) (2 ^ 32 - 1))

variable [Platform]

/-- Issue one of the queries. -/
def roleView (v : RoleView) : RoleReq AuthError v.Reply := roleQuery (.view v)

/-- A role that must be there. -/
def findRole (roleName : Str) : RoleReq AuthError Role := do
  let found : Option Role ← roleQuery (.roleByName roleName)
  Prog.orThrow (roleNotFound roleName) found

/-- A permission that must be there. -/
def findPermission (permissionName : Str) : RoleReq AuthError Permission := do
  let found : Option Permission ← roleView (.permissionByName permissionName)
  Prog.orThrow (permissionNotFound permissionName) found

/-! ## Roles and permissions -/

/-- `attach_permissions`. -/
def attachPermissions (roles : List RoleResponse) : RoleReq AuthError (List RoleResponse) := do
  if roles = [] then return roles
  let roleTexts := roles.map fun role => recordAddress "role".toList role.id
  let links : List PermissionLink ← roleView (.linksOf roleTexts)
  if links = [] then return roles
  let permissionTexts := (links.map PermissionLink.permissionId).insertionSort (· ≤ ·)
  let named : List NamedPermission ← roleView (.namedPermissions (dedup permissionTexts))
  return fillPermissions (namesByRole links named) roles

/-- `create_role`; `key` is the one that the database draws for the row. -/
def createRole (request : CreateRoleRequest) (key : Str) : RoleReq AuthError RoleResponse := do
  let name ← Prog.ofExcept (validateRbacName "Role" request.name)
  let existing : Option Role ← roleQuery (.roleByName name)
  Prog.ensure (existing = none) (.validationError "Role name already exists")
  let now ← (getNow : Req AuthError Timestamp).lift roleTables
  let role : Role ← roleQuery
    (.createRole ⟨key, name, request.displayName, request.description, false, now, now⟩)
  return .of role

/-- `update_role`. -/
def updateRole (roleName : Str) (request : UpdateRoleRequest) :
    RoleReq AuthError RoleResponse := do
  let found : Option Role ← roleQuery (.roleByName roleName)
  let role ← Prog.orThrow (.notFound "Role not found") found
  Prog.ensure (role.isSystem = false) (.validationError "Cannot update system role")
  Prog.ensure (¬ (request.displayName = none ∧ request.description = none))
    (.validationError "No fields to update")
  let now ← (getNow : Req AuthError Timestamp).lift roleTables
  let updated : Option Role ←
    roleQuery (.updateRole role.key request.displayName request.description now)
  let updated ← Prog.orThrow (.databaseError "Failed to update role".toList) updated
  let responses ← attachPermissions [.of updated]
  return responses.headD (.of updated)

/-- `list_roles`. -/
def listRoles (page limit : Option Nat) : RoleReq AuthError (List RoleResponse) := do
  let roles : List Role ←
    roleView (.listRoles (pageBounds page limit).1 (pageBounds page limit).2)
  attachPermissions (roles.map RoleResponse.of)

/-- `create_permission`; `key` is the one that the database draws for the row. -/
def createPermission (request : CreatePermissionRequest) (key : Str) :
    RoleReq AuthError Permission := do
  let name ← Prog.ofExcept (validateRbacName "Permission" request.name)
  let existing : Option Permission ← roleView (.permissionByName name)
  Prog.ensure (existing = none) (.validationError "Permission name already exists")
  let now ← (getNow : Req AuthError Timestamp).lift roleTables
  roleQuery (.createPermission ⟨key, name, request.displayName, request.description,
    request.resource, request.action, false, now, now⟩)

/-- `list_permissions`. -/
def listPermissions (page limit : Option Nat) : RoleReq AuthError (List Permission) :=
  roleView (.listPermissions (pageBounds page limit).1 (pageBounds page limit).2)

/-! ## Roles of users -/

/-- `assign_role`. -/
def assignRole (userId roleName assignedBy : Str) : RoleReq AuthError Unit := do
  let role ← findRole roleName
  let actorKey ← (actorRefOfUser userId).lift roleTables
  let assigned : Bool ← roleQuery (.isAssigned actorKey role.key)
  Prog.ensure (assigned = false) (.validationError "User already has this role")
  let now ← (getNow : Req AuthError Timestamp).lift roleTables
  roleQuery (.assign ⟨actorKey, role.key, now, assignedBy⟩)

/-- `assign_role_to_user`. -/
def assignRoleToUser (userId roleName assignedBy : Str) : RoleReq AuthError Unit := do
  let operator ← (actorRefOfUser assignedBy).lift roleTables
  assignRole userId roleName operator

/-- `assign_role_as_system`. -/
def assignRoleAsSystem (userId roleName : Str) : RoleReq AuthError Unit :=
  assignRole userId roleName "system".toList

/-- `remove_role_from_user`. -/
def removeRoleFromUser (userId roleName : Str) : RoleReq AuthError Unit := do
  let role ← findRole roleName
  let actorKey ← (actorRefOfUser userId).lift roleTables
  roleQuery (.unassign actorKey role.key)

/-- `delete_role`. -/
def deleteRole (roleName : Str) : RoleReq AuthError Unit := do
  let found : Option Role ← roleQuery (.roleByName roleName)
  let role ← Prog.orThrow (.notFound "Role not found") found
  Prog.ensure (role.isSystem = false) (.validationError "Cannot delete system role")
  let count : Option Nat ← roleView (.countAssigned role.key)
  Prog.ensure (isPositive count = false)
    (.validationError "Cannot delete role that is assigned to users")
  roleQuery (.deleteGrants role.key)
  roleQuery (.deleteRole role.key)

/-! ## Permissions of roles -/

/-- `assign_permission_to_role`. -/
def assignPermissionToRole (roleName permissionName grantedBy : Str) :
    RoleReq AuthError Unit := do
  let role ← findRole roleName
  let permission ← findPermission permissionName
  let operator ← (actorRefOfUser grantedBy).lift roleTables
  let granted : Bool ← roleView (.isGranted role.key permission.key)
  Prog.ensure (granted = false) (.validationError "Role already has this permission")
  let now ← (getNow : Req AuthError Timestamp).lift roleTables
  roleQuery (.grant ⟨role.key, permission.key, now, operator⟩)

/-- `remove_permission_from_role`. -/
def removePermissionFromRole (roleName permissionName : Str) : RoleReq AuthError Unit := do
  let role ← findRole roleName
  let permission ← findPermission permissionName
  roleQuery (.revoke role.key permission.key)

/-! ## What a user may do -/

/-- `get_role_permissions`. -/
def getRolePermissions (roleName : Str) : RoleReq AuthError (List Str) := do
  let role ← findRole roleName
  let permissionIds : List Str ← roleView (.grantsOf role.key)
  if permissionIds = [] then return []
  let names : List Str ← roleView (.permissionNames permissionIds)
  return names.filter fun name => name ≠ []

/-- `RoleWithPermissions`. -/
structure RoleWithPermissions where
  id : Str
  name : Str
  displayName : Str
  description : Option Str
  permissions : List Str
  assignedAt : Timestamp
  deriving DecidableEq, Repr

/-- The seconds that `DateTime::from_timestamp` takes. -/
def minDateTime : Int := -8334601228800

def maxDateTime : Int := 8210266876799

/-- `DateTime::from_timestamp(..).unwrap_or_default()`. -/
def dateTimeOrDefault (t : Timestamp) : Timestamp :=
  if minDateTime ≤ t ∧ t ≤ maxDateTime then t else 0

/-- The map from the text of a role to the time of its assignment; the row
    inserted last counts. -/
def assignedAtOf (rows : List UserRoleRow) (roleText : Str) : Timestamp :=
  ((rows.reverse.find? fun row => Str.trim row.roleId = roleText).map fun row =>
    row.assignedAt.getD 0).getD 0

/-- The roles of `get_user_roles`, each with its permissions. -/
def withPermissions (rows : List UserRoleRow) :
    List Role → RoleReq AuthError (List RoleWithPermissions)
  | [] => return []
  | role :: roles => do
    let permissions ← getRolePermissions role.name
    let rest ← withPermissions rows roles
    return { id := role.key, name := role.name, displayName := role.displayName
             description := role.description, permissions := permissions
             assignedAt := dateTimeOrDefault (assignedAtOf rows role.key) } :: rest

/-- `get_user_roles`: the roles of its response. -/
def getUserRoles (userId : Str) : RoleReq AuthError (List RoleWithPermissions) := do
  let rows : List UserRoleRow ← roleView (.assignedTo (normalizeUserId userId))
  let roleIds := (rows.map fun row => Str.trim row.roleId).filter fun text => text ≠ []
  if roleIds = [] then return []
  let roles : List Role ← roleView (.rolesIn roleIds)
  withPermissions rows roles

/-- `get_user_permissions`. -/
def getUserPermissions (userId : Str) : RoleReq AuthError (List Str) := do
  let names : List Str ← roleView (.permissionsOf (normalizeUserId userId))
  return dedup ((names.filter fun name => name ≠ []).insertionSort (· ≤ ·))

/-- `check_user_permission`. -/
def checkUserPermission (userId permissionName : Str) : RoleReq AuthError Bool := do
  let count : Option Nat ← roleView (.countPermission (normalizeUserId userId) permissionName)
  return isPositive count

/-- `check_user_role`. -/
def checkUserRole (userId roleName : Str) : RoleReq AuthError Bool := do
  let count : Option Nat ← roleView (.countRole (normalizeUserId userId) roleName)
  return isPositive count

end SoulAuth
