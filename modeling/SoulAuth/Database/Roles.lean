import Mathlib.Data.Char
import Mathlib.Data.List.Lex
import Mathlib.Data.List.Sort
import SoulAuth.Database.Machine
import SoulAuth.Framework.Extension
import SoulAuth.Models.Permission

/-! # Roles, permissions and the bootstrap claim

The tables `role`, `permission`, `user_role`, `role_permission` and
`bootstrap_claim`. No endpoint under `/api/auth` or `/api/oidc` writes them;
they stand beside the tables of the machine. A role is held by an actor; the
queries about a user look the actor up within the same statement. A role or a
permission is addressed by its key, and where a query compares texts, by what
`type::string` makes of the address.
-/

namespace SoulAuth

open Framework

/-- `Role`. -/
structure Role where
  key : Str
  name : Str
  displayName : Str
  description : Option Str
  isSystem : Bool
  createdAt : Timestamp
  updatedAt : Timestamp
  deriving DecidableEq, Repr

/-- `Permission`. -/
structure Permission where
  key : Str
  name : Str
  displayName : Str
  description : Option Str
  resource : Str
  action : Str
  isSystem : Bool
  createdAt : Timestamp
  updatedAt : Timestamp
  deriving DecidableEq, Repr

/-- `UserRole`. Its `user_id` and `assigned_by` are actor identities. -/
structure UserRole where
  userId : Str
  roleId : Str
  assignedAt : Timestamp
  assignedBy : Str
  deriving DecidableEq, Repr

/-- `RolePermission`. Its `granted_by` is an actor identity. -/
structure RolePermission where
  roleId : Str
  permissionId : Str
  grantedAt : Timestamp
  grantedBy : Str
  deriving DecidableEq, Repr

/-- The column `stage` of `bootstrap_claim`. -/
inductive ClaimStage
  | claiming
  | rolePending
  | done
  deriving DecidableEq, Repr

/-- The row `bootstrap_claim:singleton`. -/
structure BootstrapClaim where
  claimedAt : Timestamp
  email : Str
  stage : ClaimStage
  userId : Option Str
  deriving DecidableEq, Repr

/-- The tables. -/
structure RoleTables where
  roles : List Role
  permissions : List Permission
  userRoles : List UserRole
  rolePermissions : List RolePermission
  claim : Option BootstrapClaim
  deriving DecidableEq, Repr

/-- The key and the name of the administrators' role. -/
def adminRole : Str := "admin".toList

/-- A role of the initial data, under its name as its key. -/
def seedRole (name displayName description : String) : Role :=
  ⟨name.toList, name.toList, displayName.toList, some description.toList, true, 0, 0⟩

/-- A permission of the initial data; its name is its resource and its action
    under the namespace of the code. -/
def seedPermission (resource action displayName description : String) : Permission :=
  ⟨(resource ++ "_" ++ action).toList, authLocal (resource ++ "." ++ action), displayName.toList,
    some description.toList, resource.toList, action.toList, true, 0, 0⟩

/-- A grant of the initial data, by the actor that stands for the system. -/
def seedGrant (role : String) (permission : String) : RolePermission :=
  ⟨role.toList, permission.toList, 0, "system".toList⟩

/-- The tables after the import of the initial data. -/
def RoleTables.seeded : RoleTables where
  roles :=
    [seedRole "admin" "系统管理员" "拥有所有权限的系统管理员",
      seedRole "user_manager" "用户管理员" "负责用户管理的管理员",
      seedRole "security_manager" "安全管理员" "负责安全管理的管理员",
      seedRole "auditor" "审计员" "只能查看审计日志的角色",
      seedRole "user" "普通用户" "普通用户角色"]
  permissions :=
    [seedPermission "users" "read" "查看用户" "查看用户信息",
      seedPermission "users" "write" "编辑用户" "编辑用户信息",
      seedPermission "roles" "read" "查看角色" "查看角色信息",
      seedPermission "roles" "write" "管理角色" "创建和编辑角色",
      seedPermission "roles" "delete" "删除角色" "删除角色",
      seedPermission "permissions" "read" "查看权限" "查看权限信息",
      seedPermission "permissions" "write" "管理权限" "创建和编辑权限",
      seedPermission "security" "read" "查看安全状态" "查看安全锁定状态",
      seedPermission "security" "write" "管理安全" "解锁账户等安全操作",
      seedPermission "audit" "read" "查看审计日志" "查看系统审计日志",
      seedPermission "oidc_clients" "read" "查看 OIDC 客户端" "查看已注册的 OIDC 客户端配置",
      seedPermission "oidc_clients" "write" "管理 OIDC 客户端"
        "创建、修改、禁用 OIDC 客户端并重置其密钥",
      seedPermission "actors" "read" "查看 AIActor" "查看已注册的非人主体及其验证密钥（只含公钥）",
      seedPermission "actors" "write" "管理 AIActor" "注册非人主体、增删其验证密钥、停用主体"]
  userRoles := []
  rolePermissions :=
    ["users_read", "users_write", "roles_read", "roles_write", "roles_delete", "permissions_read",
      "permissions_write", "security_read", "security_write", "audit_read", "oidc_clients_read",
      "oidc_clients_write", "actors_read", "actors_write"].map (seedGrant "admin") ++
    ["users_read", "users_write"].map (seedGrant "user_manager") ++
    ["security_read", "security_write", "users_read"].map (seedGrant "security_manager") ++
    ["audit_read"].map (seedGrant "auditor")
  claim := none

/-! ## Queries -/

/-- The key of a record in the text that `type::string` makes of it. Between
    backticks stands whatever does not read as a word: other characters than
    letters, digits and underscores, or no letter at all. -/
def writtenKey (key : Str) : Str :=
  if (key.all fun c => c.isAlphanum || c = '_') && key.any Char.isAlpha then key
  else backtick :: key ++ [backtick]

/-- `string::replace(.., 'role:', '')` of a text, which removes every
    occurrence; `fuel` is the length of the text. -/
def removeRolePrefix : Nat → Str → Str
  | 0, s => s
  | _ + 1, [] => []
  | fuel + 1, c :: s =>
    match Str.stripPrefix "role:".toList (c :: s) with
    | some rest => removeRolePrefix fuel rest
    | none => c :: removeRolePrefix fuel s

/-- `string::replace(type::string(role_id), 'role:', '')`. -/
def roleIdText (key : Str) : Str :=
  let text := recordAddress "role".toList (writtenKey key)
  removeRolePrefix text.length text

/-- `type::string` of the address of a role. -/
def roleText (key : Str) : Str := recordAddress "role".toList (writtenKey key)

/-- `type::string` of the address of a permission. -/
def permissionText (key : Str) : Str := recordAddress "permission".toList (writtenKey key)

/-- A row of the query of `get_user_roles`. -/
structure UserRoleRow where
  roleId : Str
  assignedAt : Option Timestamp
  deriving DecidableEq, Repr

/-- `Link`: a row of `role_permission`, both sides as texts. -/
structure PermissionLink where
  roleId : Str
  permissionId : Str
  deriving DecidableEq, Repr

/-- `NamedPermission`. -/
structure NamedPermission where
  id : Str
  name : Str
  deriving DecidableEq, Repr

/-- The rows of `user_role` with
    `user_id = (SELECT VALUE subject_id FROM type::record('user', key))[0]`. -/
def RoleTables.assignmentsOf (t : RoleTables) (users : List User) (userKey : Str) :
    List UserRole :=
  t.userRoles.filter fun r => some r.userId = subjectOf users userKey

/-- `SELECT count() .. GROUP ALL`, which has no row for nothing. -/
def countAll {α : Type} (rows : List α) : Option Nat :=
  if rows = [] then none else some rows.length

/-- `LIMIT .. START ..`. -/
def page {α : Type} (limit offset : Nat) (rows : List α) : List α := (rows.drop offset).take limit

/-- The order of `rbac_list_roles`, `created_at DESC`. -/
def Role.newestFirst (a b : Role) : Prop := b.createdAt ≤ a.createdAt

instance : DecidableRel Role.newestFirst := fun a b =>
  inferInstanceAs (Decidable (b.createdAt ≤ a.createdAt))

/-- The order of `rbac_list_permissions`, `resource, action`. -/
def Permission.byResource (a b : Permission) : Prop :=
  a.resource < b.resource ∨ a.resource = b.resource ∧ a.action ≤ b.action

instance : DecidableRel Permission.byResource := fun a b =>
  inferInstanceAs (Decidable
    (a.resource < b.resource ∨ a.resource = b.resource ∧ a.action ≤ b.action))

/-- The queries of the role service. -/
inductive RoleView
  /-- `get_permission_by_name`. -/
  | permissionByName (name : Str)
  /-- `SELECT count() FROM user_role WHERE role_id = .. GROUP ALL`. -/
  | countAssigned (roleKey : Str)
  /-- `SELECT * FROM role_permission WHERE role_id = .. AND permission_id = ..`. -/
  | isGranted (roleKey permissionKey : Str)
  /-- The roles of a user, as texts. -/
  | assignedTo (userKey : Str)
  /-- `SELECT * FROM role WHERE id IN ..`. -/
  | rolesIn (keys : List Str)
  /-- `SELECT VALUE permission_id FROM role_permission WHERE role_id = ..`. -/
  | grantsOf (roleKey : Str)
  /-- `SELECT name FROM permission WHERE id IN ..`. -/
  | permissionNames (keys : List Str)
  /-- The query of `check_user_permission`. -/
  | countPermission (userKey name : Str)
  /-- The query of `check_user_role`. -/
  | countRole (userKey name : Str)
  /-- The query of `get_user_permissions`. -/
  | permissionsOf (userKey : Str)
  /-- `rbac_list_roles`. -/
  | listRoles (limit offset : Nat)
  /-- `rbac_list_permissions`. -/
  | listPermissions (limit offset : Nat)
  /-- `rbac_list_role_permission_links`. -/
  | linksOf (roleTexts : List Str)
  /-- `rbac_list_permission_names`. -/
  | namedPermissions (permissionTexts : List Str)
  deriving DecidableEq, Repr

@[reducible] def RoleView.Reply : RoleView → Type
  | permissionByName _ => Option Permission
  | isGranted _ _ => Bool
  | assignedTo _ => List UserRoleRow
  | rolesIn _ | listRoles _ _ => List Role
  | listPermissions _ _ => List Permission
  | linksOf _ => List PermissionLink
  | namedPermissions _ => List NamedPermission
  | grantsOf _ | permissionNames _ | permissionsOf _ => List Str
  | countAssigned _ | countPermission _ _ | countRole _ _ => Option Nat

/-- What a query answers. -/
def RoleView.eval (users : List User) (t : RoleTables) : (v : RoleView) → v.Reply
  | permissionByName name => t.permissions.find? fun p => p.name = name
  | countAssigned roleKey => countAll (t.userRoles.filter fun r => r.roleId = roleKey)
  | isGranted roleKey permissionKey =>
    t.rolePermissions.any fun g => g.roleId = roleKey && g.permissionId = permissionKey
  | assignedTo userKey =>
    (t.assignmentsOf users userKey).map fun r => ⟨roleIdText r.roleId, some r.assignedAt⟩
  | rolesIn keys => t.roles.filter fun r => r.key ∈ keys
  | grantsOf roleKey =>
    (t.rolePermissions.filter fun g => g.roleId = roleKey).map RolePermission.permissionId
  | permissionNames keys => (t.permissions.filter fun p => p.key ∈ keys).map Permission.name
  | countPermission userKey name =>
    let held := (t.assignmentsOf users userKey).map UserRole.roleId
    let named := (t.permissions.filter fun p => p.name = name).map Permission.key
    countAll (t.rolePermissions.filter fun g => g.roleId ∈ held && g.permissionId ∈ named)
  | countRole userKey name =>
    let named := (t.roles.filter fun r => r.name = name).map Role.key
    countAll ((t.assignmentsOf users userKey).filter fun r => r.roleId ∈ named)
  | permissionsOf userKey =>
    let held := (t.assignmentsOf users userKey).map UserRole.roleId
    let granted := (t.rolePermissions.filter fun g => g.roleId ∈ held).map
      RolePermission.permissionId
    (t.permissions.filter fun p => p.key ∈ granted).map Permission.name
  | listRoles limit offset => page limit offset (t.roles.insertionSort Role.newestFirst)
  | listPermissions limit offset =>
    page limit offset (t.permissions.insertionSort Permission.byResource)
  | linksOf roleTexts =>
    let links := t.rolePermissions.map fun g =>
      PermissionLink.mk (roleText g.roleId) (permissionText g.permissionId)
    links.filter fun link => link.roleId ∈ roleTexts
  | namedPermissions permissionTexts =>
    let named := t.permissions.map fun p => NamedPermission.mk (permissionText p.key) p.name
    named.filter fun p => p.id ∈ permissionTexts

/-! ## Statements -/

/-- The row that an `UPDATE` of a role leaves; what is absent stays as it is. -/
def Role.edit (r : Role) (displayName description : Option Str) (now : Timestamp) : Role :=
  { r with displayName := displayName.getD r.displayName
           description := description.orElse fun _ => r.description
           updatedAt := now }

/-- The statements on these tables. -/
inductive RoleStmt
  /-- `admin_exists`. -/
  | adminExists
  /-- `get_role_by_name`. -/
  | roleByName (name : Str)
  /-- `SELECT * FROM user_role WHERE user_id = .. AND role_id = ..`. -/
  | isAssigned (actorKey roleKey : Str)
  | assign (r : UserRole)
  | unassign (actorKey roleKey : Str)
  | view (v : RoleView)
  | grant (g : RolePermission)
  | revoke (roleKey permissionKey : Str)
  /-- `CREATE role CONTENT ..`. -/
  | createRole (r : Role)
  /-- `rbac_update_role`. -/
  | updateRole (roleKey : Str) (displayName description : Option Str) (now : Timestamp)
  /-- `CREATE permission CONTENT ..`. -/
  | createPermission (p : Permission)
  /-- `DELETE FROM role_permission WHERE role_id = ..`. -/
  | deleteGrants (roleKey : Str)
  /-- `DELETE type::record('role', ..)`. -/
  | deleteRole (roleKey : Str)
  /-- The `CREATE` of `claim_bootstrap`. -/
  | createClaim (email : Str)
  /-- The `SELECT` of `claim_bootstrap`. -/
  | readClaim
  /-- `release_bootstrap`. -/
  | deleteClaim
  /-- `mark_role_pending`. -/
  | markRolePending (userId : Str)
  /-- `finish_bootstrap`. -/
  | finishClaim
  deriving DecidableEq, Repr

@[reducible] def RoleStmt.Reply : RoleStmt → Type
  | adminExists | isAssigned _ _ => Bool
  | roleByName _ => Option Role
  | readClaim => Option BootstrapClaim
  | view v => v.Reply
  | createRole _ => Role
  | updateRole _ _ _ _ => Option Role
  | createPermission _ => Permission
  | grant _ | revoke _ _ | deleteGrants _ | deleteRole _ => Unit
  | assign _ | unassign _ _ | createClaim _ | deleteClaim | markRolePending _
  | finishClaim => Unit

/-- Execute a statement; the queries about a user read `user` as well. -/
def RoleStmt.exec (w : World) : (s : RoleStmt) → RoleTables →
    Except DbFailure s.Reply × RoleTables
  | adminExists, t => (.ok (t.userRoles.any fun r => r.roleId = adminRole), t)
  | roleByName name, t => (.ok (t.roles.find? fun r => r.name = name), t)
  | isAssigned actorKey roleKey, t =>
    (.ok (t.userRoles.any fun r => r.userId = actorKey && r.roleId = roleKey), t)
  | assign r, t =>
    if t.userRoles.any fun q => q.userId = r.userId && q.roleId = r.roleId then
      (.error (.alreadyContains "user_role_unique_idx".toList r.userId), t)
    else (.ok (), { t with userRoles := t.userRoles ++ [r] })
  | unassign actorKey roleKey, t =>
    (.ok (), { t with
      userRoles := t.userRoles.filter fun r => !(r.userId = actorKey && r.roleId = roleKey) })
  | view v, t => (.ok (v.eval w.db.users t), t)
  | grant g, t =>
    if t.rolePermissions.any fun q => q.roleId = g.roleId && q.permissionId = g.permissionId then
      (.error (.alreadyContains "role_permission_unique_idx".toList g.roleId), t)
    else (.ok (), { t with rolePermissions := t.rolePermissions ++ [g] })
  | revoke roleKey permissionKey, t =>
    (.ok (), { t with
      rolePermissions := t.rolePermissions.filter fun g =>
        !(g.roleId = roleKey && g.permissionId = permissionKey) })
  | createRole r, t =>
    if t.roles.any fun q => q.name = r.name then
      (.error (.alreadyContains "role_name_idx".toList r.name), t)
    else if t.roles.any fun q => q.key = r.key then
      (.error (.alreadyContains "role".toList r.key), t)
    else (.ok r, { t with roles := t.roles ++ [r] })
  | updateRole roleKey displayName description now, t =>
    let roles := t.roles.map fun r =>
      if r.key = roleKey then r.edit displayName description now else r
    (.ok (roles.find? fun r => r.key = roleKey), { t with roles := roles })
  | createPermission p, t =>
    if t.permissions.any fun q => q.name = p.name then
      (.error (.alreadyContains "permission_name_idx".toList p.name), t)
    else if t.permissions.any fun q => q.key = p.key then
      (.error (.alreadyContains "permission".toList p.key), t)
    else (.ok p, { t with permissions := t.permissions ++ [p] })
  | deleteGrants roleKey, t =>
    (.ok (), { t with
      rolePermissions := t.rolePermissions.filter fun g => g.roleId ≠ roleKey })
  | deleteRole roleKey, t =>
    (.ok (), { t with roles := t.roles.filter fun r => r.key ≠ roleKey })
  | createClaim email, t =>
    if t.claim.isSome then
      (.error (.alreadyContains "bootstrap_claim".toList "singleton".toList), t)
    else (.ok (), { t with claim := some ⟨w.now, email, .claiming, none⟩ })
  | readClaim, t => (.ok t.claim, t)
  | deleteClaim, t => (.ok (), { t with claim := none })
  | markRolePending userId, t =>
    (.ok (), { t with
      claim := t.claim.map fun row => { row with stage := .rolePending, userId := some userId } })
  | finishClaim, t =>
    (.ok (), { t with claim := t.claim.map fun row => { row with stage := .done } })

/-- Execute a statement, or let it fail as the scheduler says. -/
def RoleStmt.run (ctx : Ctx) (s : RoleStmt) (w : World) (t : RoleTables) :
    Except DbFailure s.Reply × RoleTables :=
  match ctx.fault with
  | some .refused => (.error .connection, t)
  | some .conflict => (.error .conflict, t)
  | some .lostReply => (.error .connection, (s.exec w t).2)
  | none => s.exec w t

variable [Platform]

/-- The tables beside the machine. -/
@[reducible] def roleTables : Extension machine where
  State := RoleTables
  Stmt := RoleStmt
  Resp s := Except DbFailure s.Reply
  exec ctx s w t := s.run ctx w t

/-- A part of a request that may use these tables. -/
abbrev RoleReq (ε α : Type) := Prog roleTables.machine ε α

/-- Issue a statement on these tables and fail when it fails. -/
def roleQuery (s : RoleStmt) : RoleReq AuthError s.Reply :=
  .step (M := roleTables.machine) (.inr s) fun r => match r with
    | .ok a => .done (.ok a)
    | .error e => .done (.error (.ofDb e))

end SoulAuth
