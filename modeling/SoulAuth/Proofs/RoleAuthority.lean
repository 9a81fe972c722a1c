import SoulAuth.Framework.Widening
import SoulAuth.Proofs.Footprint
import SoulAuth.Proofs.RoleTables
import SoulAuth.Routes.AdminLogin
import SoulAuth.Routes.Rbac

/-! # What the operations on roles may write

A statement on the tables of roles that changes them has an *authority*: the
permissions of which one lets a request issue it. An operation asks for one
permission, and issues no statement for which this one is not enough. Apart
from these statements it looks at the clock and at the actors of users.
-/

namespace SoulAuth

open Framework Framework.Prog

/-! ## Authority -/

namespace RoleStmt

/-- The permissions of which one lets an administrator issue the statement;
    none of them lets a request near the claim of the bootstrap. -/
def authority : RoleStmt → Option (List Str)
  | assign _ | unassign _ _ | createRole _ | updateRole _ _ _ _ => some [Names.rolesWrite]
  | grant _ | revoke _ _ | createPermission _ => some [Names.permissionsWrite]
  | deleteGrants _ | deleteRole _ => some [Names.rolesDelete]
  | createClaim _ | readClaim | deleteClaim | markRolePending _ | finishClaim => some []
  | adminExists | roleByName _ | isAssigned _ _ | view _ => none

/-- The permission is enough for the statement, if it takes one. -/
def Under (permission : Str) (s : RoleStmt) : Prop :=
  ∀ ps, s.authority = some ps → permission ∈ ps

/-- The statement takes no permission. -/
def Free (s : RoleStmt) : Prop := s.authority = none

theorem Free.under {s : RoleStmt} (h : s.Free) (permission : Str) : s.Under permission := by
  intro ps hps
  cases h.symm.trans hps

/-- The statement writes no row of `role` or `permission`. -/
def KeepsRows : RoleStmt → Prop
  | createRole _ | updateRole _ _ _ _ | deleteRole _ | createPermission _ => False
  | _ => True

theorem Free.keepsRows {s : RoleStmt} (h : s.Free) : s.KeepsRows := by
  cases s with
  | createRole _ | updateRole _ _ _ _ | deleteRole _ | createPermission _ => cases h
  | _ => trivial

/-- A write takes the permission that is its authority. -/
theorem under_of_authority {s : RoleStmt} {permission : Str}
    (h : s.authority = some [permission]) : s.Under permission := by
  intro ps hps
  cases h.symm.trans hps
  exact List.mem_singleton_self permission

end RoleStmt

/-! ## Changes of the tables -/

section

variable {w : World} {t : RoleTables} {s : RoleStmt}

theorem RoleStmt.userRoles_exec :
    (s.exec w t).2.userRoles = t.userRoles ∨ s.authority = some [Names.rolesWrite] := by
  cases s with
  | assign _ | unassign _ _ => exact .inr rfl
  | grant _ | createRole _ | createPermission _ | createClaim _ =>
    left
    simp only [exec]
    split_ifs <;> rfl
  | _ => exact .inl rfl

theorem RoleStmt.rolePermissions_exec :
    (s.exec w t).2.rolePermissions = t.rolePermissions ∨
      s.authority = some [Names.permissionsWrite] ∨ s.authority = some [Names.rolesDelete] := by
  cases s with
  | grant _ | revoke _ _ => exact .inr (.inl rfl)
  | deleteGrants _ => exact .inr (.inr rfl)
  | assign _ | createRole _ | createPermission _ | createClaim _ =>
    left
    simp only [exec]
    split_ifs <;> rfl
  | _ => exact .inl rfl

theorem RoleStmt.permissions_exec :
    (s.exec w t).2.permissions = t.permissions ∨
      s.authority = some [Names.permissionsWrite] := by
  cases s with
  | createPermission _ => exact .inr rfl
  | assign _ | grant _ | createRole _ | createClaim _ =>
    left
    simp only [exec]
    split_ifs <;> rfl
  | _ => exact .inl rfl

theorem RoleStmt.roles_exec :
    (s.exec w t).2.roles = t.roles ∨
      s.authority = some [Names.rolesWrite] ∨ s.authority = some [Names.rolesDelete] := by
  cases s with
  | deleteRole _ => exact .inr (.inr rfl)
  | createRole _ | updateRole _ _ _ _ => exact .inr (.inl rfl)
  | assign _ | grant _ | createPermission _ | createClaim _ =>
    left
    simp only [exec]
    split_ifs <;> rfl
  | _ => exact .inl rfl

theorem RoleStmt.claim_exec : (s.exec w t).2.claim = t.claim ∨ s.authority = some [] := by
  cases s with
  | createClaim _ | readClaim | deleteClaim | markRolePending _ | finishClaim => exact .inr rfl
  | assign _ | grant _ | createRole _ | createPermission _ =>
    left
    simp only [exec]
    split_ifs <;> rfl
  | _ => exact .inl rfl

end

/-! ## The programs of the role service -/

variable [Platform]

/-- A program of the role service: it issues statements of `S` on the tables
    of roles, and apart from them looks at the clock and at actors. -/
inductive RoleProgram (S : RoleStmt → Prop) : {α : Type} → RoleReq AuthError α → Prop
  | result {α : Type} (r : Except AuthError α) : RoleProgram S (.done r)
  | query {s : RoleStmt} (hs : S s) : RoleProgram S (roleQuery s)
  | now : RoleProgram S ((getNow : Req AuthError Timestamp).lift roleTables)
  | actor (userId : Str) : RoleProgram S ((actorRefOfUser userId).lift roleTables)
  | bind {α β : Type} {p : RoleReq AuthError α} {f : α → RoleReq AuthError β} (hp : RoleProgram S p)
    (hf : ∀ a, RoleProgram S (f a)) : RoleProgram S (p >>= f)
  | attempt {α : Type} {p : RoleReq AuthError α} (hp : RoleProgram S p) : RoleProgram S p.attempt
  | swallow {α : Type} {p : RoleReq AuthError α} (hp : RoleProgram S p) : RoleProgram S p.swallow

/-- A statement of such a program. -/
def RoleProgramStmt (S : RoleStmt → Prop) : roleTables.machine.Stmt → Prop
  | .inl s => s.effect = none
  | .inr s => S s

namespace RoleProgram

variable {S S' : RoleStmt → Prop} {α β : Type} {p : RoleReq AuthError α}

theorem ensure {c : Prop} [Decidable c] {e : AuthError} : RoleProgram S (Prog.ensure c e) := by
  unfold Prog.ensure
  split
  · exact .result _
  · exact .result _

theorem orThrow {e : AuthError} {a : Option α} : RoleProgram S (Prog.orThrow e a) := by
  cases a with
  | none => exact .result _
  | some a => exact .result _

theorem ofExcept {r : Except AuthError α} : RoleProgram S (Prog.ofExcept r) := by
  cases r with
  | ok a => exact .result _
  | error e => exact .result _

theorem mono (hp : RoleProgram S p) (h : ∀ s, S s → S' s) : RoleProgram S' p := by
  induction hp with
  | result r => exact .result r
  | query hs => exact .query (h _ hs)
  | now => exact .now
  | actor userId => exact .actor userId
  | bind _ _ ihp ihf => exact .bind ihp ihf
  | attempt _ ih => exact .attempt ih
  | swallow _ ih => exact .swallow ih

/-- What takes no permission is content with any. -/
theorem under (hp : RoleProgram RoleStmt.Free p) (permission : Str) :
    RoleProgram (RoleStmt.Under permission) p :=
  hp.mono fun _ hs => hs.under permission

theorem read {s : RoleStmt} {permission : Str} (hs : s.authority = none) :
    RoleProgram (RoleStmt.Under permission) (roleQuery s) :=
  .query (RoleStmt.Free.under hs permission)

theorem write {s : RoleStmt} {permission : Str} (hs : s.authority = some [permission]) :
    RoleProgram (RoleStmt.Under permission) (roleQuery s) :=
  .query (RoleStmt.under_of_authority hs)

/-- The program answers with `g a` when it is done. -/
theorem map {g : α → β} (hp : RoleProgram S p) :
    RoleProgram S (p >>= fun a => (return g a : RoleReq AuthError β)) :=
  .bind hp fun _ => .result _

/-- The statements of such a program. -/
theorem only (hp : RoleProgram S p) : p.Only (RoleProgramStmt S) := by
  have hlift : ∀ {γ : Type} {q : Req AuthError γ}, Within [] q →
      (q.lift roleTables).Only (RoleProgramStmt S) := by
    intro γ q hq
    apply Only.lift hq
    intro s hs
    rcases heffect : s.effect with _ | x
    · exact heffect
    · exact absurd (hs x heffect) List.not_mem_nil
  induction hp with
  | result r => trivial
  | query hs => exact only_roleQuery hs
  | now => exact hlift within_getNow
  | actor userId => exact hlift actorRefOfUser_within
  | bind _ _ ihp ihf => exact Only.bind ihp ihf
  | attempt _ ih => exact Only.attempt ih
  | swallow _ ih => exact Only.swallow ih

end RoleProgram

/-! ## Reads -/

section

variable {roleName permissionName userId : Str}

theorem view_served (v : RoleView) : RoleProgram RoleStmt.Free (roleView v) :=
  .query (s := .view v) rfl

theorem findRole_served : RoleProgram RoleStmt.Free (findRole roleName) :=
  .bind (.query (s := .roleByName roleName) rfl) fun _ => .orThrow

theorem findPermission_served : RoleProgram RoleStmt.Free (findPermission permissionName) :=
  .bind (view_served (.permissionByName permissionName)) fun _ => .orThrow

theorem getRolePermissions_served : RoleProgram RoleStmt.Free (getRolePermissions roleName) := by
  apply RoleProgram.bind findRole_served
  intro role
  apply RoleProgram.bind (view_served (.grantsOf role.key))
  intro ids
  by_cases hnone : ids = []
  · rw [if_pos hnone]
    exact .result _
  · rw [if_neg hnone]
    exact .map (view_served (.permissionNames ids))

theorem getRole_served : RoleProgram RoleStmt.Free (getRole roleName) := by
  apply RoleProgram.bind findRole_served
  intro role
  apply RoleProgram.bind (.attempt getRolePermissions_served)
  intro permissions
  cases permissions with
  | ok names => exact .result _
  | error e => exact .result _

theorem attachPermissions_served {roles : List RoleResponse} :
    RoleProgram RoleStmt.Free (attachPermissions roles) := by
  unfold attachPermissions
  by_cases hroles : roles = []
  · rw [if_pos hroles]
    exact .result _
  · rw [if_neg hroles]
    apply RoleProgram.bind (view_served (.linksOf _))
    intro links
    by_cases hlinks : links = []
    · rw [if_pos hlinks]
      exact .result _
    · rw [if_neg hlinks]
      exact .map (view_served (.namedPermissions _))

theorem listRoles_served {page limit : Option Nat} :
    RoleProgram RoleStmt.Free (listRoles page limit) :=
  .bind (view_served (.listRoles _ _)) fun _ => attachPermissions_served

/-- The loop of `get_user_roles`. -/
theorem withPermissions_served {rows : List UserRoleRow} (roles : List Role) :
    RoleProgram RoleStmt.Free (withPermissions rows roles) := by
  induction roles with
  | nil => exact .result _
  | cons role roles ih => exact .bind getRolePermissions_served fun _ => .map ih

theorem getUserRoles_served : RoleProgram RoleStmt.Free (getUserRoles userId) := by
  apply RoleProgram.bind (view_served (.assignedTo (normalizeUserId userId)))
  intro rows
  by_cases hnone : ((rows.map fun row => Str.trim row.roleId).filter fun text => text ≠ []) = []
  · rw [if_pos hnone]
    exact .result _
  · rw [if_neg hnone]
    exact .bind (view_served (.rolesIn _)) fun _ => withPermissions_served _

theorem getUserPermissions_served : RoleProgram RoleStmt.Free (getUserPermissions userId) :=
  .map (view_served (.permissionsOf (normalizeUserId userId)))

theorem checkUserPermission_served :
    RoleProgram RoleStmt.Free (checkUserPermission userId permissionName) :=
  .map (view_served (.countPermission (normalizeUserId userId) permissionName))

theorem checkUserRole_served : RoleProgram RoleStmt.Free (checkUserRole userId roleName) :=
  .map (view_served (.countRole (normalizeUserId userId) roleName))

/-! ### The login to the administration -/

/-- A statement of a login that asks questions about roles. -/
def LoginStmt : roleTables.machine.Stmt → Prop
  | .inl s => s.Within [.writeLockout, .updateUser, .createSession]
  | .inr s => s.Free

theorem RoleProgram.login {α : Type} {p : RoleReq AuthError α} (hp : RoleProgram RoleStmt.Free p) :
    p.Only LoginStmt := by
  apply hp.only.mono
  intro s hs
  obtain s | s := s
  · intro x hx
    have hnone : s.effect = none := hs
    rw [hnone] at hx
    cases hx
  · exact hs

theorem hasAnyPermission_served {permissions : List Str} :
    RoleProgram RoleStmt.Free (hasAnyPermission userId permissions) := by
  induction permissions with
  | nil => exact .result _
  | cons permission rest ih =>
    apply RoleProgram.bind (.attempt checkUserPermission_served)
    intro checked
    rcases checked with x | _ | _
    · exact ih
    · exact ih
    · exact .result _

theorem fillIsAdmin_served : RoleProgram RoleStmt.Free (fillIsAdmin userId) := by
  apply RoleProgram.bind (.attempt checkUserRole_served)
  intro checked
  cases checked with
  | ok isAdmin => exact .result _
  | error e => exact .result _

theorem isAdminConsoleUser_served : RoleProgram RoleStmt.Free (isAdminConsoleUser userId) := by
  apply RoleProgram.bind checkUserRole_served
  intro isAdmin
  cases isAdmin with
  | true => exact .result _
  | false => exact hasAnyPermission_served

/-- The login writes what a login writes, and looks at the roles after it. -/
theorem adminLogin_only {cfg : Config} {email password ip : Str} :
    (adminLogin cfg email password ip).Only LoginStmt := by
  apply Only.bind (Only.lift (performLogin_within (by simp) (by simp) (by simp)) fun _ hs => hs)
  intro outcome
  cases outcome with
  | mfaRequired challenge method => trivial
  | authenticated issued =>
    apply Only.bind fillIsAdmin_served.login
    intro isAdmin
    apply Only.bind
    · apply Only.bind (Only.mapError isAdminConsoleUser_served.login)
      intro allowed
      exact RoleProgram.ensure.login
    · intro _
      apply Only.bind (Only.lift withCookie_within fun _ hs => hs)
      intro response
      trivial

/-! ## Writes -/

theorem createRole_served {request : CreateRoleRequest} {key : Str} :
    RoleProgram (RoleStmt.Under Names.rolesWrite) (createRole request key) := by
  apply RoleProgram.bind .ofExcept
  intro name
  apply RoleProgram.bind (.read rfl)
  intro existing
  apply RoleProgram.bind .ensure
  intro _
  apply RoleProgram.bind .now
  intro now
  exact .map (.write rfl)

theorem updateRole_served {request : UpdateRoleRequest} :
    RoleProgram (RoleStmt.Under Names.rolesWrite) (updateRole roleName request) := by
  apply RoleProgram.bind (.read rfl)
  intro found
  apply RoleProgram.bind .orThrow
  intro role
  apply RoleProgram.bind .ensure
  intro _
  apply RoleProgram.bind .ensure
  intro _
  apply RoleProgram.bind .now
  intro now
  apply RoleProgram.bind (.write rfl)
  intro updated
  apply RoleProgram.bind .orThrow
  intro row
  exact .map (attachPermissions_served.under _)

theorem deleteRole_served :
    RoleProgram (RoleStmt.Under Names.rolesDelete) (deleteRole roleName) := by
  apply RoleProgram.bind (.read rfl)
  intro found
  apply RoleProgram.bind .orThrow
  intro role
  apply RoleProgram.bind .ensure
  intro _
  apply RoleProgram.bind ((view_served (.countAssigned role.key)).under _)
  intro count
  apply RoleProgram.bind .ensure
  intro _
  apply RoleProgram.bind (.write rfl)
  intro _
  exact .write rfl

theorem createPermission_served {request : CreatePermissionRequest} {key : Str} :
    RoleProgram (RoleStmt.Under Names.permissionsWrite) (createPermission request key) := by
  apply RoleProgram.bind .ofExcept
  intro name
  apply RoleProgram.bind ((view_served (.permissionByName name)).under _)
  intro existing
  apply RoleProgram.bind .ensure
  intro _
  apply RoleProgram.bind .now
  intro now
  exact .write rfl

/-! ### Writes of a single row

These programs look at the tables, and write one row of `user_role` or of
`role_permission`. -/

section

variable {S : RoleStmt → Prop} (hfree : ∀ s : RoleStmt, s.Free → S s)

include hfree

theorem assignRole_served {assignedBy : Str} (hassign : ∀ row, S (.assign row)) :
    RoleProgram S (assignRole userId roleName assignedBy) := by
  apply RoleProgram.bind (findRole_served.mono hfree)
  intro role
  apply RoleProgram.bind (.actor userId)
  intro actorKey
  apply RoleProgram.bind (.query (hfree (.isAssigned actorKey role.key) rfl))
  intro assigned
  apply RoleProgram.bind .ensure
  intro _
  apply RoleProgram.bind .now
  intro now
  exact .query (hassign _)

theorem assignRoleToUser_served {assignedBy : Str} (hassign : ∀ row, S (.assign row)) :
    RoleProgram S (assignRoleToUser userId roleName assignedBy) :=
  .bind (.actor assignedBy) fun _ => assignRole_served hfree hassign

theorem removeRoleFromUser_served (hunassign : ∀ actorKey roleKey, S (.unassign actorKey roleKey)) :
    RoleProgram S (removeRoleFromUser userId roleName) := by
  apply RoleProgram.bind (findRole_served.mono hfree)
  intro role
  apply RoleProgram.bind (.actor userId)
  intro actorKey
  exact .query (hunassign _ _)

theorem assignPermissionToRole_served {grantedBy : Str} (hgrant : ∀ row, S (.grant row)) :
    RoleProgram S (assignPermissionToRole roleName permissionName grantedBy) := by
  apply RoleProgram.bind (findRole_served.mono hfree)
  intro role
  apply RoleProgram.bind (findPermission_served.mono hfree)
  intro permission
  apply RoleProgram.bind (.actor grantedBy)
  intro operator
  apply RoleProgram.bind ((view_served (.isGranted role.key permission.key)).mono hfree)
  intro granted
  apply RoleProgram.bind .ensure
  intro _
  apply RoleProgram.bind .now
  intro now
  exact .query (hgrant _)

theorem removePermissionFromRole_served
    (hrevoke : ∀ roleKey permissionKey, S (.revoke roleKey permissionKey)) :
    RoleProgram S (removePermissionFromRole roleName permissionName) := by
  apply RoleProgram.bind (findRole_served.mono hfree)
  intro role
  apply RoleProgram.bind (findPermission_served.mono hfree)
  intro permission
  exact .query (hrevoke _ _)

end

/-- An operation that deletes no role keeps the rows of roles and
    permissions. -/
theorem RbacOperation.keepsRows (op : RbacOperation)
    (hop : ∀ roleName, op ≠ .deleteRole roleName) : RoleProgram RoleStmt.KeepsRows op.program := by
  have hfree : ∀ s : RoleStmt, s.Free → s.KeepsRows := fun s hs => hs.keepsRows
  cases op with
  | deleteRole roleName => exact absurd rfl (hop roleName)
  | assignRoleToUser userId roleName assignedBy =>
    exact assignRoleToUser_served hfree fun _ => trivial
  | assignRoleAsSystem userId roleName => exact assignRole_served hfree fun _ => trivial
  | removeRoleFromUser userId roleName =>
    exact removeRoleFromUser_served hfree fun _ _ => trivial
  | assignPermissionToRole roleName permissionName grantedBy =>
    exact assignPermissionToRole_served hfree fun _ => trivial
  | removePermissionFromRole roleName permissionName =>
    exact removePermissionFromRole_served hfree fun _ _ => trivial

end

/-- **What an operation may write.** It issues nothing for which the
    permission that it asks for is not enough. -/
theorem RoleOperation.served (op : RoleOperation) (operator : Str) :
    RoleProgram (RoleStmt.Under op.permission) (op.program operator) := by
  have hfree : ∀ s : RoleStmt, s.Free → s.Under op.permission := fun s hs => hs.under _
  have hwrite : ∀ s : RoleStmt, s.authority = some [op.permission] → s.Under op.permission :=
    fun s hs => RoleStmt.under_of_authority hs
  cases op with
  | createRole request key => exact .map createRole_served
  | listRoles page limit => exact .map (listRoles_served.under _)
  | getRole roleName => exact .map (getRole_served.under _)
  | updateRole roleName request => exact .map updateRole_served
  | deleteRole roleName => exact .map deleteRole_served
  | createPermission request key => exact .map createPermission_served
  | listPermissions page limit => exact .map ((view_served (.listPermissions _ _)).under _)
  | getPermission permissionName => exact .map (findPermission_served.under _)
  | getRolePermissions roleName => exact .map (getRolePermissions_served.under _)
  | assignPermissionToRole roleName permissionName =>
    exact .map (assignPermissionToRole_served hfree fun _ => hwrite _ rfl)
  | removePermissionFromRole roleName permissionName =>
    exact .map (removePermissionFromRole_served hfree fun _ _ => hwrite _ rfl)
  | assignRoleToUser userId roleName =>
    exact .map (assignRoleToUser_served hfree fun _ => hwrite _ rfl)
  | removeRoleFromUser userId roleName =>
    exact .map (removeRoleFromUser_served hfree fun _ _ => hwrite _ rfl)

end SoulAuth
