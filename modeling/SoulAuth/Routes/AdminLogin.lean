import SoulAuth.Routes.Auth
import SoulAuth.Services.Rbac

/-! # The login to the administration

`admin_login` is the ordinary login with a look at the roles of the user
afterwards. The roles stand beside the tables of the login.
-/

namespace SoulAuth

open Framework

/-- `ADMIN_CONSOLE_READ`. -/
def adminConsoleRead : List Str :=
  ["soulauth:users.read".toList, "soulauth:roles.read".toList, "soulauth:security.read".toList,
    "soulauth:audit.read".toList]

/-- What `ensure_admin_console_access` answers to a user without access. -/
def noConsoleAccess : AuthError :=
  .forbidden "Current account does not have admin console access"

/-- `LoginResponse`, with the flag `is_admin` of the user. -/
inductive AdminLoginReply
  | authenticated (response : LoginResponse) (isAdmin : Bool)
  | mfaRequired (challenge : MfaChallengeClaims) (method : MfaMethod)
  deriving DecidableEq

variable [Platform]

/-- One of the permissions is the user's; a check that fails finds none. -/
def hasAnyPermission (userId : Str) : List Str → RoleReq AuthError Bool
  | [] => return false
  | permission :: rest => do
    let checked : Except AuthError Bool ← (checkUserPermission userId permission).attempt
    match checked with
    | .ok true => return true
    | _ => hasAnyPermission userId rest

/-- `is_admin_console_user`. -/
def isAdminConsoleUser (userId : Str) : RoleReq AuthError Bool := do
  let isAdmin ← checkUserRole userId adminRole
  if isAdmin then return true else hasAnyPermission userId adminConsoleRead

/-- `fill_is_admin`. -/
def fillIsAdmin (userId : Str) : RoleReq AuthError Bool := do
  let checked : Except AuthError Bool ←
    (checkUserRole (normalizeUserId userId) adminRole).attempt
  match checked with
  | .ok isAdmin => return isAdmin
  | .error _ => return false

/-- `ensure_admin_console_access`. -/
def ensureAdminConsoleAccess (userId : Str) : RoleReq AuthError Unit := do
  let allowed ← (isAdminConsoleUser userId).mapError fun _ =>
    .serverError "Failed to verify admin permissions"
  Prog.ensure (allowed = true) noConsoleAccess

/-- `admin_login`. -/
def adminLogin (cfg : Config) (email password ip : Str) : RoleReq AuthError AdminLoginReply := do
  let outcome ← (performLogin cfg email password ip).lift roleTables
  match outcome with
  | .authenticated issued =>
    let isAdmin ← fillIsAdmin issued.user.id
    ensureAdminConsoleAccess issued.user.id
    let response ← (withCookie issued).lift roleTables
    return .authenticated response isAdmin
  | .mfaRequired challenge method => return .mfaRequired challenge method

end SoulAuth
