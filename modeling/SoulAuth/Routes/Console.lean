import SoulAuth.Framework.Widening
import SoulAuth.Routes.AdminLogin
import SoulAuth.Routes.Bootstrap
import SoulAuth.Routes.CachedAuth

/-! # The endpoints behind a permission

Every endpoint that asks for a session extracts its caller first, from the
cache of authenticated users or from the session. The endpoints of the
administrators look up a permission of the caller after that, and only then
does the operation begin. Together with the endpoints that ask for neither, the
login to the administration and the bootstrap of the first administrator, they
are one system, in which the tables of roles decide who may change the tables
of roles.
-/

namespace SoulAuth

open Framework Framework.System

/-! ## The operations -/

/-- The endpoints outside `/api/rbac` that ask for a permission. -/
inductive Management
  | updateAccountStatus (userId : Str) (status : AccountStatus)
  | updateMembership (userId level : Str) (expiry : Option Timestamp)
  | lockoutStatus (scope : LockoutType) (identifier : Str)
  | unlock (scope : LockoutType) (identifier : Str)
  | createClient (request : CreateOidcClientRequest)
  | updateClient (clientId : Str) (request : CreateOidcClientRequest)
  | disableClient (clientId : Str)
  | regenerateClientSecret (clientId : Str)
  | registerAiActor (publicKey label : Str)
  | addAiCredential (actorKey publicKey label : Str)
  | revokeAiCredential (actorKey credentialKey : Str)
  | setAiActorStatus (actorKey : Str) (status : ActorStatus)
  deriving DecidableEq, Repr

namespace Management

/-- The permission that an endpoint asks for. -/
def permission : Management → Str
  | updateAccountStatus _ _ | updateMembership _ _ _ => Names.usersWrite
  | lockoutStatus _ _ => Names.securityRead
  | unlock _ _ => Names.securityWrite
  | createClient _ | updateClient _ _ | disableClient _ | regenerateClientSecret _ =>
    Names.oidcClientsWrite
  | registerAiActor _ _ | addAiCredential _ _ _ | revokeAiCredential _ _
  | setAiActorStatus _ _ => Names.actorsWrite

/-- What is done once the caller is let in, on behalf of the user `operator`. -/
def action (cfg : Config) (operator : Str) : Management → UserAction
  | updateAccountStatus userId status => .updateAccountStatus userId status
  | updateMembership userId level expiry =>
    .endpoint fun _ => ⟨cfg, .updateMembership userId level expiry⟩
  | lockoutStatus scope identifier => .endpoint fun _ => ⟨cfg, .lockoutStatus scope identifier⟩
  | unlock scope identifier => .endpoint fun _ => ⟨cfg, .unlock scope identifier⟩
  | createClient request => .endpoint fun _ => ⟨cfg, .createClient request operator⟩
  | updateClient clientId request => .endpoint fun _ => ⟨cfg, .updateClient clientId request⟩
  | disableClient clientId => .endpoint fun _ => ⟨cfg, .disableClient clientId⟩
  | regenerateClientSecret clientId =>
    .endpoint fun _ => ⟨cfg, .regenerateClientSecret clientId⟩
  | registerAiActor publicKey label => .endpoint fun _ => ⟨cfg, .registerAiActor publicKey label⟩
  | addAiCredential actorKey publicKey label =>
    .endpoint fun _ => ⟨cfg, .addAiCredential actorKey publicKey label⟩
  | revokeAiCredential actorKey credentialKey =>
    .endpoint fun _ => ⟨cfg, .revokeAiCredential actorKey credentialKey⟩
  | setAiActorStatus actorKey status => .endpoint fun _ => ⟨cfg, .setAiActorStatus actorKey status⟩

end Management

/-- What a user does for itself: endpoints behind the extractor that ask for no
    permission. -/
inductive OwnAction
  | currentUser
  | initializePassword (password : Str)
  | logout
  | logoutAll
  | mfaSetup
  | mfaEnable (code : Str)
  | mfaDisable (code : Str)
  deriving DecidableEq, Repr

/-- The action of the server. -/
def OwnAction.action (cfg : Config) : OwnAction → UserAction
  | currentUser => .currentUser
  | initializePassword password =>
    .endpoint fun user => ⟨cfg, .initializePassword user.key password⟩
  | logout => .logout
  | logoutAll => .logoutAll
  | mfaSetup => .endpoint fun user => ⟨cfg, .mfaSetup user.key⟩
  | mfaEnable code => .endpoint fun user => ⟨cfg, .mfaEnable user.key code⟩
  | mfaDisable code => .endpoint fun user => ⟨cfg, .mfaDisable user.key code⟩

/-- The endpoint asks for no `AuthedUser`, or runs in the background. -/
def Endpoint.isPublic : Endpoint → Bool
  | initializePassword _ _ | logout _ | logoutAll _ | mfaSetup _ | mfaEnable _ _ | mfaDisable _ _
  | updateAccountStatus _ _ | updateMembership _ _ _ | lockoutStatus _ _ | unlock _ _
  | createClient _ _ | updateClient _ _ | disableClient _ | regenerateClientSecret _
  | registerAiActor _ _ | addAiCredential _ _ _ | revokeAiCredential _ _
  | setAiActorStatus _ _ | currentUser _ | currentUserCached _ | resetPassword _ _ => false
  | _ => true

/-- A request for which no user needs to be let in. -/
structure PublicCall where
  call : Call
  isPublic : call.endpoint.isPublic = true
  deriving DecidableEq

/-- The requests. -/
inductive ConsoleCall
  | anyone (r : PublicCall)
  /-- A new password clears the cache. -/
  | resetPassword (cfg : Config) (token newPassword : Str)
  /-- The hourly clean-up of the cache. -/
  | purgeExpired
  | adminLogin (cfg : Config) (email password ip : Str)
  | bootstrap (cfg : Config) (gate : BootstrapGate) (request : BootstrapAdminRequest) (ip : Str)
  | own (cfg : Config) (bearer : Claims) (action : OwnAction)
  | manage (cfg : Config) (bearer : Claims) (op : Management)
  | roles (bearer : Claims) (op : RoleOperation)
  /-- The two listings of a user, which the user itself may ask for. -/
  | userRoles (bearer : Claims) (userId : Str)
  | userPermissions (bearer : Claims) (userId : Str)
  /-- The two questions that a user asks about itself. -/
  | checkPermission (bearer : Claims) (permissionName : Str)
  | checkRole (bearer : Claims) (roleName : Str)
  deriving DecidableEq

/-- The successful responses. -/
inductive ConsoleReply
  | reply (r : Reply)
  | adminLogin (r : AdminLoginReply)
  | administrator (userId : Str)
  | roles (r : RoleReply)
  | names (permissions : List Str)
  | userRoles (userId : Str) (roles : List RoleWithPermissions)
  | checked (holds : Bool) (userId name : Str)
  deriving DecidableEq

variable [Platform]

/-! ## The tables of roles and the cache -/

/-- Beside the machine stand the tables of roles and, in the memory of the
    process, the cache of authenticated users. -/
@[reducible] def consoleTables : Extension machine := roleTables.both authCache

/-- A part of a request that may use both. -/
abbrev ConsoleReq (ε α : Type) := Prog consoleTables.machine ε α

/-- A program of the role service. -/
def ofRoles {ε α : Type} (p : RoleReq ε α) : ConsoleReq ε α := p.widen .left

/-- A program of the server behind its cache. -/
def ofCache {ε α : Type} (p : CacheReq ε α) : ConsoleReq ε α := p.widen .right

/-! ## The gate -/

/-- The text of an error of the database. -/
def AuthError.databaseText : AuthError → Str
  | .databaseError message => "Database error: ".toList ++ message
  | _ => []

/-- The macro `require_permission!`. -/
def requirePermission (userId permission : Str) : RoleReq AuthError Unit := do
  let checked : Except AuthError Bool ← (checkUserPermission userId permission).attempt
  match checked with
  | .ok has => Prog.ensure (has = true) (.missingPermission (String.ofList permission))
  | .error e => throw (.databaseError ("Permission check failed: ".toList ++ e.databaseText))

/-- The look at the permission that lets another user see a listing; a failed
    look-up counts as none. -/
def requireUsersRead (userId : Str) : RoleReq AuthError Unit := do
  let checked : Except AuthError Bool ← (checkUserPermission userId Names.usersRead).attempt
  Prog.ensure (checked.toOption.getD false = true)
    (.missingPermission (String.ofList Names.usersRead))

/-- The extractor `AuthedUser`, followed by the gate. -/
def permitted (bearer : Claims) (permission : Str) : ConsoleReq AuthError User := do
  let user ← ofCache (Cached.authedUser bearer)
  ofRoles (requirePermission user.key permission)
  return user

/-- The gate of the two listings: a user may ask about itself. -/
def permittedOrSelf (bearer : Claims) (userId : Str) : ConsoleReq AuthError Unit := do
  let user ← ofCache (Cached.authedUser bearer)
  if user.key = userId then return () else ofRoles (requireUsersRead user.key)

/-! ## The programs -/

/-- A program of the role service for a caller that was extracted. -/
def forCaller {α : Type} (bearer : Claims) (p : User → RoleReq AuthError α) :
    ConsoleReq AuthError α := do
  let user ← ofCache (Cached.authedUser bearer)
  ofRoles (p user)

/-- A listing of a user. -/
def forSelf {α : Type} (bearer : Claims) (userId : Str) (p : RoleReq AuthError α) :
    ConsoleReq AuthError α := do
  permittedOrSelf bearer userId
  ofRoles p

/-- A response of the console. -/
def answer {ε α : Type} (f : α → ConsoleReply) (e : ε → Failure) (p : ConsoleReq ε α) :
    ConsoleReq Failure ConsoleReply :=
  p.mapError e >>= fun a => .done (.ok (f a))

/-- The program that serves a request. -/
def ConsoleCall.program : ConsoleCall → ConsoleReq Failure ConsoleReply
  | anyone r => answer .reply id (ofCache (CachedCall.program (.call r.call)))
  | resetPassword cfg token newPassword =>
    answer .reply id (ofCache (CachedCall.program (.resetPassword cfg token newPassword)))
  | purgeExpired => answer .reply id (ofCache (CachedCall.program .purgeExpired))
  | adminLogin cfg email password ip =>
    answer .adminLogin .auth (ofRoles (SoulAuth.adminLogin cfg email password ip))
  | bootstrap cfg gate request ip =>
    answer .administrator .auth (ofRoles (bootstrapAdmin cfg gate request ip))
  | own cfg bearer action =>
    answer .reply id (ofCache (CachedCall.program (.authed bearer (action.action cfg))))
  | manage cfg bearer op =>
    answer .reply id ((permitted bearer op.permission).mapError .auth >>= fun user =>
      ofCache ((op.action cfg user.key).run bearer user))
  | roles bearer op =>
    answer .roles .auth (permitted bearer op.permission >>= fun user =>
      ofRoles (op.program user.key))
  | userRoles bearer userId =>
    answer (.userRoles (normalizeUserId userId)) .auth
      (forSelf bearer (normalizeUserId userId) (getUserRoles (normalizeUserId userId)))
  | userPermissions bearer userId =>
    answer .names .auth
      (forSelf bearer (normalizeUserId userId) (getUserPermissions (normalizeUserId userId)))
  | checkPermission bearer permissionName =>
    answer (fun r => .checked r.1 r.2 permissionName) .auth (forCaller bearer fun user => do
      return (← checkUserPermission user.key permissionName, user.key))
  | checkRole bearer roleName =>
    answer (fun r => .checked r.1 r.2 roleName) .auth (forCaller bearer fun user => do
      return (← checkUserRole user.key roleName, user.key))

/-- The server with its console and its cache. -/
@[reducible] def console : System :=
  extended (S := server) consoleTables ConsoleCall.program

end SoulAuth
