import SoulAuth.Routes.Rbac
import SoulAuth.Routes.System

/-! # The first administrator

An instance without an administrator hands the role out once, to whoever
shows the bootstrap token. The request goes through stages, each a statement
of its own: the claim of a row under a fixed key, the registration, the mark
that the role is pending, the role, the mark that all is done. A request that
stopped in between is resumed by another one with the same email address.
-/

namespace SoulAuth

open Framework Framework.System

/-- `BootstrapGate`: no token when the path is closed. -/
structure BootstrapGate where
  token : Option Str
  deriving DecidableEq, Repr

/-- `BootstrapGate::verify`. -/
def BootstrapGate.verify (gate : BootstrapGate) (presented : Str) : Bool :=
  gate.token = some presented

/-- `BootstrapAdminRequest`. -/
structure BootstrapAdminRequest where
  token : Str
  email : Str
  username : Str
  password : Str
  deriving DecidableEq, Repr

/-- `bootstrap_rejected`. -/
def bootstrapRejected : AuthError := .forbidden "Bootstrap is not available"

/-- `Claim`. -/
inductive Claim
  | fresh
  | resumed (userId : Str)
  deriving DecidableEq, Repr

/-- The user whose role is pending, when the row is one of this address. -/
def BootstrapClaim.resumable (row : BootstrapClaim) (email : Str) : Option Str :=
  if row.stage = .rolePending ∧ row.email = email then
    row.userId.filter fun userId => userId ≠ []
  else none

variable [Platform]

/-- `claim_bootstrap`. -/
def claimBootstrap (email : Str) : RoleReq AuthError Claim := do
  let created : Except AuthError Unit ← (roleQuery (.createClaim email)).attempt
  match created with
  | .ok () => return .fresh
  | .error _ =>
    let found : Option BootstrapClaim ← roleQuery .readClaim
    let row ← Prog.orThrow bootstrapRejected found
    let userId ← Prog.orThrow bootstrapRejected (row.resumable email)
    return .resumed userId

/-- The account that the role is for: a new one, or the one of the claim. -/
def bootstrapAccount (cfg : Config) (request : BootstrapAdminRequest) (ip : Str) :
    Claim → RoleReq AuthError Str
  | .fresh => do
    let registered : Except AuthError (UserResponse × Option IssuedSession) ←
      (register cfg ⟨request.email, some request.username, request.password⟩ ip).attempt.lift
        roleTables
    match registered with
    | .ok response =>
      (roleQuery (.markRolePending response.1.id)).swallow
      return response.1.id
    | .error e =>
      (roleQuery .deleteClaim).swallow
      throw e
  | .resumed userId => return userId

/-- `bootstrap_admin`. -/
def bootstrapAdmin (cfg : Config) (gate : BootstrapGate) (request : BootstrapAdminRequest)
    (ip : Str) : RoleReq AuthError Str := do
  let initialised : Bool ← roleQuery .adminExists
  Prog.ensure (initialised = false) bootstrapRejected
  Prog.ensure (gate.verify request.token = true) bootstrapRejected
  let claim ← claimBootstrap request.email
  let userId ← bootstrapAccount cfg request ip claim
  assignRoleAsSystem userId adminRole
  (roleQuery .finishClaim).swallow
  return userId

/-! ## The instance -/

/-- The requests to an instance; an administrator that was let in edits the
    roles as the user `operator`. -/
inductive Operation
  | bootstrap (cfg : Config) (gate : BootstrapGate) (request : BootstrapAdminRequest) (ip : Str)
  | roles (operator : Str) (op : RoleOperation)
  | call (r : Call)

/-- What they answer. -/
inductive OperationReply
  | administrator (userId : Str)
  | roles (r : RoleReply)
  | reply (r : Reply)
  deriving DecidableEq

/-- The program that serves a request. -/
def Operation.program : Operation → RoleReq Failure OperationReply
  | bootstrap cfg gate request ip =>
    (bootstrapAdmin cfg gate request ip).mapError .auth >>= fun userId =>
      return .administrator userId
  | roles operator op => (op.program operator).mapError .auth >>= fun reply => return .roles reply
  | call r => r.program.lift roleTables >>= fun reply => return .reply reply

/-- The instance: the server, its roles, and the bootstrap. -/
@[reducible] def deployment : System :=
  extended (S := server) roleTables Operation.program

end SoulAuth
