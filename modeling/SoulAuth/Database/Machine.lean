import SoulAuth.Framework.Interleaving
import SoulAuth.Database.Tokens
import SoulAuth.Database.Factors

/-! # The running system as a machine

The shared state is the database, the clock, and the number of random
values drawn so far. Every single statement is atomic; a request is a
sequence of them. With each statement the scheduler decides how much time
has passed and whether the statement fails: a *refused* statement does
nothing, one that is rolled back for a *conflict* does nothing either, and
one whose *reply is lost* is executed although the caller sees a failure.
-/

namespace SoulAuth

open Framework

/-- The database. -/
structure Db where
  identity : IdentityTables
  sessions : List Session
  resetTokens : List PasswordResetToken
  clients : List OidcClient
  codes : List OidcAuthorizationCode
  accessTokens : List OidcAccessToken
  refreshTokens : List OidcRefreshToken
  lockouts : List AccountLockout
  mfa : List UserMfa
  ai : AiActorTables
  deriving Repr

/-- The rows of `user`. -/
abbrev Db.users (db : Db) : List User := db.identity.users

/-- A database with the schema and no rows. -/
def Db.empty : Db := ⟨⟨[], [], [], [], []⟩, [], [], [], [], [], [], [], [], ⟨[], []⟩⟩

/-- The database, the clock, and the number of values drawn. -/
structure World where
  db : Db
  now : Timestamp
  drawn : Nat

/-- A freshly deployed system at a time. -/
def World.fresh (now : Timestamp) : World := ⟨Db.empty, now, 0⟩

/-- How the scheduler lets a statement fail. -/
inductive Fault
  | refused
  | conflict
  | lostReply
  deriving DecidableEq, Repr

/-- What the scheduler decides with every statement. -/
structure Ctx where
  elapsed : Nat
  fault : Option Fault
  deriving DecidableEq, Repr

/-- No time passes and nothing fails. -/
def Ctx.calm : Ctx := ⟨0, none⟩

/-- The statements on the database, by table. -/
inductive DbStmt
  | identity (s : IdentityStmt)
  | session (s : SessionStmt)
  | resetToken (s : ResetTokenStmt)
  | client (s : ClientStmt)
  | code (s : CodeStmt)
  | accessToken (s : AccessTokenStmt)
  | refreshToken (s : RefreshTokenStmt)
  | lockout (s : LockoutStmt)
  | mfa (s : MfaStmt)
  | ai (s : AiActorStmt)
  deriving DecidableEq, Repr

@[reducible] def DbStmt.Reply : DbStmt → Type
  | identity s => s.Reply
  | session s => s.Reply
  | resetToken s => s.Reply
  | client s => s.Reply
  | code s => s.Reply
  | accessToken s => s.Reply
  | refreshToken s => s.Reply
  | lockout s => s.Reply
  | mfa s => s.Reply
  | ai s => s.Reply

/-- Execute a statement at the time `now` of the database. Each group of
    statements writes its own tables only. -/
def DbStmt.exec (now : Timestamp) : (s : DbStmt) → Db → Except DbFailure s.Reply × Db
  | identity s, db =>
    let out := s.exec db.identity; (out.1, { db with identity := out.2 })
  | session s, db =>
    let out := s.exec db.users db.sessions; (out.1, { db with sessions := out.2 })
  | resetToken s, db =>
    let out := s.exec now db.resetTokens; (out.1, { db with resetTokens := out.2 })
  | client s, db => let out := s.exec db.clients; (out.1, { db with clients := out.2 })
  | code s, db => let out := s.exec db.users db.codes; (out.1, { db with codes := out.2 })
  | accessToken s, db =>
    let out := s.exec db.users db.accessTokens; (out.1, { db with accessTokens := out.2 })
  | refreshToken s, db =>
    let out := s.exec db.users db.refreshTokens; (out.1, { db with refreshTokens := out.2 })
  | lockout s, db =>
    let out := s.exec now db.lockouts; (out.1, { db with lockouts := out.2 })
  | mfa s, db => let out := s.exec db.mfa; (out.1, { db with mfa := out.2 })
  | ai s, db => let out := s.exec db.ai; (out.1, { db with ai := out.2 })

/-- The atomic steps of a request. Password hashing and verification touch
    no shared state; they are steps so that a trace shows them. -/
inductive Stmt
  | now
  | uuid
  | secureToken
  | hashPassword (password : Str)
  | verifyPassword (storedHash password : Str)
  | db (s : DbStmt)
  deriving DecidableEq, Repr

@[reducible] def Stmt.Resp : Stmt → Type
  | now => Timestamp
  | uuid | secureToken | hashPassword _ => Str
  | verifyPassword _ _ => Bool
  | db s => Except DbFailure s.Reply

/-- Time passes. -/
def World.advance (w : World) (elapsed : Nat) : World := { w with now := w.now + elapsed }

variable [Platform]

/-- Execute one step of a request. -/
def Stmt.exec (ctx : Ctx) : (s : Stmt) → World → s.Resp × World
  | now, w => let w := w.advance ctx.elapsed; (w.now, w)
  | uuid, w =>
    let w := w.advance ctx.elapsed
    (Platform.uuid w.drawn, { w with drawn := w.drawn + 1 })
  | secureToken, w =>
    let w := w.advance ctx.elapsed
    (Platform.secureToken w.drawn, { w with drawn := w.drawn + 1 })
  | hashPassword pw, w =>
    let w := w.advance ctx.elapsed
    (Platform.argon2Hash w.drawn pw, { w with drawn := w.drawn + 1 })
  | verifyPassword h pw, w => (Platform.argon2Verify h pw, w.advance ctx.elapsed)
  | db s, w =>
    let w := w.advance ctx.elapsed
    match ctx.fault with
    | some .refused => (.error .connection, w)
    | some .conflict => (.error .conflict, w)
    | some .lostReply => (.error .connection, { w with db := (s.exec w.now w.db).2 })
    | none => let out := s.exec w.now w.db; (out.1, { w with db := out.2 })

/-- The machine of the running system. -/
@[reducible] def machine : Machine where
  State := World
  Stmt := Stmt
  Resp := Stmt.Resp
  Ctx := Ctx
  exec := Stmt.exec

/-- A part of a request that fails with `ε`. -/
abbrev Req (ε α : Type) := Prog machine ε α

/-- Error types that a failed database statement turns into. -/
class OfDb (ε : Type) where
  ofDb : DbFailure → ε

instance : OfDb AuthError := ⟨AuthError.ofDb⟩

section

variable {ε : Type}

/-- Read the clock. -/
def getNow : Req ε Timestamp := .step Stmt.now fun t => .done (.ok t)

/-- Draw a UUID. -/
def newUuid : Req ε Str := .step Stmt.uuid fun v => .done (.ok v)

/-- Draw a random token. -/
def newSecureToken : Req ε Str := .step Stmt.secureToken fun v => .done (.ok v)

/-- `hash_password_blocking`. -/
def hashPassword (password : Str) : Req ε Str :=
  .step (Stmt.hashPassword password) fun h => .done (.ok h)

/-- Issue a database statement and fail when it fails. -/
def query [OfDb ε] (s : DbStmt) : Req ε s.Reply :=
  .step (Stmt.db s) fun r => match r with
    | .ok a => .done (.ok a)
    | .error e => .done (.error (OfDb.ofDb e))

end

/-- `verify_password_blocking`. -/
def verifyPassword (storedHash password : Str) : Req AuthError Unit :=
  if Platform.argon2WellFormed storedHash then
    .step (Stmt.verifyPassword storedHash password) fun ok =>
      Prog.ensure (ok = true) .invalidCredentials
  else throw (.serverError "malformed password hash")

end SoulAuth
