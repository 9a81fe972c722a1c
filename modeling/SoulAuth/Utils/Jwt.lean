import SoulAuth.Services.Credential
import SoulAuth.Services.Identity

/-! # The extractors of authenticated requests

A session token is good while its session row is there and not expired, and
while the identity root behind it may authenticate. A human endpoint and an
endpoint of AI actors each refuse the tokens of the other kind.
-/

namespace SoulAuth

open Framework

variable [Platform]

/-- `decode_and_verify_token`: the signature is in the claims' type; the
    validation of the expiry allows a minute. -/
def decodeAndVerifyToken (claims : Claims) : Req AuthError Unit := do
  let now ← getNow
  Prog.ensure (¬ claims.exp < now - 60) .invalidToken
  let now ← getNow
  let active : Bool ← query (.session (.isActive (hashBearer claims) now))
  Prog.ensure (active = true) .invalidToken

/-- `load_user_from_actor`. -/
def loadUserFromActor (actorKey : Str) : Req AuthError User := do
  let found : Option User ← query (.identity (.user (.findByActor actorKey)))
  Prog.orThrow .userNotFound found

/-- The extractor `AuthedUser` with an empty cache: the identity root first,
    then the account. -/
def authedUser (claims : Claims) : Req AuthError User := do
  decodeAndVerifyToken claims
  Prog.ensure (claims.subjectType ≠ some .agent)
    (.forbidden "This endpoint is for human accounts; AI actor sessions cannot access it")
  let actor ← authenticableActor claims.sub .human
  let user ← loadUserFromActor actor.actor.key
  Prog.ofExcept user.ensureUsable
  return user

/-- The extractor `AuthedUser` when the cache has a user for the token: the
    gate is passed again, the session is not looked up. -/
def authedUserCached (user : User) : Req AuthError User := do
  let _ ← authenticableActorOfUser user.key
  Prog.ofExcept user.ensureUsable
  return user

/-- The extractor `AuthedActor`. -/
def authedActor (claims : Claims) : Req AuthError ActorIdentity := do
  decodeAndVerifyToken claims
  Prog.ensure (claims.subjectType = some .agent)
    (.forbidden "This endpoint is for AI actor sessions")
  let found : Option ActorIdentity ← findActorById claims.sub
  let actor ← Prog.orThrow .invalidToken found
  Prog.ensure (actor.canAuthenticate = true) .accountSuspended
  return actor

/-- The kind of actor that a token speaks for. -/
def Claims.actorKind (claims : Claims) : ActorKind :=
  if claims.subjectType = some .agent then .aiActor else .human

/-- The extractor `AuthedSession`: the session of either kind of actor, each
    through its own gate. -/
def authedSession (claims : Claims) : Req AuthError (ActorIdentity × Session) := do
  decodeAndVerifyToken claims
  let gate ← authenticableActor claims.sub claims.actorKind
  if claims.actorKind = .human then
    let user ← loadUserFromActor gate.actor.key
    Prog.ofExcept user.ensureUsable
  let rows : Option Session ← query (.session (.findByToken (hashBearer claims)))
  let session ← Prog.orThrow .invalidToken rows
  return (gate.actor, session)

/-- `get_current_user`, after the extractor. A failed look-up of the
    credential reads as no password. -/
def currentUserResponse (user : User) : Req AuthError UserResponse := do
  let actorKey : Except AuthError Str ← (actorRefOfUser (normalizeUserId user.key)).attempt
  match actorKey with
  | .error _ => return .of user false
  | .ok actorKey =>
    let has : Except AuthError Bool ← (hasPassword actorKey).attempt
    return .of user (has.toOption.getD false)

end SoulAuth
