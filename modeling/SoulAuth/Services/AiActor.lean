import SoulAuth.Services.Identity

/-! # AI actors: keys, challenges and sessions -/

namespace SoulAuth

open Framework

variable [Platform]

/-- The refusal of an unknown actor. -/
def actorNotFound : AuthError := .notFound "Actor not found"

/-- `require_ai_actor`. -/
def requireAiActor (actorKey : Str) : Req AuthError ActorIdentity := do
  let found : Option ActorIdentity ← findActorById actorKey
  let actor ← Prog.orThrow actorNotFound found
  Prog.ensure (actor.actorKind = .aiActor) actorNotFound
  return actor

/-- `ED25519_PUBLIC_KEY_LEN` and `ED25519_SIGNATURE_LEN`. -/
def ed25519PublicKeyLen : Nat := 32

def ed25519SignatureLen : Nat := 64

/-- `validate_public_key`. -/
def validatePublicKey (publicKey : Str) : Except AuthError Unit := do
  let some bytes := Platform.base64UrlDecode publicKey |
    throw (.badRequest "public_key must be base64url (no padding)")
  if bytes.length ≠ ed25519PublicKeyLen then
    throw (.badRequest "public_key must decode to exactly 32 bytes")
  if Platform.isVerifyingKey bytes = false then
    throw (.badRequest "public_key is not a valid Ed25519 key")

/-- `decode_signature`. The signature is checked as the text that it was. -/
def decodeSignature (signature : Str) : Except AuthError Unit := do
  let some bytes := Platform.base64UrlDecode signature |
    throw (.badRequest "signature must be base64url (no padding)")
  if bytes.length ≠ ed25519SignatureLen then
    throw (.badRequest "signature must decode to exactly 64 bytes")

/-- The translation of a registered key into a conflict. -/
def translateKeyViolation : AuthError → AuthError
  | .databaseError message =>
    if Str.containsStr message "already contains".toList &&
        Str.containsStr message "ai_actor_credential_key_idx".toList then
      .badRequest "This public key is already registered"
    else .databaseError message
  | error => error

/-- `add_credential_for`. -/
def addCredentialFor (actorKey publicKey label : Str) : Req AuthError AiActorCredential := do
  let now ← getNow
  -- the row has no key yet: the database draws one
  let key ← newUuid
  let credential : AiActorCredential :=
    { key := key, actorIdentityId := actorKey, publicKey := publicKey,
      algorithm := allowedAlgorithm, label := label, status := .active, createdAt := now,
      revokedAt := none, lastUsedAt := none }
  Prog.mapError translateKeyViolation (query (.ai (.createCredential credential)))
  return credential

/-- `register`. -/
def registerAiActor (publicKey label : Str) :
    Req AuthError (ActorIdentity × AiActorCredential) := do
  Prog.ofExcept (validatePublicKey publicKey)
  let actor ← createAiActor
  let credential ← addCredentialFor actor.key publicKey label
  return (actor, credential)

/-- `add_credential`. -/
def addAiCredential (actorKey publicKey label : Str) : Req AuthError AiActorCredential := do
  Prog.ofExcept (validatePublicKey publicKey)
  let actor ← requireAiActor actorKey
  addCredentialFor actor.key publicKey label

/-- The reference of a key in sessions. -/
def aiCredentialRef (key : Str) : Str := recordAddress "ai_actor_credential".toList key

/-- `revoke_credential`: the key, and the sessions that it established. -/
def revokeAiCredential (actorKey credentialKey : Str) : Req AuthError Unit := do
  let now ← getNow
  let updated : Bool ← query (.ai (.revokeCredential credentialKey actorKey now))
  Prog.ensure (updated = true) (.notFound "Credential not found")
  query (.session (.deleteByCredential actorKey (aiCredentialRef credentialKey)))

/-- `set_actor_status`: of AI actors only, and never of a retired one. -/
def setAiActorStatus (actorKey : Str) (status : ActorStatus) : Req AuthError Unit := do
  let found : Option ActorIdentity ← findActorById actorKey
  let actor ← Prog.orThrow actorNotFound found
  Prog.ensure (actor.actorKind = .aiActor)
    (.forbidden "This endpoint only manages AI actors")
  Prog.ensure (actor.status ≠ .retired)
    (.forbidden "A retired actor cannot change status; its subject must never be reused")
  setStatus actor status
  if status ≠ .active then query (.session (.deleteByActor actorKey)) else return ()

/-- `issue_challenge`: the nonce and the payload to sign. -/
def issueChallenge (cfg : Config) (actorKey : Str) : Req AuthError (Str × Str) := do
  let actor ← Prog.mapError (fun _ => .invalidCredentials) (requireAiActor actorKey)
  Prog.ensure (actor.canAuthenticate = true) .invalidCredentials
  let nonce ← newSecureToken
  let now ← getNow
  -- the row has no key yet: the database draws one
  let key ← newUuid
  query (.ai (.createChallenge
    { key := key, actorIdentityId := actor.key, nonce := nonce, issuedAt := now,
      expiresAt := now + challengeTtlSeconds, consumed := false }))
  return (nonce, canonicalPayload cfg.appUrl (actorAddress actorKey) nonce)

/-- `issue_session`. -/
def issueAiSession (cfg : Config) (actor : ActorIdentity) (credential : AiActorCredential) :
    Req AuthError Claims := do
  let now ← getNow
  let exp := now + cfg.sessionTtlSeconds
  let sessionKey ← newUuid
  let claims : Claims :=
    { sub := actor.key, exp := exp, iat := now, sessionId := some sessionKey,
      subjectType := some .agent }
  query (.session (.create
    { key := sessionKey, userId := actor.key, tokenHash := hashBearer claims, expiresAt := exp,
      createdAt := now, methods := [.ed25519Key],
      credentialRefs := [aiCredentialRef credential.key], authenticatedAt := some now }))
  return claims

/-- `AiActorProof`, what an actor answers a challenge with. -/
structure AiActorProof where
  actorKey : Str
  nonce : Str
  algorithm : Str
  signature : Str
  deriving DecidableEq, Repr

/-- `authenticate`: the challenge is consumed before anything else is
    looked at. -/
def authenticateAiActor (cfg : Config) (proof : AiActorProof) : Req AuthError Claims := do
  Prog.ensure (proof.algorithm = allowedAlgorithm)
    (.badRequest "Unsupported algorithm; only ed25519 is accepted")
  Prog.ofExcept (decodeSignature proof.signature)
  let now ← getNow
  let consumed : Nat ← query (.ai (.consumeChallenge proof.nonce proof.actorKey now))
  Prog.ensure (consumed = 1) .invalidCredentials
  let actor ← Prog.mapError (fun _ => .invalidCredentials) (requireAiActor proof.actorKey)
  Prog.ensure (actor.canAuthenticate = true) .invalidCredentials
  let payload := canonicalPayload cfg.appUrl (actorAddress proof.actorKey) proof.nonce
  let credentials : List AiActorCredential ← query (.ai (.listCredentials proof.actorKey))
  let matched := (credentials.filter AiActorCredential.canAuthenticate).find? fun c =>
    Platform.ed25519Verify c.publicKey payload proof.signature
  let credential ← Prog.orThrow .invalidCredentials matched
  let touchedAt ← getNow
  (query (.ai (.touchCredential credential.key touchedAt)) : Req AuthError Unit).swallow
  issueAiSession cfg actor credential

end SoulAuth
