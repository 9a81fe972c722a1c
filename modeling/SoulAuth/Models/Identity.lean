import SoulAuth.Models.User

/-! # Actor identities and what hangs on them

The actor identity is the root; the human account, the password
credential, the external bindings and the sessions refer to it by key.
-/

namespace SoulAuth

/-- `ActorKind`. -/
inductive ActorKind
  | human
  | aiActor
  deriving DecidableEq, Repr

def ActorKind.asStr : ActorKind → String
  | .human => "human"
  | .aiActor => "ai_actor"

/-- `ActorStatus`. -/
inductive ActorStatus
  | active
  | suspended
  | retired
  deriving DecidableEq, Repr

/-- `ActorIdentity`. -/
structure ActorIdentity where
  key : Str
  subjectKey : Str
  actorKind : ActorKind
  status : ActorStatus
  createdAt : Timestamp
  updatedAt : Timestamp
  deriving DecidableEq, Repr

/-- `ActorIdentity::can_authenticate`. -/
def ActorIdentity.canAuthenticate (a : ActorIdentity) : Bool := a.status = .active

/-- `HumanAccount`. -/
structure HumanAccount where
  key : Str
  actorIdentityId : Str
  email : Str
  username : Str
  usernameNormalized : Str
  emailVerified : Bool
  createdAt : Timestamp
  updatedAt : Timestamp
  deriving DecidableEq, Repr

/-- `CredentialStatus`. -/
inductive CredentialStatus
  | active
  | revoked
  deriving DecidableEq, Repr

/-- `Credential`. The only kind is the password. -/
structure Credential where
  key : Str
  actorIdentityId : Str
  secretHash : Option Str
  status : CredentialStatus
  createdAt : Timestamp
  rotatedAt : Option Timestamp
  revokedAt : Option Timestamp
  deriving DecidableEq, Repr

/-- `Credential::is_usable`. -/
def Credential.isUsable (c : Credential) : Bool :=
  c.status = .active && c.secretHash.isSome

/-- `VerificationState` of a binding. -/
inductive VerificationState
  | verified
  | pending
  | revoked
  deriving DecidableEq, Repr

/-- `IdentityBinding`. -/
structure IdentityBinding where
  key : Str
  actorIdentityId : Str
  provider : Str
  providerSubject : Str
  verificationState : VerificationState
  boundAt : Timestamp
  revokedAt : Option Timestamp
  deriving DecidableEq, Repr

/-- `IdentityBinding::is_active`. -/
def IdentityBinding.isActive (b : IdentityBinding) : Bool :=
  b.revokedAt = none && b.verificationState = .verified

/-- `AuthenticationMethod`. -/
inductive AuthenticationMethod
  | password
  | totp
  | backupCode
  | externalIdentity
  | emailLink
  | ed25519Key
  deriving DecidableEq, Repr

/-- `SubjectType`, a claim of session tokens. -/
inductive SubjectType
  | human
  | agent
  deriving DecidableEq, Repr

/-- The claims of a session token. A signed token is determined by its
    claims, and a token that the server did not sign does not decode, so
    bearers are represented by the claims they carry. -/
structure Claims where
  sub : Str
  exp : Timestamp
  iat : Timestamp
  sessionId : Option Str
  subjectType : Option SubjectType
  deriving DecidableEq, Repr

/-- `Session`. Its `user_id` is the actor identity. -/
structure Session where
  key : Str
  userId : Str
  tokenHash : Hashed Claims
  expiresAt : Timestamp
  createdAt : Timestamp
  methods : List AuthenticationMethod
  credentialRefs : List Str
  authenticatedAt : Option Timestamp
  deriving DecidableEq, Repr

/-- `PasswordResetToken`. -/
structure PasswordResetToken where
  key : Str
  email : Str
  tokenHash : Hashed Str
  expiresAt : Timestamp
  used : Bool
  createdAt : Timestamp
  deriving DecidableEq, Repr

end SoulAuth
