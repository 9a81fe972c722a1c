import SoulAuth.Services.Credential
import SoulAuth.Services.Identity
import SoulAuth.Services.Mfa
import SoulAuth.Utils.Validation

/-! # Registration, login and recovery -/

namespace SoulAuth

open Framework

variable [Platform]

/-! ## Usernames -/

/-- `normalize_username`. -/
def normalizeUsername (username : Str) : Str := Str.toAsciiLowercase (Str.trim username)

/-- `ensure_username_available`: the normalised username. -/
def ensureUsernameAvailable (username : Str) : Req AuthError Str := do
  let normalized := normalizeUsername username
  Prog.ensure (normalized ≠ []) (.validationError "Username is required")
  let taken : Option User ← findUserByUsername normalized
  Prog.ensure (taken = none) .usernameExists
  return normalized

/-- The characters a generated username keeps, at least three of them. -/
def usernameSeed (base : Str) : Str :=
  let fallback := "user".toList
  let seed := Str.trim base
  let seed := if seed = [] then fallback else seed
  let seed := seed.filter fun c => Str.isAsciiAlphanumeric c || c = '_' || c = '-'
  let seed := if seed = [] then fallback else seed
  seed ++ List.replicate (3 - seed.length) '0'

/-- The candidates of `generate_unique_username`, from attempt number
    `attempt` on. -/
def firstFreeUsername (seed : Str) : Nat → Nat → Req AuthError (Str × Str)
  | _, 0 => throw (.serverError "Failed to generate a unique username")
  | attempt, n + 1 => do
    let candidate := if attempt = 0 then seed else seed ++ (toString attempt).toList
    let normalized := normalizeUsername candidate
    let taken : Option User ← findUserByUsername normalized
    match taken with
    | none => return (candidate, normalized)
    | some _ => firstFreeUsername seed (attempt + 1) n

/-- `generate_unique_username`. -/
def generateUniqueUsername (base : Str) : Req AuthError (Str × Str) :=
  firstFreeUsername (usernameSeed base) 0 1000

/-! ## Sessions -/

/-- `IssuedSession`: the bearer, the account it speaks for, and the key of
    the session row. -/
structure IssuedSession where
  token : Claims
  user : UserResponse
  sessionKey : Str
  deriving DecidableEq, Repr

/-- `touch_last_login`: write the row back with the time and the address of
    this login. -/
def touchLastLogin (user : User) (ip : Str) : Req AuthError User := do
  let now ← getNow
  updateUser { user with lastLoginAt := some now, lastLoginIp := some ip, updatedAt := now }

/-- `create_session_with_metadata`. -/
def createSession (cfg : Config) (user : User) (methods : List AuthenticationMethod)
    (credentialRefs : List Str) : Req AuthError IssuedSession := do
  let now ← getNow
  let exp := now + cfg.sessionTtlSeconds
  let sessionKey ← newUuid
  let actorKey ← Prog.orThrow (.databaseError "user has no actor_identity".toList) user.subjectId
  let claims : Claims :=
    { sub := actorKey, exp := exp, iat := now, sessionId := some sessionKey,
      subjectType := some .human }
  query (.session (.create
    { key := sessionKey, userId := actorKey, tokenHash := hashBearer claims, expiresAt := exp,
      createdAt := now, methods := methods, credentialRefs := credentialRefs,
      authenticatedAt := some now }))
  let has ← hasPassword actorKey
  return { token := claims, user := .of user has, sessionKey := sessionKey }

/-- `record_address` of a credential. -/
def credentialAddress (c : Credential) : Str := recordAddress "credential".toList c.key

/-- `password_ref_of`. -/
def passwordRefOf (user : User) : Req AuthError (Option Str) :=
  match user.subjectId with
  | none => return none
  | some actorKey => do
    let found : Option Credential ← activePassword actorKey
    return found.map credentialAddress

/-! ## Registration -/

/-- `CreateUserRequest`. -/
structure CreateUserRequest where
  email : Str
  username : Option Str
  password : Str
  deriving DecidableEq, Repr

/-- `VERIFICATION_TOKEN_TTL_HOURS`, in seconds. -/
def verificationTokenTtlSeconds : Int := 24 * 3600

/-- The verification token of a new account, while verification is on. -/
def drawVerificationToken (cfg : Config) (now : Timestamp) :
    Req AuthError (Option (Str × Timestamp)) :=
  if cfg.emailVerificationEnabled then do
    let token ← newUuid
    return some (token, now + verificationTokenTtlSeconds)
  else return none

/-- `register`: the account, and a session unless the email address has to
    be verified first. -/
def register (cfg : Config) (req : CreateUserRequest) (ip : Str) :
    Req AuthError (UserResponse × Option IssuedSession) := do
  let email ← Prog.ofExcept (validateEmail req.email)
  Prog.ofExcept (validatePassword req.password cfg.passwordMinLength)
  let submitted ← Prog.orThrow (.validationError "Username is required")
    ((req.username.map Str.trim).filter fun u => u ≠ [])
  let username ← Prog.ofExcept (validateUsername submitted)
  let existing : Option User ← findUserByEmail email
  Prog.ensure (existing = none) .emailExists
  let usernameNormalized ← ensureUsernameAvailable username
  let passwordHash ← hashPassword req.password
  let now ← getNow
  let verification ← drawVerificationToken cfg now
  let keys ← Prog.mapError translateUniqueViolation <| createHumanAggregate
    { email := email, username := username, usernameNormalized := usernameNormalized
      emailVerified := !cfg.emailVerificationEnabled
      verificationTokenHash := verification.map fun v => hashBearer v.1
      verificationTokenExpiresAt := verification.map Prod.snd
      passwordHash := some passwordHash, binding := none }
  let found : Option User ← findUserById (userAddress keys.2)
  let created ← Prog.orThrow (.databaseError "刚建的 user 行读不回来".toList) found
  match verification with
  | some _ => return (.of created true, none)
  | none =>
    let created ← touchLastLogin created ip
    let passwordRef ← passwordRefOf created
    let issued ← createSession cfg created [.password] passwordRef.toList
    return (issued.user, some issued)

/-! ## Login -/

/-- `LoginOutcome`. -/
inductive LoginOutcome
  | authenticated (s : IssuedSession)
  | mfaRequired (challenge : MfaChallengeClaims) (method : MfaMethod)
  deriving DecidableEq, Repr

/-- `MFA_CHALLENGE_TTL_SECONDS`. -/
def mfaChallengeTtlSeconds : Int := 300

/-- `create_mfa_challenge_token`. -/
def createMfaChallengeToken (userId email : Str) : Req AuthError MfaChallengeClaims := do
  let now ← getNow
  return { sub := userId, email := email, exp := now + mfaChallengeTtlSeconds, iat := now }

/-- `spend_password_verification_time`. -/
def spendPasswordVerificationTime : Req AuthError Unit :=
  (verifyPassword Platform.dummyPasswordHash "invalid-password".toList).swallow

/-- The actor whose credential `login` looks up: the user's, or one that
    does not exist. -/
def probeActor (found : Option User) : Req AuthError Str :=
  match found.bind User.subjectId with
  | some actorKey => return actorKey
  | none => newUuid

/-- `login` from the point where the password has been verified. -/
def loginVerified (cfg : Config) (user : User) (credential : Credential) (ip : Str) :
    Req AuthError LoginOutcome := do
  Prog.ensure (¬ (cfg.emailVerificationEnabled = true ∧ user.verified = false)) .emailNotVerified
  let actor ← authenticableActorOfUser user.key
  Prog.ofExcept user.ensureUsable
  Prog.ensure (¬ (cfg.emailVerificationEnabled = true ∧
    (actor.account.any fun a => !a.emailVerified) = true)) .emailNotVerified
  let method ← enabledMethod user.key
  match method with
  | some method =>
    let challenge ← createMfaChallengeToken user.key user.email
    return .mfaRequired challenge method
  | none =>
    let user ← touchLastLogin user ip
    let issued ← createSession cfg user [.password] [credentialAddress credential]
    return .authenticated issued

/-- `login`. -/
def login (cfg : Config) (email password ip : Str) : Req AuthError LoginOutcome := do
  let email ← Prog.ofExcept ((validateEmail email).mapError fun _ => .invalidCredentials)
  let found : Option User ← findUserByEmail email
  let actorKey ← probeActor found
  let stored : Option Credential ← activePassword actorKey
  match found, stored with
  | some user, some credential =>
    let passwordHash ← Prog.orThrow .invalidCredentials credential.secretHash
    verifyPassword passwordHash password
    loginVerified cfg user credential ip
  | _, _ =>
    spendPasswordVerificationTime
    throw .invalidCredentials

/-- `complete_mfa_login`. -/
def completeMfaLogin (cfg : Config) (userId ip : Str) (secondFactor : AuthenticationMethod) :
    Req AuthError IssuedSession := do
  let found : Option User ← findUserById userId
  let user ← Prog.orThrow .userNotFound found
  let _ ← authenticableActorOfUser userId
  Prog.ofExcept user.ensureUsable
  let user ← touchLastLogin user ip
  let passwordRef ← passwordRefOf user
  createSession cfg user [.password, secondFactor] passwordRef.toList

/-! ## External identities -/

/-- `OAuthUserInfo`, what the external provider answers. -/
structure OAuthUserInfo where
  provider : Str
  providerUserId : Str
  email : Str
  deriving DecidableEq, Repr

/-- `find_or_create_oauth_user`. -/
def findOrCreateOauthUser (info : OAuthUserInfo) : Req AuthError User := do
  let bound ← resolveBinding info.provider info.providerUserId
  match bound with
  | some actor =>
    let found : Option User ← query (.identity (.user (.findByActor actor.key)))
    Prog.orThrow (.unauthorized "Identity is incomplete and cannot authenticate") found
  | none =>
    let email ← Prog.ofExcept (validateEmail info.email)
    let existing : Option User ← findUserByEmail email
    Prog.ensure (existing = none) (.forbidden
      ("An account with this email already exists. Sign in with it first and then link " ++
        "this provider — a matching email address does not by itself prove the two " ++
        "identities are the same subject."))
    let localPart := ((Str.splitOnce '@' email).map Prod.fst).getD email
    let name ← generateUniqueUsername localPart
    let keys ← Prog.mapError translateUniqueViolation <| createHumanAggregate
      { email := email, username := name.1, usernameNormalized := name.2
        emailVerified := true, verificationTokenHash := none, verificationTokenExpiresAt := none
        passwordHash := none, binding := some (info.provider, info.providerUserId) }
    let created : Option User ← findUserById (userAddress keys.2)
    Prog.orThrow (.databaseError "刚建的 user 行读不回来".toList) created

/-- `handle_google_callback` and `handle_github_callback`, which differ in
    the provider they ask. -/
def handleOauthCallback (cfg : Config) (info : OAuthUserInfo) (ip : Str) :
    Req AuthError IssuedSession := do
  let user ← findOrCreateOauthUser info
  let _ ← authenticableActorOfUser user.key
  let user ← touchLastLogin user ip
  createSession cfg user [.externalIdentity] []

/-! ## Email verification -/

/-- `verify_email`. -/
def verifyEmail (cfg : Config) (token ip : Str) : Req AuthError IssuedSession := do
  let now ← getNow
  let claimed : List Str ← query (.identity (.user (.claimVerification (hashBearer token) now)))
  match claimed with
  | [key] =>
    let found : Option User ← findUserById (userAddress key)
    let user ← Prog.orThrow .userNotFound found
    let user ← touchLastLogin user ip
    createSession cfg user [.emailLink] []
  | _ => throw .invalidToken

/-- `resend_verification_email`: silent when there is nothing to send. -/
def resendVerificationEmail (cfg : Config) (email : Str) : Req AuthError Unit :=
  if cfg.emailVerificationEnabled then
    match validateEmail email with
    | .error _ => return ()
    | .ok email => do
      let found : Option User ← findUserByEmail email
      match found with
      | none => return ()
      | some user =>
        if user.verified = true ∨ user.accountStatus ≠ .active then return () else
          let now ← getNow
          let token ← newUuid
          let _ : User ← updateUser
            { user with
              verificationTokenHash := some (hashBearer token)
              verificationTokenExpiresAt := some (now + verificationTokenTtlSeconds)
              updatedAt := now }
          return ()
  else return ()

/-! ## Passwords -/

/-- `initialize_password`. -/
def initializePassword (cfg : Config) (userId password : Str) : Req AuthError User := do
  Prog.ofExcept (validatePassword password cfg.passwordMinLength)
  let found : Option User ← findUserById userId
  let user ← Prog.orThrow .userNotFound found
  let actorKey ← Prog.orThrow (.databaseError "user row has no identity root".toList)
    user.subjectId
  let existing ← activePasswordHash actorKey
  Prog.ensure (existing = none) .passwordAlreadySet
  let h ← hashPassword password
  setPassword actorKey h
  let now ← getNow
  updateUser { user with updatedAt := now }

/-- `invalidate_password_reset_tokens`. -/
def invalidatePasswordResetTokens (email : Str) : Req AuthError Unit :=
  query (.resetToken (.invalidate email))

/-- `request_password_reset`: silent when there is no usable account. -/
def requestPasswordReset (email : Str) : Req AuthError Unit :=
  match validateEmail email with
  | .error _ => return ()
  | .ok email => do
    let found : Option User ← findUserByEmail email
    match found with
    | none => return ()
    | some user =>
      if user.accountStatus ≠ .active then return () else
        invalidatePasswordResetTokens email
        let token ← newUuid
        let now ← getNow
        let key ← newUuid
        query (.resetToken (.create
          { key := key, email := email, tokenHash := hashBearer token, expiresAt := now + 3600,
            used := false, createdAt := now }))

/-- `reset_password`: the key of the user. -/
def resetPassword (cfg : Config) (token newPassword : Str) : Req AuthError Str := do
  Prog.ofExcept (validatePassword newPassword cfg.passwordMinLength)
  let claimed : Nat ← query (.resetToken (.claim (hashBearer token)))
  Prog.ensure (claimed = 1) .invalidToken
  let row : Option PasswordResetToken ← query (.resetToken (.find (hashBearer token)))
  let resetToken ← Prog.orThrow .invalidToken row
  let found : Option User ← findUserByEmail resetToken.email
  let user ← Prog.orThrow .userNotFound found
  Prog.ofExcept user.ensureUsable
  let actorKey ← Prog.orThrow (.databaseError "user row has no identity root".toList)
    user.subjectId
  let h ← hashPassword newPassword
  setPassword actorKey h
  let now ← getNow
  let _ : User ← updateUser { user with updatedAt := now }
  invalidatePasswordResetTokens resetToken.email
  deleteSessionsByUserId user.key
  return user.key

end SoulAuth
