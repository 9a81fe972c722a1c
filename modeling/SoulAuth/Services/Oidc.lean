import SoulAuth.Services.Identity
import SoulAuth.Models.Oidc

/-! # The OIDC provider

Authorization codes, the two grants of the token endpoint, and the
revocation of what they issued.
-/

namespace SoulAuth

open Framework

variable [Platform]

/-- The errors of this service: an error of another service, a text, or a
    text in front of another error. -/
inductive OidcError
  | auth (e : AuthError)
  | message (text : String)
  | context (text : String) (cause : OidcError)
  deriving DecidableEq, Repr

instance : OfDb OidcError := ⟨fun e => .auth (AuthError.ofDb e)⟩

/-- `.map_err(|e| anyhow!("{text}: {e}"))`. -/
def withContext {α : Type} (text : String) (p : Req OidcError α) : Req OidcError α :=
  p.mapError (.context text)

/-- `.map_err(|e| anyhow!("{text}: {e}"))` on an error of another service. -/
def orRefuse {α : Type} (text : String) (p : Req AuthError α) : Req OidcError α :=
  p.mapError fun e => .context text (.auth e)

/-! ## Clients -/

/-- `get_client`: active clients only. -/
def getClient (clientId : Str) : Req OidcError OidcClient := do
  let row : Option OidcClient ← query (.client (.getActive clientId))
  Prog.orThrow (.message "Client not found") row

/-- `verify_client_secret_hash`: Argon2, or SHA-256 for older clients. -/
def verifyClientSecretHash (storedHash provided : Str) : Bool :=
  if (Str.stripPrefix "$argon2".toList storedHash).isSome then
    Platform.argon2WellFormed storedHash && Platform.argon2Verify storedHash provided
  else Platform.sha256Hex provided = storedHash

/-- What `authenticate_client` decides about the client it found. -/
def OidcClient.admits (client : OidcClient) (secret : Option Str) : Except OidcError Unit :=
  match client.clientType, secret with
  | .confidentialClient, none =>
    .error (.message "Client secret required for confidential clients")
  | _, some secret =>
    if verifyClientSecretHash client.clientSecretHash secret then .ok ()
    else .error (.message "Invalid client credentials")
  | .publicClient, none => .ok ()

/-- `authenticate_client`. -/
def authenticateClient (request : TokenRequest) : Req OidcError OidcClient := do
  let client ← getClient request.clientIdStr
  Prog.ofExcept (client.admits request.clientSecret)
  return client

/-! ## Scopes and challenges -/

/-- The scopes of `resolve_scope`, with those granted so far. -/
def grantScopes (allowed : List Str) (granted : List Str) :
    List Str → Except OidcError (List Str)
  | [] => .ok granted
  | scope :: rest =>
    if scope ∈ allowed then
      grantScopes allowed (if scope ∈ granted then granted else granted ++ [scope]) rest
    else .error (.message ("Scope not allowed for this client: " ++ String.ofList scope))

/-- `resolve_scope`. -/
def resolveScope (client : OidcClient) (requested : Option Str) : Except OidcError Str :=
  let requested := Str.trim (requested.getD "openid".toList)
  if requested = [] then .ok "openid".toList
  else (grantScopes client.allowedScopes [] (Str.splitWhitespace requested)).map
    fun granted => [' '].intercalate granted

/-- The characters of a code verifier, RFC 7636. -/
def isVerifierChar (c : Char) : Bool :=
  Str.isAsciiAlphanumeric c || c = '-' || c = '.' || c = '_' || c = '~'

/-- `verify_pkce_value`. -/
def verifyPkceValue (codeChallenge : Str) (method : Option Str) (codeVerifier : Str) :
    Except OidcError Bool :=
  if Str.byteLen codeVerifier < 43 ∨ 128 < Str.byteLen codeVerifier then
    .error (.message
      "Invalid code verifier: length must be between 43 and 128 characters")
  else if codeVerifier.all isVerifierChar then
    match method with
    | some m =>
      if m = "S256".toList then .ok (Platform.s256 codeVerifier = codeChallenge)
      else .error (.message "Unsupported code challenge method")
    | none => .error (.message "Missing code_challenge_method; S256 is required")
  else .error (.message
    "Invalid code verifier: contains characters outside RFC 7636 charset")

/-! ## Authorization codes -/

/-- The response types of a request, where `code` is the only one known. -/
def codeResponseTypes (responseType : Str) : Except OidcError (List ResponseType) :=
  (Str.splitWhitespace responseType).mapM fun rt =>
    if rt = "code".toList then .ok .code
    else .error (.message
      "unsupported response type; this endpoint implements response_type=code only")

/-- The check on `code_challenge_method`, for requests with a challenge. -/
def checkChallengeMethod : Option Str → Except OidcError Unit
  | none => .error (.message "code_challenge_method is required and must be S256")
  | some method =>
    if method = "S256".toList then .ok ()
    else .error (.message ("Unsupported code_challenge_method '" ++ String.ofList method ++
      "': only S256 is supported"))

/-- What `create_authorization_code` requires of a request to a client. -/
def OidcClient.permits (client : OidcClient) (request : AuthorizeRequest) :
    Except OidcError Unit := do
  if ¬ client.isActive then throw (.message "Client is not active")
  if request.redirectUri ∉ client.redirectUris then throw (.message "Invalid redirect URI")
  let types ← codeResponseTypes request.responseType
  if ¬ types.all fun rt => rt ∈ client.allowedResponseTypes then
    throw (.message "Response type not allowed for this client")
  if client.requirePkce ∧ request.codeChallenge = none then
    throw (.message "PKCE is required for this client")
  if request.codeChallenge ≠ none then checkChallengeMethod request.codeChallengeMethod

/-- The lifetime of a code in seconds. -/
def codeTtlSeconds : Int := 600

/-- `create_authorization_code`. -/
def createAuthorizationCode (request : AuthorizeRequest) (userId authSessionRef : Str) :
    Req OidcError Str := do
  let client ← withContext "get client failed" (getClient request.clientId)
  Prog.ofExcept (client.permits request)
  let code ← newSecureToken
  let now ← getNow
  let scope ← Prog.ofExcept (resolveScope client request.scope)
  let createdAt ← getNow
  query (.code (.save
    { codeHash := hashBearer code, clientId := request.clientId, userId := userId,
      redirectUri := request.redirectUri, scope := scope, state := request.state,
      nonce := request.nonce, codeChallenge := request.codeChallenge,
      codeChallengeMethod := request.codeChallengeMethod,
      authSessionRef := some authSessionRef, used := false,
      expiresAt := now + codeTtlSeconds, createdAt := createdAt }
    (normalizeUserId userId)))
  return code

/-! ## Issuing tokens -/

/-- The key of the actor or user that an `user_id` names. -/
def ownerKey (userId : Str) : Str := normalizeActorId (normalizeUserId userId)

/-- `get_user_by_id`. -/
def getUserById (userId : Str) : Req OidcError User := do
  let row : Option User ← query (.identity (.user (.findByActorOrId (ownerKey userId))))
  Prog.orThrow (.message "User not found") row

/-- `load_active_user`. -/
def loadActiveUser (userId : Str) : Req OidcError User := do
  let user ← getUserById userId
  let _ ← orRefuse "Identity root is not authenticable"
    (authenticableActorOfUser (normalizeUserId user.key))
  Prog.ofExcept (user.ensureUsable.mapError fun e =>
    .context "Account is not active" (.auth e))
  return user

/-- `stable_subject_of_user`. -/
def stableSubjectOfUser (user : User) : Req OidcError Str := do
  let actor ← orRefuse "Identity root is not authenticable" (authenticableActorOfUser user.key)
  return actor.subjectKey

/-- `authenticated_at_of_session`. -/
def authenticatedAtOfSession (sessionKey : Str) : Req OidcError (Option Timestamp) :=
  query (.session (.authenticatedAt sessionKey))

/-- `ClaimDisclosure`: which claims a scope discloses. -/
structure ClaimDisclosure where
  email : Bool
  profile : Bool
  deriving DecidableEq, Repr

/-- `ClaimDisclosure::from_scope`. -/
def ClaimDisclosure.fromScope (scope : Str) : ClaimDisclosure :=
  let scopes := Str.splitWhitespace scope
  { email := "email".toList ∈ scopes, profile := "profile".toList ∈ scopes }

/-- `generate_id_token`. The claims of a scope are disclosed with it. -/
def generateIdToken (cfg : Config) (client : OidcClient) (user : User) (nonce : Option Str)
    (authSessionRef : Option Str) (scope : Str) : Req OidcError IdTokenClaims := do
  let sid ← Prog.orThrow
    (.message "Missing auth session reference; refusing to issue ID token")
    ((authSessionRef.map Str.trim).filter fun sid => sid ≠ [])
  let now ← getNow
  let subject ← stableSubjectOfUser user
  let found : Except OidcError (Option Timestamp) ← (authenticatedAtOfSession sid).attempt
  let authTime := ((found.toOption.bind id).or user.lastLoginAt).getD now
  let disclose := ClaimDisclosure.fromScope scope
  return {
    iss := Str.trimEndMatches '/' cfg.appUrl
    sub := subject
    aud := client.clientId
    exp := now + client.idTokenLifetime
    iat := now
    authTime := authTime
    sid := sid
    nonce := nonce
    email := if disclose.email then some user.email else none
    emailVerified := if disclose.email then some user.verified else none
    preferredUsername := if disclose.profile then some user.username else none }

/-- `save_access_token`. -/
def saveAccessToken (t : OidcAccessToken) : Req OidcError Unit :=
  query (.accessToken (.save { t with userId := normalizeActorId t.userId }))

/-- `save_refresh_token`. -/
def saveRefreshToken (t : OidcRefreshToken) : Req OidcError Unit :=
  query (.refreshToken (.save { t with userId := normalizeActorId t.userId }))

/-- The refresh token of `generate_tokens`, for clients that may refresh. -/
def issueRefreshToken (client : OidcClient) (userId scope accessToken : Str)
    (authSessionRef : Option Str) (now : Timestamp) : Req OidcError (Option Str) :=
  if .refreshToken ∈ client.allowedGrantTypes then do
    let token ← newSecureToken
    withContext "save refresh token failed" (saveRefreshToken
      { tokenHash := hashBearer token, clientId := client.clientId, userId := userId,
        accessTokenHash := hashBearer accessToken, scope := scope,
        authSessionRef := authSessionRef, used := false,
        expiresAt := now + client.refreshTokenLifetime, createdAt := now })
    return some token
  else return none

/-- The ID token of `generate_tokens`, for scopes with `openid`. -/
def issueIdToken (cfg : Config) (client : OidcClient) (user : User) (nonce : Option Str)
    (authSessionRef : Option Str) (scope : Str) : Req OidcError (Option IdTokenClaims) :=
  if "openid".toList ∈ Str.splitWhitespace scope then do
    let claims ← generateIdToken cfg client user nonce authSessionRef scope
    return some claims
  else return none

/-- `generate_tokens`. -/
def generateTokens (cfg : Config) (client : OidcClient) (userId scope : Str)
    (nonce authSessionRef : Option Str) : Req OidcError TokenResponse := do
  let now ← getNow
  let user ← withContext "refusing to issue tokens" (loadActiveUser userId)
  let accessToken ← newSecureToken
  withContext "save access token failed" (saveAccessToken
    { tokenHash := hashBearer accessToken, clientId := client.clientId, userId := userId,
      scope := scope, expiresAt := now + client.accessTokenLifetime, createdAt := now })
  let refreshToken ← issueRefreshToken client userId scope accessToken authSessionRef now
  let idToken ← issueIdToken cfg client user nonce authSessionRef scope
  return {
    accessToken := accessToken
    expiresIn := client.accessTokenLifetime
    refreshToken := refreshToken
    idToken := idToken
    scope := scope }

/-! ## The grants -/

/-- `get_authorization_code`. -/
def getAuthorizationCode (code : Str) : Req OidcError OidcAuthorizationCode := do
  let row : Option OidcAuthorizationCode ← query (.code (.get (hashBearer code)))
  Prog.orThrow (.message "Authorization code not found") row

/-- `update_authorization_code`: the update has to hit exactly one row. -/
def updateAuthorizationCode (codeHash : Hashed Str) : Req OidcError Unit := do
  let updated : Nat ← query (.code (.consume codeHash))
  Prog.ensure (updated = 1) (.message "Authorization code already used")

/-- The PKCE part of the checks on a stored code. -/
def OidcAuthorizationCode.checkPkce (authCode : OidcAuthorizationCode) (client : OidcClient)
    (codeVerifier : Option Str) : Except OidcError Unit :=
  match authCode.codeChallenge with
  | none =>
    match client.clientType with
    | .publicClient => .error (.message ("PKCE is required for public clients; " ++
        "this authorization code was issued without a code_challenge"))
    | .confidentialClient => .ok ()
  | some challenge =>
    match codeVerifier with
    | none => .error (.message "Code verifier required")
    | some verifier =>
      match verifyPkceValue challenge authCode.codeChallengeMethod verifier with
      | .ok true => .ok ()
      | .ok false => .error (.message "Invalid code verifier")
      | .error e => .error e

/-- The checks of the code grant on the stored code, in order. -/
def OidcAuthorizationCode.check (authCode : OidcAuthorizationCode) (client : OidcClient)
    (request : TokenRequest) (redirectUri : Str) (now : Timestamp) : Except OidcError Unit :=
  if authCode.used then .error (.message "Authorization code already used")
  else if authCode.expiresAt < now then .error (.message "Authorization code expired")
  else if authCode.clientId ≠ request.clientIdStr then
    .error (.message "Authorization code was not issued to this client")
  else if authCode.redirectUri ≠ redirectUri then .error (.message "Redirect URI mismatch")
  else authCode.checkPkce client request.codeVerifier

/-- `handle_authorization_code_grant`. -/
def handleAuthorizationCodeGrant (cfg : Config) (request : TokenRequest) :
    Req OidcError TokenResponse := do
  let code ← Prog.orThrow (.message "Missing authorization code") request.code
  let redirectUri ← Prog.orThrow (.message "Missing redirect URI") request.redirectUri
  let client ← authenticateClient request
  Prog.ensure (.authorizationCode ∈ client.allowedGrantTypes)
    (.message "Grant type not allowed for this client")
  let authCode ← withContext "get authorization code failed" (getAuthorizationCode code)
  let now ← getNow
  Prog.ofExcept (authCode.check client request redirectUri now)
  withContext "mark authorization code used failed" (updateAuthorizationCode authCode.codeHash)
  withContext "generate tokens failed" (generateTokens cfg client authCode.userId authCode.scope
    authCode.nonce authCode.authSessionRef)

/-- `get_refresh_token`. -/
def getRefreshToken (token : Str) : Req OidcError OidcRefreshToken := do
  let row : Option OidcRefreshToken ← query (.refreshToken (.get (hashBearer token)))
  Prog.orThrow (.message "Refresh token not found") row

/-- `consume_refresh_token_by_hash`. -/
def consumeRefreshTokenByHash (tokenHash : Hashed Str) : Req OidcError Bool := do
  let updated : Nat ← query (.refreshToken (.consume tokenHash))
  return updated = 1

/-- `revoke_access_token_by_hash`. -/
def revokeAccessTokenByHash (tokenHash : Hashed Str) : Req OidcError Unit :=
  query (.accessToken (.revokeByHash tokenHash))

/-- `revoke_client_tokens_for_user`. -/
def revokeClientTokensForUser (clientId userId : Str) : Req OidcError Unit := do
  query (.accessToken (.revokeForClient clientId (ownerKey userId)))
  query (.refreshToken (.revokeForClient clientId (ownerKey userId)))

/-- `revoke_all_tokens_for_user`. -/
def revokeAllTokensForUser (userId : Str) : Req OidcError Unit := do
  query (.accessToken (.revokeAll (ownerKey userId)))
  query (.refreshToken (.revokeAll (ownerKey userId)))

/-- The scope of a refreshed token: a part of the original one. -/
def refreshedScope (stored : OidcRefreshToken) (requested : Option Str) :
    Except OidcError Str :=
  match requested with
  | none => .ok stored.scope
  | some requested =>
    let original := Str.splitWhitespace stored.scope
    if (Str.splitWhitespace requested).all fun scope => scope ∈ original then .ok requested
    else .error (.message "Requested scope exceeds the original grant")

/-- The answer to a refresh token that has been used. -/
def refreshTokenAlreadyUsed : OidcError := .message "Refresh token already used"

/-- `handle_refresh_token_grant`. A token seen as used revokes what the
    client holds for the user; a lost conditional update does not. -/
def handleRefreshTokenGrant (cfg : Config) (request : TokenRequest) :
    Req OidcError TokenResponse := do
  let refreshToken ← Prog.orThrow (.message "Missing refresh token") request.refreshToken
  let client ← authenticateClient request
  Prog.ensure (.refreshToken ∈ client.allowedGrantTypes)
    (.message "Grant type not allowed for this client")
  let stored ← getRefreshToken refreshToken
  Prog.ensure (stored.clientId = request.clientIdStr)
    (.message "Refresh token was not issued to this client")
  let now ← getNow
  Prog.ensure (¬ stored.expiresAt < now) (.message "Refresh token expired")
  if stored.used then
    revokeClientTokensForUser stored.clientId stored.userId
    throw refreshTokenAlreadyUsed
  else
    let consumed ← consumeRefreshTokenByHash stored.tokenHash
    Prog.ensure (consumed = true) refreshTokenAlreadyUsed
    revokeAccessTokenByHash stored.accessTokenHash
    let scope ← Prog.ofExcept (refreshedScope stored request.scope)
    generateTokens cfg client stored.userId scope none stored.authSessionRef

/-- `exchange_code_for_tokens`. -/
def exchangeCodeForTokens (cfg : Config) (request : TokenRequest) :
    Req OidcError TokenResponse :=
  if request.grantType = "authorization_code".toList then
    handleAuthorizationCodeGrant cfg request
  else if request.grantType = "refresh_token".toList then
    handleRefreshTokenGrant cfg request
  else throw (.message "Unsupported grant type")

/-- `get_access_token`. -/
def getAccessToken (token : Str) : Req OidcError OidcAccessToken := do
  let row : Option OidcAccessToken ← query (.accessToken (.get (hashBearer token)))
  Prog.orThrow (.message "Access token not found") row

/-- `get_userinfo`. -/
def getUserinfo (accessToken : Str) : Req OidcError UserInfoResponse := do
  let token ← getAccessToken accessToken
  let now ← getNow
  Prog.ensure (¬ token.expiresAt < now) (.message "Access token expired")
  Prog.ensure ("openid".toList ∈ Str.splitWhitespace token.scope)
    (.message "Access token does not carry the openid scope")
  let user ← loadActiveUser token.userId
  let disclose := ClaimDisclosure.fromScope token.scope
  let subject ← stableSubjectOfUser user
  return {
    sub := subject
    email := if disclose.email then some user.email else none
    emailVerified := if disclose.email then some user.verified else none
    preferredUsername := if disclose.profile then some user.username else none
    updatedAt := if disclose.profile then some user.updatedAt else none }

/-- `cleanup_expired_artifacts`. -/
def cleanupExpiredArtifacts : Req OidcError Unit := do
  let now ← getNow
  query (.code (.deleteExpired now))
  query (.accessToken (.deleteExpired now))
  query (.refreshToken (.deleteExpired now))

end SoulAuth
