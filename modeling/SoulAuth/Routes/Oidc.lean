import SoulAuth.Framework.QueryString
import SoulAuth.Services.Oidc
import SoulAuth.Utils.Jwt

/-! # The endpoints under `/api/oidc` -/

namespace SoulAuth

open Framework

variable [Platform]

/-- `load_client`. -/
def loadClient (clientId : Str) : Req AuthError OidcClient := do
  let row : Option OidcClient ← query (.client (.getActive clientId))
  Prog.orThrow (.badRequest "Invalid OIDC client") row

/-- `parse_response_types`. -/
def parseResponseTypes (responseType : Str) : Except AuthError (List ResponseType) :=
  let words := Str.splitWhitespace responseType
  if ¬ words.all (· = "code".toList) then
    .error (.badRequest
      "unsupported response type; this endpoint implements response_type=code only")
  else if words = [] then .error (.badRequest "Missing response type")
  else .ok (words.map fun _ => .code)

/-- `validate_authorize_request`. -/
def validateAuthorizeRequest (request : AuthorizeRequest) : Req AuthError Unit := do
  let client ← loadClient request.clientId
  Prog.ensure (request.redirectUri ∈ client.redirectUris) (.badRequest "Invalid redirect URI")
  let types ← Prog.ofExcept (parseResponseTypes request.responseType)
  Prog.ensure ((types.all fun rt => rt ∈ client.allowedResponseTypes) = true)
    (.badRequest "Response type not allowed")
  Prog.ensure (¬ (client.requirePkce = true ∧ request.codeChallenge = none))
    (.badRequest "PKCE is required")

/-- The user and the session that a bearer speaks for. -/
def resolveBearer (claims : Claims) : Req AuthError (Str × Str) := do
  decodeAndVerifyToken claims
  let actor ← authenticableActor claims.sub .human
  let user ← loadUserFromActor actor.actor.key
  Prog.ofExcept user.ensureUsable
  let sid ← Prog.orThrow .invalidToken claims.sessionId
  return (user.key, sid)

/-- `resolve_existing_user_id`: the row exists and the account is active. -/
def resolveExistingUserId (userId : Str) : Req AuthError Str := do
  let found : Option User ← query (.identity (.user (.findById (normalizeUserId userId))))
  let user ← Prog.orThrow .userNotFound found
  Prog.ofExcept user.ensureUsable
  return user.key

/-- `browser_session_is_active`. -/
def browserSessionIsActive (sessionKey : Str) : Req AuthError Unit := do
  let now ← getNow
  let active : Bool ← query (.session (.isActiveByKey sessionKey now))
  Prog.ensure (active = true) .invalidToken

/-- The user and the session that a browser cookie speaks for. -/
def resolveCookie (request : AuthorizeRequest) (now : Timestamp)
    (cookie : BrowserSessionClaims) : Req AuthError (Str × Str) := do
  let decodedAt ← getNow
  Prog.ensure (¬ cookie.exp < decodedAt ∧ Str.trim cookie.sid ≠ []) .invalidToken
  Prog.ensure ((request.maxAge.any fun maxAge => maxAge < now - cookie.iat) = false)
    .invalidToken
  browserSessionIsActive cookie.sid
  let userId ← resolveExistingUserId cookie.sub
  return (userId, cookie.sid)

/-- What a browser presents to `authorize`. -/
structure AuthorizeCredentials where
  bearer : Option Claims
  cookie : Option BrowserSessionClaims
  deriving DecidableEq, Repr

/-- Where `authorize` sends the browser. -/
inductive AuthorizeResponse
  | code (code : Str)
  /-- The code could not be created. -/
  | invalidRequest (error : OidcError)
  | loginRequired
  | loginPage
  deriving DecidableEq, Repr

/-- `create_authorize_response`. -/
def createAuthorizeResponse (request : AuthorizeRequest) (userId sid : Str) :
    Req AuthError AuthorizeResponse := do
  let result : Except OidcError Str ←
    (createAuthorizationCode request userId sid).attempt
  match result with
  | .ok code => return .code code
  | .error e => return .invalidRequest e

/-- Whether the `prompt` of a request names a value. -/
def AuthorizeRequest.prompts (request : AuthorizeRequest) (value : String) : Bool :=
  request.prompt.any fun prompt => value.toList ∈ Str.splitWhitespace prompt

/-- The answer when no credential leads to a session. -/
def notAuthenticated (request : AuthorizeRequest) : AuthorizeResponse :=
  if request.prompts "none" then .loginRequired else .loginPage

/-- Try one credential, when it is there. -/
def tryCredential {α : Type} (credential : Option α) (resolve : α → Req AuthError (Str × Str)) :
    Req AuthError (Option (Str × Str)) :=
  match credential with
  | none => return none
  | some c => do
    let result : Except AuthError (Str × Str) ← (resolve c).attempt
    return result.toOption

/-- `authorize`: the bearer first, then the cookie. -/
def authorize (request : AuthorizeRequest) (credentials : AuthorizeCredentials) :
    Req AuthError AuthorizeResponse := do
  validateAuthorizeRequest request
  let now ← getNow
  if request.prompts "login" then return notAuthenticated request else
    let bearer ← tryCredential credentials.bearer resolveBearer
    match bearer with
    | some (userId, sid) => createAuthorizeResponse request userId sid
    | none =>
      let cookie ← tryCredential credentials.cookie (resolveCookie request now)
      match cookie with
      | some (userId, sid) => createAuthorizeResponse request userId sid
      | none => return notAuthenticated request

/-- `verify_id_token_hint`: the subject and the client of a token of this
    issuer, expired or not. -/
def verifyIdTokenHint (cfg : Config) (hint : IdTokenClaims) : Option (Str × Str) :=
  if hint.iss = Str.trimEndMatches '/' cfg.appUrl then some (hint.sub, hint.aud) else none

/-- `LogoutRequest` of the RP-initiated logout. -/
structure RpLogoutRequest where
  idTokenHint : Option IdTokenClaims
  postLogoutRedirectUri : Option Str
  state : Option Str
  deriving DecidableEq, Repr

/-- A registered URI of a logout with the state of the request. -/
def withState (uri : Str) : Option Str → Str
  | none => uri
  | some state =>
    uri ++ QueryString.separator uri :: "state=".toList ++ QueryString.encode state

/-- Where `logout` sends the browser: a registered URI, or home. -/
def postLogoutTarget (cfg : Config) (requested state : Option Str) (hint : Option (Str × Str)) :
    Req AuthError Str :=
  match requested, hint with
  | some uri, some (_, clientId) => do
    let client : Except AuthError OidcClient ← (loadClient clientId).attempt
    return if client.toOption.any fun c => uri ∈ c.postLogoutRedirectUris then
        withState uri state
      else cfg.appUrl
  | _, _ => return cfg.appUrl

/-- The revocations of `logout`; their failures are recorded only. -/
def rpRevoke (userId clientId : Str) : Req AuthError Unit := do
  (revokeClientTokensForUser clientId userId).swallow
  (deleteSessionsByUserId userId : Req AuthError Unit).swallow

/-- `logout`, the RP-initiated one. -/
def rpLogout (cfg : Config) (request : RpLogoutRequest) : Req AuthError Str :=
  let hint := request.idTokenHint.bind (verifyIdTokenHint cfg)
  match hint with
  | some (userId, clientId) => do
    rpRevoke userId clientId
    postLogoutTarget cfg request.postLogoutRedirectUri request.state hint
  | none => postLogoutTarget cfg request.postLogoutRedirectUri request.state none

end SoulAuth
