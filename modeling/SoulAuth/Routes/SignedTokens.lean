import SoulAuth.Database.Machine
import SoulAuth.Utils.SignedToken

/-! # The consumers of signed tokens

Each endpoint that reads a signed token decodes it as the kind that it
expects, and then looks at rows and cookies. The checks of this file are
those that concern the token; what an endpoint asks of the account behind it
comes after them.
-/

namespace SoulAuth

/-- The fingerprint that a session row stores is the one of the encoded
    token. -/
def Session.storedHash (row : Session) : Hashed SignedToken :=
  hashBearer (sessionToken row.tokenHash.of)

/-- `verify_session_active`. -/
def verifySessionActive (db : Db) (now : Timestamp) (token : SignedToken) :
    Except AuthError Unit :=
  if db.sessions.any fun row => row.storedHash = hashBearer token && now < row.expiresAt then
    .ok ()
  else .error .invalidToken

/-- What a consumer sees besides the token: the clock when it starts, when it
    decodes and when it looks a session up; the database at its two look-ups;
    the `max_age` of an authorization request, and the cookie with the nonce
    of an external login. -/
structure Sight where
  startedAt : Timestamp
  decodedAt : Timestamp
  lookedUpAt : Timestamp
  sessionDb : Db
  userDb : Db
  maxAge : Option Int
  stateCookie : Option Str

/-- `decode_and_verify_token`. -/
def presentBearer (sight : Sight) (token : SignedToken) : Except AuthError Claims := do
  let claims ← decodeTokenClaims sight.decodedAt token
  verifySessionActive sight.sessionDb sight.lookedUpAt token
  return claims

/-- The cookie branch of `authorize`: the session behind the cookie is young
    enough and still there, and the account is active. -/
def presentCookie (sight : Sight) (token : SignedToken) : Except AuthError (Str × Str) := do
  let session ← decodeBrowserSessionToken sight.decodedAt token
  if sight.maxAge.any fun maxAge => maxAge < sight.startedAt - session.iat then
    throw .invalidToken
  if (sight.sessionDb.sessions.any fun row =>
      row.key = session.sid && sight.lookedUpAt < row.expiresAt) = false then
    throw .invalidToken
  let userKey := normalizeUserId session.sub
  match sight.userDb.users.find? fun u => u.key = userKey with
  | none => throw .userNotFound
  | some user =>
    user.ensureUsable
    return (user.key, session.sid)

/-- `resolve_login_state`, of a state that was passed in. -/
def resolveLoginState (sight : Sight) (token : SignedToken) :
    Except AuthError (SignedToken × Str) :=
  match decodeOAuthStateToken sight.decodedAt token with
  | .ok decoded => .ok (token, decoded.nonce)
  | .error _ => .error (.badRequest "Invalid state parameter")

/-- `verify_callback_state`. -/
def verifyCallbackState (sight : Sight) (token : SignedToken) :
    Except AuthError (Option Str) := do
  let decoded ← (decodeOAuthStateToken sight.decodedAt token).mapError fun _ =>
    .badRequest "Invalid or expired state parameter"
  if sight.stateCookie ≠ some decoded.nonce then
    throw (.badRequest "Invalid or expired state parameter")
  return decoded.returnTarget

/-- The first check of `mfa_login_verify`. -/
def presentChallenge (sight : Sight) (token : SignedToken) :
    Except AuthError MfaChallengeClaims :=
  (decodeMfaChallengeToken sight.decodedAt token).mapError fun _ =>
    .tokenError "Invalid or expired MFA token"

/-! ## Kinds and consumers -/

/-- The five kinds of signed tokens. -/
inductive TokenKind
  | session
  | browserSession
  | oauthState
  | oidcReturn
  | mfaChallenge
  deriving DecidableEq, Repr

/-- The places that read a signed token. -/
inductive Consumer
  | bearer
  | cookie
  | loginState
  | callbackState
  | returnCookie
  | mfaLogin
  deriving DecidableEq, Repr

/-- The kind that a consumer is for. -/
def Consumer.kind : Consumer → TokenKind
  | bearer => .session
  | cookie => .browserSession
  | loginState | callbackState => .oauthState
  | returnCookie => .oidcReturn
  | mfaLogin => .mfaChallenge

/-- Whether a consumer decodes a token. -/
def Consumer.decodes (now : Timestamp) (token : SignedToken) : Consumer → Bool
  | bearer => (decodeTokenClaims now token).isOk
  | cookie => (decodeBrowserSessionToken now token).isOk
  | loginState | callbackState => (decodeOAuthStateToken now token).isOk
  | returnCookie => (decodeOidcReturnToken now token).isOk
  | mfaLogin => (decodeMfaChallengeToken now token).isOk

/-- Whether a consumer accepts a token. -/
def Consumer.accepts (sight : Sight) (token : SignedToken) : Consumer → Bool
  | bearer => (presentBearer sight token).isOk
  | cookie => (presentCookie sight token).isOk
  | loginState => (resolveLoginState sight token).isOk
  | callbackState => (verifyCallbackState sight token).isOk
  | returnCookie => (decodeOidcReturnToken sight.decodedAt token).isOk
  | mfaLogin => (presentChallenge sight token).isOk

/-- What the server signs, for all values of the claims. A session token names
    the session that it opens. -/
inductive Minted : TokenKind → SignedToken → Prop
  | session (claims : Claims) (sid : Str) (h : claims.sessionId = some sid) :
    Minted .session (sessionToken claims)
  | browserSession (claims : BrowserSessionClaims) :
    Minted .browserSession (browserSessionToken claims)
  | oauthState (returnTarget : Option Str) (nonce : Str) (now : Timestamp) (token : SignedToken)
    (h : createOAuthStateToken returnTarget nonce now = .ok token) : Minted .oauthState token
  | oidcReturn (target : Str) (now : Timestamp) (token : SignedToken)
    (h : createOidcReturnToken target now = .ok token) : Minted .oidcReturn token
  | mfaChallenge (claims : MfaChallengeClaims) : Minted .mfaChallenge (mfaChallengeToken claims)

end SoulAuth
