import SoulAuth.Framework.Cookies
import SoulAuth.Routes.Auth
import SoulAuth.Routes.LoginPage
import SoulAuth.Routes.SignedTokens
import SoulAuth.Utils.Crypto
import SoulAuth.Utils.RateLimitMiddleware

/-! # Cookies, and the login at a provider

The server keeps three values in the browser: the session, the way back to an
authorization request, and the nonce of a login at a provider. They are
written into `Set-Cookie` lines and read from `Cookie` headers. The nonce
binds the callback of a provider to the browser that was sent there.
-/

namespace SoulAuth

open Framework

/-! ## Lines and headers -/

/-- `SOULAUTH_SESSION_COOKIE`. -/
def soulauthSessionCookie : Str := "soulauth_session".toList

/-- `OIDC_RETURN_COOKIE`. -/
def oidcReturnCookie : Str := "soulauth_oidc_return".toList

/-- `OAUTH_STATE_COOKIE`. -/
def oauthStateCookie : Str := "soulauth_oauth_state".toList

/-- `cookies_secure`. -/
def Config.cookiesSecure (cfg : Config) : Bool :=
  (Str.stripPrefix "https://".toList (Str.toAsciiLowercase (Str.trim cfg.appUrl))).isSome

/-- `build_cookie`. -/
def buildCookie (name value : Str) (maxAgeSeconds : Int) (secure : Bool) : Str :=
  let secureAttr : Str := if secure then "; Secure".toList else []
  name ++ '=' :: QueryString.encode value ++ "; Path=/; Max-Age=".toList ++
    (toString maxAgeSeconds).toList ++ "; HttpOnly".toList ++ secureAttr ++
    "; SameSite=Lax".toList

/-- `build_expired_cookie`. -/
def buildExpiredCookie (name : Str) (secure : Bool) : Str := buildCookie name [] 0 secure

/-- `cookie_value`: the first piece of a `Cookie` header with this name whose
    value can be decoded. -/
def cookieValue (headers : HeaderMap) (name : Str) : Option Str :=
  let texts := (headers.filter fun h => h.1 = "cookie".toList).filterMap fun h =>
    HeaderValue.toStr h.2
  let cookies := (texts.flatMap fun text => text.splitOn ';').filterMap fun cookie =>
    Str.splitOnce '=' (Str.trim cookie)
  cookies.findSome? fun cookie => if cookie.1 = name then QueryString.decode cookie.2 else none

/-! ## Tokens as texts -/

/-- `jsonwebtoken` under the secret of the server: the text of a token, and
    the texts that a signature vouches for. -/
structure TokenTexts where
  write : SignedToken → Str
  read : Str → Option SignedToken
  read_write : ∀ token, read (write token) = some token

/-- `IssuedOAuthState`. -/
structure IssuedOAuthState where
  token : Str
  nonce : Str
  deriving DecidableEq, Repr

/-- `create_oauth_state_token`, as a text. -/
def TokenTexts.createOAuthState (texts : TokenTexts) (returnTarget : Option Str) (nonce : Str)
    (now : Timestamp) : Except AuthError IssuedOAuthState := do
  let token ← createOAuthStateToken returnTarget nonce now
  return ⟨texts.write token, nonce⟩

/-- `decode_oauth_state_token`, from a text. -/
def TokenTexts.decodeOAuthState (texts : TokenTexts) (now : Timestamp) (state : Str) :
    Except AuthError OAuthStateClaims :=
  match texts.read state with
  | some token => decodeOAuthStateToken now token
  | none => .error .invalidToken

/-! ## To the provider -/

/-- A redirect with the cookies that it sets, in order. -/
structure BrowserAnswer where
  location : Str
  cookies : List Str
  deriving DecidableEq, Repr

/-- `resolve_login_state`, from the query, with the nonce that a state of this
    login would have. -/
def TokenTexts.resolveLoginState (texts : TokenTexts) (now : Timestamp) (nonce : Str) :
    Option Str → Except AuthError IssuedOAuthState
  | some state =>
    match texts.decodeOAuthState now state with
    | .ok decoded => .ok ⟨state, decoded.nonce⟩
    | .error _ => .error (.badRequest "Invalid state parameter")
  | none => texts.createOAuthState none nonce now

/-- `oauth_login_redirect`. -/
def oauthLoginRedirect (cfg : Config) (authUrl nonce : Str) : BrowserAnswer where
  location := authUrl
  cookies := [buildCookie oauthStateCookie nonce oauthStateTtlSeconds cfg.cookiesSecure]

/-- `google_login` and `github_login`. The address of the provider is that of
    `get_google_auth_url_with_state` or its sibling, when it is configured. -/
def externalLogin (cfg : Config) (texts : TokenTexts) (authUrl : Str → Except AuthError Str)
    (now : Timestamp) (nonce : Str) (incoming : Option Str) : Except AuthError BrowserAnswer := do
  let state ← texts.resolveLoginState now nonce incoming
  let url ← authUrl state.token
  return oauthLoginRedirect cfg url state.nonce

/-! ## And back -/

/-- `verify_callback_state`, from the query and the headers. -/
def TokenTexts.verifyCallbackState (texts : TokenTexts) (headers : HeaderMap) (now : Timestamp)
    (state : Option Str) : Except AuthError (Option Str) := do
  let some state := state | throw (.badRequest "Missing state parameter")
  let decoded ← (texts.decodeOAuthState now state).mapError fun _ =>
    .badRequest "Invalid or expired state parameter"
  let some cookieNonce := cookieValue headers oauthStateCookie |
    throw (.badRequest "Invalid or expired state parameter")
  if constantTimeEq (Utf8.encode cookieNonce) (Utf8.encode decoded.nonce) = false then
    throw (.badRequest "Invalid or expired state parameter")
  return decoded.returnTarget

/-- `build_oauth_redirect`. -/
def buildOAuthRedirect (cfg : Config) (texts : TokenTexts) (headers : HeaderMap)
    (issued : IssuedSession) (stateReturnTarget : Option Str) (now : Timestamp) : BrowserAnswer :=
  let frontendBase := Str.trimEndMatches '/' cfg.appUrl
  let sessionToken := browserSessionToken
    { sub := issued.user.id, sid := issued.sessionKey, exp := now + cookieTtlSeconds, iat := now }
  let sessionCookie := buildCookie soulauthSessionCookie (texts.write sessionToken)
    cookieTtlSeconds cfg.cookiesSecure
  -- the state is used up, whatever follows
  let expiredState := buildExpiredCookie oauthStateCookie cfg.cookiesSecure
  match oauthReturnTarget stateReturnTarget
      ((cookieValue headers oidcReturnCookie).bind texts.read) now with
  | some returnUrl =>
    ⟨returnUrl, [sessionCookie, buildExpiredCookie oidcReturnCookie cfg.cookiesSecure,
      expiredState]⟩
  | none =>
    let target := if issued.user.hasPassword then "/oauth/callback" else "/initialize-password"
    ⟨frontendBase ++ target.toList, [sessionCookie, expiredState]⟩

/-- `google_callback` and `github_callback`; `session` is what
    `handle_google_callback` or its sibling ends with. -/
def externalCallback (cfg : Config) (texts : TokenTexts) (headers : HeaderMap) (now : Timestamp)
    (state : Option Str) (session : Except AuthError IssuedSession) :
    Except AuthError BrowserAnswer := do
  let stateReturnTarget ← texts.verifyCallbackState headers now state
  let issued ← session
  return buildOAuthRedirect cfg texts headers issued stateReturnTarget now

/-! ## The texts and the tokens

On the text of a token the two checks are those that are made of the token
itself.
-/

theorem TokenTexts.decodeOAuthState_read (texts : TokenTexts) {text : Str} {token : SignedToken}
    (hread : texts.read text = some token) (now : Timestamp) :
    texts.decodeOAuthState now text = decodeOAuthStateToken now token := by
  rw [decodeOAuthState, hread]

theorem TokenTexts.resolveLoginState_read (texts : TokenTexts) {text : Str} {token : SignedToken}
    (hread : texts.read text = some token) (sight : Sight) (nonce : Str) :
    texts.resolveLoginState sight.decodedAt nonce (some text) =
      (SoulAuth.resolveLoginState sight token).map fun resolved => ⟨text, resolved.2⟩ := by
  unfold TokenTexts.resolveLoginState SoulAuth.resolveLoginState
  dsimp only
  rw [texts.decodeOAuthState_read hread]
  cases decodeOAuthStateToken sight.decodedAt token <;> rfl

theorem TokenTexts.verifyCallbackState_read (texts : TokenTexts) {text : Str}
    {token : SignedToken} (hread : texts.read text = some token) (sight : Sight)
    (headers : HeaderMap) :
    texts.verifyCallbackState headers sight.decodedAt (some text) =
      SoulAuth.verifyCallbackState
        { sight with stateCookie := cookieValue headers oauthStateCookie } token := by
  unfold TokenTexts.verifyCallbackState SoulAuth.verifyCallbackState
  dsimp only
  rw [texts.decodeOAuthState_read hread]
  cases decodeOAuthStateToken sight.decodedAt token with
  | error e => rfl
  | ok claims =>
    cases cookieValue headers oauthStateCookie with
    | none => rfl
    | some nonce =>
      simp only [Except.mapError, bind, Except.bind]
      -- the bytes of two texts are compared, which are the same just when the texts are
      by_cases hsame : nonce = claims.nonce
      · subst hsame
        have heq : constantTimeEq (Utf8.encode claims.nonce) (Utf8.encode claims.nonce) = true :=
          constantTimeEq_iff.mpr rfl
        simp [heq]
      · have hne : constantTimeEq (Utf8.encode nonce) (Utf8.encode claims.nonce) = false := by
          refine Bool.eq_false_iff.mpr fun heq => hsame ?_
          exact Utf8.encode_inj.mp (constantTimeEq_iff.mp heq)
        simp [hne, hsame]

end SoulAuth
