import SoulAuth.Utils.Text

/-! # Configuration -/

namespace SoulAuth

/-- `LockoutConfig`. Loading refuses zero attempts and a zero duration, so a
    configuration of a running server has neither. -/
structure LockoutConfig where
  maxAttempts : Nat
  lockoutDurationMinutes : Nat
  resetWindowMinutes : Nat
  enableIpLockout : Bool
  enableUserLockout : Bool
  maxAttempts_pos : 0 < maxAttempts
  lockoutDuration_pos : 0 < lockoutDurationMinutes
  deriving DecidableEq

/-- The part of `Config` that the modelled requests read. -/
structure Config where
  jwtExpiration : Int
  emailVerificationEnabled : Bool
  passwordMinLength : Nat
  appUrl : Str
  /-- `LOGIN_PAGE_URL`, when it is set. -/
  loginPageUrl : Option Str
  /-- Whether `MFA_SECRET_ENCRYPTION_KEY` is set. -/
  mfaKeyConfigured : Bool
  lockout : LockoutConfig
  deriving DecidableEq

/-- A configuration, for requests that read none. -/
def bareConfig : Config where
  jwtExpiration := 0
  emailVerificationEnabled := false
  passwordMinLength := 0
  appUrl := []
  loginPageUrl := none
  mfaKeyConfigured := false
  lockout := ⟨1, 1, 0, false, false, by decide, by decide⟩

/-- `DEFAULT_SESSION_TTL_SECONDS`. -/
def defaultSessionTtlSeconds : Int := 86400

/-- `session_ttl_seconds`. -/
def Config.sessionTtlSeconds (cfg : Config) : Int :=
  if cfg.jwtExpiration > 0 then cfg.jwtExpiration else defaultSessionTtlSeconds

/-- `login_page_url`. -/
def Config.loginPage (cfg : Config) : Str :=
  cfg.loginPageUrl.getD (Str.trimEndMatches '/' cfg.appUrl ++ "/login".toList)

theorem Config.sessionTtlSeconds_pos (cfg : Config) : 0 < cfg.sessionTtlSeconds := by
  unfold sessionTtlSeconds
  split
  · assumption
  · decide

/-! ## URLs -/

/-- `str::split_once` of a URL at the end of its scheme: what comes behind. -/
def afterScheme : Str → Option Str
  | [] => none
  | c :: cs =>
    match Str.stripPrefix "://".toList (c :: cs) with
    | some rest => some rest
    | none => afterScheme cs

/-- `host_of`. Within brackets the host has colons of its own. -/
def hostOf (url : Str) : Option Str := do
  let rest ← afterScheme url
  match rest with
  | '[' :: inner =>
    if ']' ∈ inner then some ('[' :: inner.takeWhile (· ≠ ']') ++ [']']) else none
  | rest =>
    let host := rest.takeWhile fun c => c ≠ '/' && c ≠ ':'
    if host = [] then none else some host

/-- `is_loopback_host`. -/
def isLoopbackHost (host : Str) : Bool :=
  host ∈ ["127.0.0.1".toList, "localhost".toList, "[::1]".toList, "::1".toList]

/-- `ConfigError`, as the modelled checks raise it. -/
inductive ConfigError where
  | invalid (name reason : String)
  deriving DecidableEq

/-- An optional value, which a blank one does not set. -/
def filled (value : Option Str) : Option Str := (value.map Str.trim).filter (· ≠ [])

/-- What the two checks below have in common: plaintext is for loopback hosts. -/
def checkTransport (name remote relative : String) (raw : Str) : Except ConfigError Unit :=
  if (Str.stripPrefix "https://".toList raw).isSome then .ok ()
  else
    match hostOf raw with
    | some host => if isLoopbackHost host then .ok () else .error (.invalid name remote)
    | none => .error (.invalid name relative)

/-- `check_oauth_base_url`. -/
def checkOauthBaseUrl (name : String) (value : Option Str) : Except ConfigError Unit :=
  match filled value with
  | none => .ok ()
  | some raw =>
    if raw.getLast? = some '/' then
      .error (.invalid name "must not end with a trailing slash")
    else
      checkTransport name
        ("plaintext http is only allowed for loopback hosts; a remote OAuth endpoint " ++
          "must use https or the client secret and access tokens travel in the clear")
        "must start with https:// or http://" raw

/-- `check_oauth_redirect_url`. -/
def checkOauthRedirectUrl (value : Option Str) : Except ConfigError Unit :=
  match filled value with
  | none => .ok ()
  | some raw =>
    checkTransport "OAUTH_REDIRECT_URL"
      ("plaintext http is only allowed for loopback hosts; a remote callback URL " ++
        "must use https or the authorization code travels in the clear")
      "must be an absolute URL starting with https:// or http://" raw

example : hostOf "http://[::1]:8080/cb".toList = some "[::1]".toList := by decide

end SoulAuth
