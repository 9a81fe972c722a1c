import SoulAuth.Models.UserActivity
import SoulAuth.Services.RateLimiter

/-! # The rate limit in front of every route

The middleware names the client and the endpoint of a request, asks the
limiter, and lets the request pass or refuses it. The answer of the shared
backend is an input here, so that whatever is proved holds for every answer
of it.
-/

namespace SoulAuth

/-! ## Requests -/

/-- The bytes of a header, as characters. -/
abbrev HeaderValue := Str

/-- `HeaderValue::to_str`: visible ASCII and tabs only. -/
def HeaderValue.toStr (v : HeaderValue) : Option Str :=
  if v.all fun c => 32 ≤ c.toNat && c.toNat < 127 || c = '\t' then some v else none

/-- `HeaderMap`, by the names in lower case; the first value of a name is the
    one that is found. -/
abbrev HeaderMap := List (Str × HeaderValue)

/-- What the middleware reads of a request: the address of the connection as
    a text, the headers, the template of the matched route, and the path. -/
structure LimitedRequest where
  addr : Str
  headers : HeaderMap
  matchedPath : Option Str
  path : Str
  addr_plain : keySeparator ∉ addr
  deriving DecidableEq, Repr

/-- The client that a header names: its text up to the first comma. -/
def headerClient (headers : HeaderMap) (name : String) (cut : Str → Str) : Option Str := do
  let value ← headers.lookup name.toList
  let text ← value.toStr
  let ip := Str.trim (cut text)
  if ip = [] then none else some ip

/-- `client_ip`: the headers of a proxy count only when it is trusted. -/
def clientIp (addr : Str) (headers : HeaderMap) (trustProxyHeaders : Bool) : Str :=
  if trustProxyHeaders then
    ((headerClient headers "x-forwarded-for" (List.takeWhile fun c => c ≠ ',')).orElse
      fun _ => headerClient headers "x-real-ip" id).getD addr
  else addr

/-- `rate_limit_endpoint`: the template of the route, or else the path. -/
def rateLimitEndpoint (req : LimitedRequest) : Str := req.matchedPath.getD req.path

/-- The user agent of the audit event, cut to 256 characters. -/
def auditedUserAgent (headers : HeaderMap) : Str :=
  (((headers.lookup "user-agent".toList).bind HeaderValue.toStr).getD "Unknown".toList).take 256

/-! ## The layer -/

/-- The details of an event with one text. -/
def Details.single (name : String) (text : Str) : Details where
  members := [(name.toList, .string text)]
  keysDistinct := by simp [Json.KeysDistinct, Json.MembersDistinct]

/-- The audit event of a violated limit. -/
def rateLimitViolation (ip endpoint : Str) (headers : HeaderMap) : AuditEvent where
  action := "rate_limit_violation".toList
  category := .security
  status := .warning
  userId := none
  actorIdentityId := none
  ipAddress := ip
  userAgent := auditedUserAgent headers
  details := .single "endpoint" endpoint

/-- A response with the error envelope. -/
structure ErrorResponse where
  status : Nat
  error : String
  message : String
  deriving DecidableEq, Repr

/-- `rate_limited_response`. -/
def rateLimitedResponse : ErrorResponse :=
  ⟨429, "rate_limit_exceeded", "Too many requests. Please try again later."⟩

/-- `check_shared`, when `shared_decision` ends with `shared`: endpoints with
    a rule of their own only, and an error lets the request pass. -/
def RateLimiter.sharedAnswer (l : RateLimiter) (endpoint : Str)
    (shared : Option RateLimitDecision) : RateLimitDecision :=
  if (l.endpointRules.lookup endpoint).isSome then shared.getD .allowed else .allowed

/-- `check_rate_limit_verbose`: what passes in this process goes on to the
    shared backend. -/
def RateLimiter.checkWithShared (l : RateLimiter) (records : Records) (key endpoint : Str)
    (t : Readings) (shared : Option RateLimitDecision) : RateLimitDecision × Records :=
  let out := l.checkRateLimitVerbose records key endpoint t
  (if out.1 = .allowed then l.sharedAnswer endpoint shared else out.1, out.2)

/-- What becomes of a request: `response = none` lets it pass. -/
structure LayerAnswer where
  req : LimitedRequest
  t : Readings
  response : Option ErrorResponse
  audited : Option AuditEvent

/-- What the layer makes of a decision. A request that begins a block is
    audited; the ones that follow are dropped. -/
def LayerAnswer.of (req : LimitedRequest) (t : Readings) (ip endpoint : Str) :
    RateLimitDecision → LayerAnswer
  | .allowed => ⟨req, t, none, none⟩
  | .justBlocked =>
    ⟨req, t, some rateLimitedResponse, some (rateLimitViolation ip endpoint req.headers)⟩
  | .stillBlocked => ⟨req, t, some rateLimitedResponse, none⟩

/-- `rate_limit_layer`. -/
def rateLimitLayer (l : RateLimiter) (trustProxyHeaders : Bool) (records : Records)
    (req : LimitedRequest) (t : Readings) (shared : Option RateLimitDecision) :
    LayerAnswer × Records :=
  let ip := clientIp req.addr req.headers trustProxyHeaders
  let endpoint := rateLimitEndpoint req
  let out := l.checkWithShared records ip endpoint t shared
  (.of req t ip endpoint out.1, out.2)

/-- The limiter that `main` sets up. -/
def deployedRateLimiter : RateLimiter where
  defaultRule := RateLimitRules.generalApi
  endpointRules :=
    [("/api/auth/login".toList, RateLimitRules.login),
      ("/api/auth/admin/login".toList, RateLimitRules.login),
      ("/api/auth/mfa/login-verify".toList, RateLimitRules.login),
      ("/api/auth/register".toList, RateLimitRules.register),
      ("/api/auth/request-password-reset".toList, RateLimitRules.passwordReset),
      ("/api/auth/reset-password".toList, RateLimitRules.passwordReset),
      ("/api/auth/verify-email/:token".toList, RateLimitRules.passwordReset),
      ("/api/auth/initialize-password".toList, RateLimitRules.passwordReset),
      ("/api/auth/resend-verification".toList, RateLimitRules.passwordReset)]

/-! ## The name of the client -/

/-- A text of a header has no separator in it. -/
theorem separator_notMem_toStr {v : HeaderValue} {text : Str} (h : v.toStr = some text) :
    keySeparator ∉ text := by
  unfold HeaderValue.toStr at h
  split at h
  · next hall =>
    cases h
    intro hmem
    have hvisible := List.all_eq_true.mp hall _ hmem
    exact absurd hvisible (by decide)
  · cases h

theorem separator_notMem_headerClient {headers : HeaderMap} {name : String} {cut : Str → Str}
    {ip : Str} (hcut : ∀ s, (cut s).Sublist s) (h : headerClient headers name cut = some ip) :
    keySeparator ∉ ip := by
  simp only [headerClient, Option.bind_eq_bind, Option.bind_eq_some_iff] at h
  obtain ⟨value, -, text, htext, h⟩ := h
  split at h
  · cases h
  · cases h
    intro hmem
    have hin : keySeparator ∈ cut text := by
      have hdropped := (List.rdropWhile_prefix Str.isWhitespace _).subset hmem
      exact (List.dropWhile_sublist _).subset hdropped
    exact separator_notMem_toStr htext ((hcut text).subset hin)

/-- The client of a request has no separator in its name, so that two
    buckets never share a key. -/
theorem separator_notMem_clientIp (req : LimitedRequest) (trustProxyHeaders : Bool) :
    keySeparator ∉ clientIp req.addr req.headers trustProxyHeaders := by
  unfold clientIp
  split
  · cases hforwarded : headerClient req.headers "x-forwarded-for"
      (List.takeWhile fun c => c ≠ ',') with
    | some ip =>
      exact separator_notMem_headerClient (fun _ => List.takeWhile_sublist _) hforwarded
    | none =>
      cases hreal : headerClient req.headers "x-real-ip" id with
      | some ip => exact separator_notMem_headerClient (fun _ => List.Sublist.refl _) hreal
      | none => exact req.addr_plain
  · exact req.addr_plain

end SoulAuth
