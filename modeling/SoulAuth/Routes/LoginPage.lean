import SoulAuth.Routes.Oidc
import SoulAuth.Utils.SignedToken

/-! # The way over the login page

A browser without a session leaves `authorize` for the login page, with a
signed token that holds the request. After the login it issues the request
of the token again.
-/

namespace SoulAuth

open Framework

/-! ## The request in the query string -/

/-- The value of a text of decimal digits. -/
def digitsValue (digits : Str) : Option Nat :=
  if digits ≠ [] ∧ digits.all (fun c => '0' ≤ c && c ≤ '9') = true then
    some (digits.foldl (fun n c => 10 * n + (c.toNat - '0'.toNat)) 0)
  else none

/-- `str::parse::<i64>`: digits with an optional sign, in range. -/
def parseI64 (text : Str) : Option Int :=
  let value : Option Int :=
    match text with
    | '-' :: digits => (digitsValue digits).map fun n => -(n : Int)
    | '+' :: digits => (digitsValue digits).map fun n => (n : Int)
    | digits => (digitsValue digits).map fun n => (n : Int)
  value.filter fun n => -2 ^ 63 ≤ n && n < 2 ^ 63

/-- The parameters of a query string, by their names. -/
abbrev QueryParams := String → Option Str

/-- The `AuthorizeRequest` that `authorize` reads from its parameters. -/
def AuthorizeRequest.ofParams (params : QueryParams) : Except AuthError AuthorizeRequest :=
  match params "response_type", params "client_id", params "redirect_uri" with
  | none, _, _ => .error (.badRequest "Missing response_type")
  | some _, none, _ => .error (.badRequest "Missing client_id")
  | some _, some _, none => .error (.badRequest "Missing redirect_uri")
  | some responseType, some clientId, some redirectUri =>
    .ok {
      responseType := responseType
      clientId := clientId
      redirectUri := redirectUri
      scope := params "scope"
      state := params "state"
      nonce := params "nonce"
      codeChallenge := params "code_challenge"
      codeChallengeMethod := params "code_challenge_method"
      prompt := params "prompt"
      maxAge := (params "max_age").bind parseI64 }

/-! ## There -/

variable [Platform]

/-- What the browser is told. -/
inductive AuthorizePage
  | answered (response : AuthorizeResponse)
  /-- The login page, with the token that leads back. -/
  | loginPage (returnTo : SignedToken)
  deriving DecidableEq, Repr

/-- `authorize`, from the URI of the request on; `query` are the parameters
    that a URI has. -/
def authorizePage (query : Str → QueryParams) (originalUri : Str)
    (credentials : AuthorizeCredentials) : Req AuthError AuthorizePage := do
  let request ← Prog.ofExcept (AuthorizeRequest.ofParams (query originalUri))
  let response ← authorize request credentials
  match response with
  | .loginPage => do
    let now ← getNow
    let returnTo ← Prog.ofExcept (createOidcReturnToken originalUri now)
    return .loginPage returnTo
  | response => return .answered response

/-! ## And back -/

/-- Where `build_oauth_redirect` sends the browser back to, if anywhere: the
    target in the state, else the one in the cookie. -/
def oauthReturnTarget (stateReturnTarget : Option Str) (returnCookie : Option SignedToken)
    (now : Timestamp) : Option Str :=
  stateReturnTarget.or
    (returnCookie.bind fun cookie => (decodeOidcReturnToken now cookie).toOption)

omit [Platform] in
/-- The token leads back to the request that it was made for. -/
theorem decodeOidcReturnToken_create {target target' : Str} {now now' : Timestamp}
    {token : SignedToken} (hcreate : createOidcReturnToken target now = .ok token)
    (hdecode : decodeOidcReturnToken now' token = .ok target') : target' = target := by
  have htoken : token =
      OidcReturnClaims.format.serialize ⟨target, now + oauthStateTtlSeconds, now⟩ := by
    unfold createOidcReturnToken at hcreate
    by_cases hvalid : isValidOidcReturnTarget target = false
    · rw [if_pos hvalid] at hcreate
      cases hcreate
    · rw [if_neg hvalid] at hcreate
      exact (Except.ok.inj hcreate).symm
  have hread := OidcReturnClaims.format.deserialize_serialize
    ⟨target, now + oauthStateTtlSeconds, now⟩
  rw [← htoken] at hread
  unfold decodeOidcReturnToken ClaimsFormat.decode at hdecode
  rw [hread] at hdecode
  simp only [bind, Except.bind] at hdecode
  split at hdecode
  · cases hdecode
  · next claims hclaims =>
    have htarget : claims.target = target := by
      split at hclaims
      · cases hclaims
      · split at hclaims
        · cases hclaims
        · cases hclaims
          rfl
    split at hdecode
    · cases hdecode
    · rw [← htarget]
      exact (Except.ok.inj hdecode).symm

end SoulAuth
