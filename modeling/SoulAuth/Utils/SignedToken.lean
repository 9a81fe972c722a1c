import SoulAuth.Models.Factors
import SoulAuth.Models.Oidc

/-! # Signed tokens

Five kinds of tokens are signed with one secret under one header: the bearer
of a session, the cookie of a browser session, the state of an external
login, the way back to an authorization request, and the challenge between
the two steps of a login. They differ in the claims that they carry.

A signature cannot be forged, so a signed token is its payload. A text that
the server did not sign does not decode, and is not represented.
-/

namespace SoulAuth

/-- The value of a claim. -/
inductive ClaimValue
  | null
  | int (n : Int)
  | string (s : Str)
  deriving DecidableEq, Repr

/-- A token with the signature of this server: the members of the payload, in
    the order in which they were written. -/
structure SignedToken where
  members : List (String × ClaimValue)
  deriving DecidableEq, Repr

namespace SignedToken

/-- The member of a name. `serde` refuses a field that occurs twice. -/
def member (token : SignedToken) (name : String) : Except AuthError (Option ClaimValue) :=
  match token.members.filter fun m => m.1 = name with
  | [] => .ok none
  | [m] => .ok (some m.2)
  | _ => .error .invalidToken

/-- A field of the type `String`. -/
def stringField (token : SignedToken) (name : String) : Except AuthError Str :=
  match token.member name with
  | .ok (some (.string s)) => .ok s
  | _ => .error .invalidToken

/-- A field of the type `i64`. -/
def intField (token : SignedToken) (name : String) : Except AuthError Int :=
  match token.member name with
  | .ok (some (.int n)) => .ok n
  | _ => .error .invalidToken

/-- A field of the type `Option<String>` that may be missing. -/
def optionalField (token : SignedToken) (name : String) : Except AuthError (Option Str) :=
  match token.member name with
  | .ok none | .ok (some .null) => .ok none
  | .ok (some (.string s)) => .ok (some s)
  | _ => .error .invalidToken

theorem stringField_of_member {token : SignedToken} {name : String} {s : Str}
    (h : token.member name = .ok (some (.string s))) : token.stringField name = .ok s := by
  simp [stringField, h]

theorem intField_of_member {token : SignedToken} {name : String} {n : Int}
    (h : token.member name = .ok (some (.int n))) : token.intField name = .ok n := by
  simp [intField, h]

end SignedToken

/-- How an optional text is written. -/
def ClaimValue.ofOption : Option Str → ClaimValue
  | none => .null
  | some s => .string s

theorem SignedToken.optionalField_of_member {token : SignedToken} {name : String}
    {o : Option Str} (h : token.member name = .ok (some (.ofOption o))) :
    token.optionalField name = .ok o := by
  cases o with
  | none => simp [optionalField, h, ClaimValue.ofOption]
  | some s => simp [optionalField, h, ClaimValue.ofOption]

/-- `Serialize` and `Deserialize` of the claims of one kind. What was written
    is read back. -/
structure ClaimsFormat (α : Type) where
  serialize : α → SignedToken
  deserialize : SignedToken → Except AuthError α
  deserialize_serialize : ∀ a, deserialize (serialize a) = .ok a

/-- `jsonwebtoken::decode`: the claims, then the validation of the expiry. -/
def ClaimsFormat.decode {α : Type} (format : ClaimsFormat α) (leeway : Int) (now : Timestamp)
    (token : SignedToken) : Except AuthError α := do
  let claims ← format.deserialize token
  let exp ← token.intField "exp"
  if exp < now - leeway then throw .invalidToken
  return claims

/-- The leeway of `Validation::default()`. -/
def defaultLeeway : Int := 60

/-! ## The claims of a session token -/

/-- The name of a `SubjectType`. -/
def SubjectType.name : SubjectType → Str
  | .human => "human".toList
  | .agent => "agent".toList

/-- `SubjectType` from its name. -/
def SubjectType.ofName (s : Str) : Except AuthError SubjectType :=
  if s = "human".toList then .ok .human
  else if s = "agent".toList then .ok .agent
  else .error .invalidToken

/-- `Option<SubjectType>`. -/
def SubjectType.ofOption : Option Str → Except AuthError (Option SubjectType)
  | none => .ok none
  | some s => (SubjectType.ofName s).map some

theorem SubjectType.ofOption_name (t : Option SubjectType) :
    SubjectType.ofOption (t.map SubjectType.name) = .ok t := by
  rcases t with _ | _ | _ <;> rfl

/-- `Claims`. -/
def Claims.format : ClaimsFormat Claims where
  serialize claims :=
    ⟨[("sub", .string claims.sub), ("exp", .int claims.exp), ("iat", .int claims.iat),
      ("session_id", .ofOption claims.sessionId),
      ("subject_type", .ofOption (claims.subjectType.map SubjectType.name))]⟩
  deserialize token := do
    let sub ← token.stringField "sub"
    let exp ← token.intField "exp"
    let iat ← token.intField "iat"
    let sessionId ← token.optionalField "session_id"
    let subjectType ← token.optionalField "subject_type"
    let subjectType ← SubjectType.ofOption subjectType
    return ⟨sub, exp, iat, sessionId, subjectType⟩
  deserialize_serialize claims := by
    rw [SignedToken.stringField_of_member (s := claims.sub) rfl,
      SignedToken.intField_of_member (n := claims.exp) rfl,
      SignedToken.intField_of_member (n := claims.iat) rfl,
      SignedToken.optionalField_of_member (o := claims.sessionId) rfl,
      SignedToken.optionalField_of_member (o := claims.subjectType.map SubjectType.name) rfl]
    simp only [bind, Except.bind, SubjectType.ofOption_name]
    rfl

/-- `create_session_with_metadata` and `issue_session`. -/
def sessionToken (claims : Claims) : SignedToken := Claims.format.serialize claims

/-- `decode_token_claims`. -/
def decodeTokenClaims (now : Timestamp) (token : SignedToken) : Except AuthError Claims :=
  Claims.format.decode defaultLeeway now token

/-! ## The challenge between the two steps of a login -/

/-- `MfaChallengeClaims`, with the purpose that they state. -/
structure MfaChallengePayload where
  claims : MfaChallengeClaims
  purpose : Str
  deriving DecidableEq, Repr

/-- `MFA_CHALLENGE_PURPOSE`. -/
def mfaChallengePurpose : Str := "mfa_challenge".toList

/-- `MfaChallengeClaims`. -/
def MfaChallengePayload.format : ClaimsFormat MfaChallengePayload where
  serialize payload :=
    ⟨[("sub", .string payload.claims.sub), ("email", .string payload.claims.email),
      ("exp", .int payload.claims.exp), ("iat", .int payload.claims.iat),
      ("purpose", .string payload.purpose)]⟩
  deserialize token := do
    let sub ← token.stringField "sub"
    let email ← token.stringField "email"
    let exp ← token.intField "exp"
    let iat ← token.intField "iat"
    let purpose ← token.stringField "purpose"
    return ⟨⟨sub, email, exp, iat⟩, purpose⟩
  deserialize_serialize payload := by
    rw [SignedToken.stringField_of_member (s := payload.claims.sub) rfl,
      SignedToken.stringField_of_member (s := payload.claims.email) rfl,
      SignedToken.intField_of_member (n := payload.claims.exp) rfl,
      SignedToken.intField_of_member (n := payload.claims.iat) rfl,
      SignedToken.stringField_of_member (s := payload.purpose) rfl]
    rfl

/-- `create_mfa_challenge_token`, for the claims. -/
def mfaChallengeToken (claims : MfaChallengeClaims) : SignedToken :=
  MfaChallengePayload.format.serialize ⟨claims, mfaChallengePurpose⟩

/-- `decode_mfa_challenge_token`. -/
def decodeMfaChallengeToken (now : Timestamp) (token : SignedToken) :
    Except AuthError MfaChallengeClaims := do
  let payload ← MfaChallengePayload.format.decode defaultLeeway now token
  if payload.purpose ≠ mfaChallengePurpose then throw .invalidToken
  return payload.claims

/-! ## The cookie of a browser session -/

/-- `BrowserSessionClaims`. -/
def BrowserSessionClaims.format : ClaimsFormat BrowserSessionClaims where
  serialize claims :=
    ⟨[("sub", .string claims.sub), ("sid", .string claims.sid), ("exp", .int claims.exp),
      ("iat", .int claims.iat)]⟩
  deserialize token := do
    let sub ← token.stringField "sub"
    let sid ← token.stringField "sid"
    let exp ← token.intField "exp"
    let iat ← token.intField "iat"
    return ⟨sub, sid, exp, iat⟩
  deserialize_serialize claims := by
    rw [SignedToken.stringField_of_member (s := claims.sub) rfl,
      SignedToken.stringField_of_member (s := claims.sid) rfl,
      SignedToken.intField_of_member (n := claims.exp) rfl,
      SignedToken.intField_of_member (n := claims.iat) rfl]
    rfl

/-- `create_browser_session_token`, for the claims. -/
def browserSessionToken (claims : BrowserSessionClaims) : SignedToken :=
  BrowserSessionClaims.format.serialize claims

/-- `decode_browser_session_token`. -/
def decodeBrowserSessionToken (now : Timestamp) (token : SignedToken) :
    Except AuthError BrowserSessionClaims := do
  let claims ← BrowserSessionClaims.format.decode 0 now token
  if Str.trim claims.sid = [] then throw .invalidToken
  return claims

/-! ## The way back to an authorization request -/

/-- `is_valid_oidc_return_target`. -/
def isValidOidcReturnTarget (target : Str) : Bool :=
  (Str.stripPrefix "/api/oidc/authorize?".toList target).isSome &&
    (Str.stripPrefix "//".toList target).isNone

/-- `OidcReturnClaims`. -/
structure OidcReturnClaims where
  target : Str
  exp : Timestamp
  iat : Timestamp
  deriving DecidableEq, Repr

/-- `OidcReturnClaims`. -/
def OidcReturnClaims.format : ClaimsFormat OidcReturnClaims where
  serialize claims :=
    ⟨[("target", .string claims.target), ("exp", .int claims.exp), ("iat", .int claims.iat)]⟩
  deserialize token := do
    let target ← token.stringField "target"
    let exp ← token.intField "exp"
    let iat ← token.intField "iat"
    return ⟨target, exp, iat⟩
  deserialize_serialize claims := by
    rw [SignedToken.stringField_of_member (s := claims.target) rfl,
      SignedToken.intField_of_member (n := claims.exp) rfl,
      SignedToken.intField_of_member (n := claims.iat) rfl]
    rfl

/-- `OAUTH_STATE_TTL_SECONDS`. -/
def oauthStateTtlSeconds : Int := 600

/-- `create_oidc_return_token`. -/
def createOidcReturnToken (target : Str) (now : Timestamp) : Except AuthError SignedToken := do
  if isValidOidcReturnTarget target = false then
    throw (.badRequest "Invalid OIDC return target")
  return OidcReturnClaims.format.serialize ⟨target, now + oauthStateTtlSeconds, now⟩

/-- `decode_oidc_return_token`. -/
def decodeOidcReturnToken (now : Timestamp) (token : SignedToken) : Except AuthError Str := do
  let claims ← OidcReturnClaims.format.decode 0 now token
  if isValidOidcReturnTarget claims.target = false then throw .invalidToken
  return claims.target

/-! ## The state of an external login -/

/-- `OAuthStateClaims`. -/
structure OAuthStateClaims where
  nonce : Str
  returnTarget : Option Str
  exp : Timestamp
  iat : Timestamp
  deriving DecidableEq, Repr

/-- `OAuthStateClaims`. -/
def OAuthStateClaims.format : ClaimsFormat OAuthStateClaims where
  serialize claims :=
    ⟨[("nonce", .string claims.nonce), ("return_target", .ofOption claims.returnTarget),
      ("exp", .int claims.exp), ("iat", .int claims.iat)]⟩
  deserialize token := do
    let nonce ← token.stringField "nonce"
    let returnTarget ← token.optionalField "return_target"
    let exp ← token.intField "exp"
    let iat ← token.intField "iat"
    return ⟨nonce, returnTarget, exp, iat⟩
  deserialize_serialize claims := by
    rw [SignedToken.stringField_of_member (s := claims.nonce) rfl,
      SignedToken.optionalField_of_member (o := claims.returnTarget) rfl,
      SignedToken.intField_of_member (n := claims.exp) rfl,
      SignedToken.intField_of_member (n := claims.iat) rfl]
    rfl

/-- `create_oauth_state_token`, with the nonce that it draws. -/
def createOAuthStateToken (returnTarget : Option Str) (nonce : Str) (now : Timestamp) :
    Except AuthError SignedToken := do
  if (returnTarget.all isValidOidcReturnTarget) = false then
    throw (.badRequest "Invalid OIDC return target")
  return OAuthStateClaims.format.serialize
    ⟨nonce, returnTarget, now + oauthStateTtlSeconds, now⟩

/-- `decode_oauth_state_token`. -/
def decodeOAuthStateToken (now : Timestamp) (token : SignedToken) :
    Except AuthError OAuthStateClaims := do
  let claims ← OAuthStateClaims.format.decode 0 now token
  if (claims.returnTarget.all isValidOidcReturnTarget) = false then throw .invalidToken
  return claims

end SoulAuth
