import SoulAuth.Models.Identity

/-! # OIDC clients, codes and tokens -/

namespace SoulAuth

/-- `ClientType`. -/
inductive ClientType
  | publicClient
  | confidentialClient
  deriving DecidableEq, Repr

/-- `GrantType`. -/
inductive GrantType
  | authorizationCode
  | refreshToken
  | clientCredentials
  deriving DecidableEq, Repr

/-- `ResponseType`. -/
inductive ResponseType
  | code
  | idToken
  | codeIdToken
  deriving DecidableEq, Repr

/-- `OidcClient`. -/
structure OidcClient where
  clientId : Str
  clientSecretHash : Str
  clientName : Str
  clientType : ClientType
  redirectUris : List Str
  postLogoutRedirectUris : List Str
  allowedScopes : List Str
  allowedGrantTypes : List GrantType
  allowedResponseTypes : List ResponseType
  requirePkce : Bool
  accessTokenLifetime : Int
  refreshTokenLifetime : Int
  idTokenLifetime : Int
  isActive : Bool
  createdBy : Str
  createdAt : Timestamp
  updatedAt : Timestamp
  deriving DecidableEq, Repr

/-- `CreateOidcClientRequest`, which also serves updates. -/
structure CreateOidcClientRequest where
  clientName : Str
  clientType : ClientType
  redirectUris : List Str
  postLogoutRedirectUris : Option (List Str)
  allowedScopes : Option (List Str)
  allowedGrantTypes : Option (List GrantType)
  allowedResponseTypes : Option (List ResponseType)
  requirePkce : Option Bool
  accessTokenLifetime : Option Int
  refreshTokenLifetime : Option Int
  idTokenLifetime : Option Int
  deriving DecidableEq, Repr

/-- `OidcAuthorizationCode`. In the table `user_id` is the key of an actor
    identity; a read returns it as an address. -/
structure OidcAuthorizationCode where
  codeHash : Hashed Str
  clientId : Str
  userId : Str
  redirectUri : Str
  scope : Str
  state : Option Str
  nonce : Option Str
  codeChallenge : Option Str
  codeChallengeMethod : Option Str
  authSessionRef : Option Str
  used : Bool
  expiresAt : Timestamp
  createdAt : Timestamp
  deriving DecidableEq, Repr

/-- `OidcAccessToken`. -/
structure OidcAccessToken where
  tokenHash : Hashed Str
  clientId : Str
  userId : Str
  scope : Str
  expiresAt : Timestamp
  createdAt : Timestamp
  deriving DecidableEq, Repr

/-- `OidcRefreshToken`. -/
structure OidcRefreshToken where
  tokenHash : Hashed Str
  clientId : Str
  userId : Str
  accessTokenHash : Hashed Str
  scope : Str
  authSessionRef : Option Str
  used : Bool
  expiresAt : Timestamp
  createdAt : Timestamp
  deriving DecidableEq, Repr

/-- `IdTokenClaims`. As with session tokens, a signed ID token is
    represented by its claims. -/
structure IdTokenClaims where
  iss : Str
  sub : Str
  aud : Str
  exp : Timestamp
  iat : Timestamp
  authTime : Timestamp
  sid : Str
  nonce : Option Str
  email : Option Str
  emailVerified : Option Bool
  preferredUsername : Option Str
  deriving DecidableEq, Repr

/-- `UserInfoResponse`. -/
structure UserInfoResponse where
  sub : Str
  email : Option Str
  emailVerified : Option Bool
  preferredUsername : Option Str
  updatedAt : Option Timestamp
  deriving DecidableEq, Repr

/-- `TokenRequest`. -/
structure TokenRequest where
  grantType : Str
  code : Option Str
  redirectUri : Option Str
  clientId : Option Str
  clientSecret : Option Str
  codeVerifier : Option Str
  refreshToken : Option Str
  scope : Option Str
  deriving DecidableEq, Repr

/-- `TokenRequest::client_id`. -/
def TokenRequest.clientIdStr (r : TokenRequest) : Str := r.clientId.getD []

/-- `TokenResponse`. -/
structure TokenResponse where
  accessToken : Str
  expiresIn : Int
  refreshToken : Option Str
  idToken : Option IdTokenClaims
  scope : Str
  deriving DecidableEq, Repr

/-- `AuthorizeRequest`. -/
structure AuthorizeRequest where
  responseType : Str
  clientId : Str
  redirectUri : Str
  scope : Option Str
  state : Option Str
  nonce : Option Str
  codeChallenge : Option Str
  codeChallengeMethod : Option Str
  prompt : Option Str
  maxAge : Option Int
  deriving DecidableEq, Repr

/-- The claims of a browser session cookie. -/
structure BrowserSessionClaims where
  sub : Str
  sid : Str
  exp : Timestamp
  iat : Timestamp
  deriving DecidableEq, Repr

end SoulAuth
