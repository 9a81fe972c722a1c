import SoulAuth.Services.Oidc

/-! # Managing OIDC clients -/

namespace SoulAuth

open Framework

variable [Platform]

/-- `MAX_ID_TOKEN_LIFETIME_SECS`. -/
def maxIdTokenLifetimeSecs : Int := 300

/-- `clamp_id_token_lifetime`. -/
def clampIdTokenLifetime (requested : Int) : Int :=
  if requested ≤ 0 then maxIdTokenLifetimeSecs else min requested maxIdTokenLifetimeSecs

/-- `resolve_require_pkce`: a public client always uses PKCE. -/
def resolveRequirePkce (clientType : ClientType) (requested : Option Bool) : Bool :=
  match clientType with
  | .publicClient => true
  | .confidentialClient => requested.getD true

/-- The row of a new client. -/
def CreateOidcClientRequest.newClient (request : CreateOidcClientRequest)
    (clientId secretHash createdBy : Str) (now : Timestamp) : OidcClient where
  clientId := clientId
  clientSecretHash := secretHash
  clientName := request.clientName
  clientType := request.clientType
  redirectUris := request.redirectUris
  postLogoutRedirectUris := request.postLogoutRedirectUris.getD []
  allowedScopes := request.allowedScopes.getD
    ["openid".toList, "profile".toList, "email".toList]
  allowedGrantTypes := request.allowedGrantTypes.getD [.authorizationCode, .refreshToken]
  allowedResponseTypes := request.allowedResponseTypes.getD [.code]
  requirePkce := resolveRequirePkce request.clientType request.requirePkce
  accessTokenLifetime := request.accessTokenLifetime.getD 3600
  refreshTokenLifetime := request.refreshTokenLifetime.getD 86400
  idTokenLifetime := clampIdTokenLifetime
    (request.idTokenLifetime.getD maxIdTokenLifetimeSecs)
  isActive := true
  createdBy := createdBy
  createdAt := now
  updatedAt := now

/-- `create_client`: the identifier and the secret of the new client. -/
def createClient (request : CreateOidcClientRequest) (createdBy : Str) :
    Req OidcError (Str × Str) := do
  let clientId ← newSecureToken
  let clientSecret ← newSecureToken
  let secretHash ← hashPassword clientSecret
  let now ← getNow
  query (.client (.create (request.newClient clientId secretHash createdBy now)))
  return (clientId, clientSecret)

/-- What `update_client` makes of the stored client. -/
def CreateOidcClientRequest.updated (request : CreateOidcClientRequest) (client : OidcClient)
    (now : Timestamp) : OidcClient :=
  { client with
    clientName := request.clientName
    clientType := request.clientType
    redirectUris := request.redirectUris
    postLogoutRedirectUris := request.postLogoutRedirectUris.getD []
    allowedScopes := request.allowedScopes.getD client.allowedScopes
    allowedGrantTypes := request.allowedGrantTypes.getD client.allowedGrantTypes
    allowedResponseTypes := request.allowedResponseTypes.getD client.allowedResponseTypes
    requirePkce := resolveRequirePkce request.clientType
      (request.requirePkce.or (some client.requirePkce))
    accessTokenLifetime := request.accessTokenLifetime.getD client.accessTokenLifetime
    refreshTokenLifetime := request.refreshTokenLifetime.getD client.refreshTokenLifetime
    idTokenLifetime := clampIdTokenLifetime
      (request.idTokenLifetime.getD client.idTokenLifetime)
    updatedAt := now }

/-- `update_client`. -/
def updateClient (clientId : Str) (request : CreateOidcClientRequest) :
    Req OidcError OidcClient := do
  let client ← getClient clientId
  let now ← getNow
  let client := request.updated client now
  query (.client (.update client))
  return client

/-- `disable_client`. -/
def disableClient (clientId : Str) : Req OidcError Unit := do
  let now ← getNow
  let updated : Bool ← query (.client (.disable clientId now))
  Prog.ensure (updated = true) (.message "Client not found")

/-- `regenerate_client_secret`. -/
def regenerateClientSecret (clientId : Str) : Req OidcError Str := do
  let clientSecret ← newSecureToken
  let secretHash ← hashPassword clientSecret
  let now ← getNow
  let updated : Bool ← query (.client (.setSecret clientId secretHash now))
  Prog.ensure (updated = true) (.message "Client not found")
  return clientSecret

end SoulAuth
