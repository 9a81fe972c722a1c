import SoulAuth.Config
import SoulAuth.Framework.QueryString
import SoulAuth.Services.OidcClientManagement

/-! # The endpoints under `/api/oidc/clients`

What the endpoints demand of a client before it is stored.
-/

namespace SoulAuth

/-- What `validate_redirect_uris` demands of one URI. -/
def checkRedirectUri (uri : Str) : Except AuthError Unit :=
  if '#' ∈ uri then
    .error (.badRequest s!"Redirect URI must not contain a fragment: {String.ofList uri}")
  else if (Str.stripPrefix "https://".toList uri).isSome then .ok ()
  else
    match hostOf uri with
    | some host =>
      if isLoopbackHost host then .ok ()
      else
        .error (.badRequest <|
          "Redirect URI must use https (http is only allowed for loopback " ++
          s!"hosts — an exact 127.0.0.1, localhost or [::1]): {String.ofList uri}")
    | none =>
      .error (.badRequest <|
        "Redirect URI must be an absolute URL starting with https:// or http://: " ++
        String.ofList uri)

/-- The URIs of a request, in the order in which they are checked. -/
def CreateOidcClientRequest.uris (request : CreateOidcClientRequest) : List Str :=
  request.redirectUris ++ request.postLogoutRedirectUris.getD []

/-- `validate_redirect_uris`: the first URI that is refused decides. -/
def validateRedirectUris (request : CreateOidcClientRequest) : Except AuthError Unit :=
  forM request.uris checkRedirectUri

/-- `reject_unsupported_grant_types`. -/
def rejectUnsupportedGrantTypes (request : CreateOidcClientRequest) : Except AuthError Unit :=
  if request.allowedGrantTypes.any fun grants => .clientCredentials ∈ grants then
    .error (.badRequest <|
      "client_credentials is not supported by this token endpoint; " ++
      "only authorization_code and refresh_token are implemented")
  else .ok ()

/-- `reject_unsupported_response_types`. -/
def rejectUnsupportedResponseTypes (request : CreateOidcClientRequest) : Except AuthError Unit :=
  if request.allowedResponseTypes.any fun types => types.any (· ≠ .code) then
    .error (.badRequest <|
      "only response_type=code is supported by this authorization endpoint; " ++
      "implicit and hybrid flows are not implemented")
  else .ok ()

/-- `Validate::validate`: a name of at most 100 characters, and a redirect URI. -/
def CreateOidcClientRequest.validate (request : CreateOidcClientRequest) :
    Except AuthError Unit :=
  if 1 ≤ request.clientName.length ∧ request.clientName.length ≤ 100 ∧
      1 ≤ request.redirectUris.length then .ok ()
  else .error (.badRequest "Validation error")

/-- What `create_client` and `update_client` check before they go on. -/
def checkClientRequest (request : CreateOidcClientRequest) : Except AuthError Unit := do
  request.validate
  validateRedirectUris request
  rejectUnsupportedGrantTypes request
  rejectUnsupportedResponseTypes request

/-- Every URI of the client passes the check of the endpoints. -/
def OidcClient.Accepted (client : OidcClient) : Prop :=
  ∀ uri ∈ client.redirectUris ++ client.postLogoutRedirectUris, checkRedirectUri uri = .ok ()

section

variable {request : CreateOidcClientRequest} {uri : Str} {u : Unit}

/-- An accepted URI has no fragment. -/
theorem no_fragment_of_checked (h : checkRedirectUri uri = .ok u) : '#' ∉ uri := by
  intro hmem
  rw [checkRedirectUri, if_pos hmem] at h
  cases h

theorem forM_checkRedirectUri_ok {uris : List Str} (h : forM uris checkRedirectUri = .ok u) :
    ∀ uri ∈ uris, checkRedirectUri uri = .ok () := by
  induction uris with
  | nil => exact fun _ hmem => absurd hmem List.not_mem_nil
  | cons uri uris ih =>
    rw [List.forM_cons] at h
    rcases hfirst : checkRedirectUri uri with x | _
    · rw [hfirst] at h
      cases h
    · rw [hfirst] at h
      exact List.forall_mem_cons.mpr ⟨hfirst, ih h⟩

/-- A request that passes names accepted URIs only. -/
theorem uris_checked (h : checkClientRequest request = .ok u) :
    ∀ uri ∈ request.uris, checkRedirectUri uri = .ok () := by
  unfold checkClientRequest at h
  rcases hlengths : request.validate with x | _
  · rw [hlengths] at h
    cases h
  · rw [hlengths] at h
    rcases hvalid : validateRedirectUris request with x | _
    · rw [hvalid] at h
      cases h
    · exact forM_checkRedirectUri_ok hvalid

/-- The client of such a request is accepted, new or updated. -/
theorem newClient_accepted (h : checkClientRequest request = .ok u)
    (clientId secretHash createdBy : Str) (now : Timestamp) :
    (request.newClient clientId secretHash createdBy now).Accepted :=
  uris_checked h

theorem updated_accepted (h : checkClientRequest request = .ok u) (client : OidcClient)
    (now : Timestamp) : (request.updated client now).Accepted :=
  uris_checked h

end

example : checkRedirectUri "http://localhost@evil.example/cb".toList ≠ .ok () := by decide

end SoulAuth
