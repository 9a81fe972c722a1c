import SoulAuth.Routes.LoginPage

/-! # Where the browser is sent

The `Location` headers of `authorize`. Every one of them is put together by
hand, each with a separator of its own.
-/

namespace SoulAuth

open Framework

/-- `create_error_redirect`. -/
def createErrorRedirect (redirectUri error : Str) (description state : Option Str) : Str :=
  let url := redirectUri ++ QueryString.separator redirectUri :: ("error=".toList ++ error)
  let url :=
    match description with
    | some desc => url ++ "&error_description=".toList ++ QueryString.encode desc
    | none => url
  match state with
  | some stateValue => url ++ "&state=".toList ++ QueryString.encode stateValue
  | none => url

/-- The redirect of `create_authorize_response` with a code. -/
def createCodeRedirect (request : AuthorizeRequest) (code : Str) : Str :=
  let url := request.redirectUri ++ QueryString.separator request.redirectUri ::
    ("code=".toList ++ QueryString.encode code)
  match request.state with
  | some state => url ++ "&state=".toList ++ QueryString.encode state
  | none => url

/-- The login page, with the token that leads back. -/
def createLoginRedirect (cfg : Config) (returnToken : Str) : Str :=
  cfg.loginPage ++ QueryString.separator cfg.loginPage ::
    ("return_to=".toList ++ QueryString.encode returnToken)

variable [Platform]

/-- `authorize`, from the URI of the request to the `Location` of the
    response. `query` are the parameters that a URI has, `text` is the token
    as `jsonwebtoken` writes it, `describe` the text of an error. -/
def authorizeLocation (cfg : Config) (query : Str → QueryParams) (text : SignedToken → Str)
    (describe : OidcError → Str) (originalUri : Str) (credentials : AuthorizeCredentials) :
    Req AuthError Str := do
  let request ← Prog.ofExcept (AuthorizeRequest.ofParams (query originalUri))
  let response ← authorize request credentials
  match response with
  | .code code => return createCodeRedirect request code
  | .invalidRequest e =>
    return createErrorRedirect request.redirectUri "invalid_request".toList (some (describe e))
      request.state
  | .loginRequired =>
    return createErrorRedirect request.redirectUri "login_required".toList
      (some "No active session for prompt=none".toList) request.state
  | .loginPage => do
    let now ← getNow
    let returnToken ← Prog.ofExcept (createOidcReturnToken originalUri now)
    return createLoginRedirect cfg (text returnToken)

end SoulAuth
