import SoulAuth.Routes.Auth
import SoulAuth.Routes.Oidc
import SoulAuth.Routes.OidcClient
import SoulAuth.Services.AiActor

/-! # The system

The requests of accounts, clients and AI actors, each as it is served behind
its extractor, and the tasks that run in the background. Their state is the
database alone, so their runs are the runs of these programs in any
interleaving. The bootstrap, the endpoints of the roles and the extractors
with their cache are put on top of it.
-/

namespace SoulAuth

open Framework

/-- The endpoints, and the tasks that run in the background. -/
inductive Endpoint
  | register (req : CreateUserRequest) (ip : Str)
  | login (email password ip : Str)
  | mfaLoginVerify (challenge : MfaChallengeClaims) (factor : SecondFactor) (ip : Str)
  | oauthCallback (info : OAuthUserInfo) (ip : Str)
  | verifyEmail (token ip : Str)
  | resendVerification (email : Str)
  | requestPasswordReset (email : Str)
  | resetPassword (token newPassword : Str)
  | initializePassword (userId password : Str)
  | logout (token : Claims)
  | logoutAll (userId : Str)
  | mfaSetup (userId : Str)
  | mfaEnable (userId code : Str)
  | mfaDisable (userId code : Str)
  | updateAccountStatus (userId : Str) (status : AccountStatus)
  | updateMembership (userId level : Str) (expiry : Option Timestamp)
  | recordLockoutFailure (email ip : Str)
  | resetLockoutCounters (email ip : Str)
  | lockoutStatus (scope : LockoutType) (identifier : Str)
  | unlock (scope : LockoutType) (identifier : Str)
  | cleanupLockouts
  | cleanupAuthArtifacts
  | cleanupOidcArtifacts
  | authorize (request : AuthorizeRequest) (credentials : AuthorizeCredentials)
  | token (request : TokenRequest)
  | rpLogout (request : RpLogoutRequest)
  | createClient (request : CreateOidcClientRequest) (createdBy : Str)
  | updateClient (clientId : Str) (request : CreateOidcClientRequest)
  | disableClient (clientId : Str)
  | regenerateClientSecret (clientId : Str)
  | registerAiActor (publicKey label : Str)
  | addAiCredential (actorKey publicKey label : Str)
  | revokeAiCredential (actorKey credentialKey : Str)
  | setAiActorStatus (actorKey : Str) (status : ActorStatus)
  | issueChallenge (actorKey : Str)
  | authenticateAiActor (proof : AiActorProof)
  | currentUser (token : Claims)
  /-- The same, served from the cache of authenticated users. -/
  | currentUserCached (user : User)
  | introspect (token : Claims)
  | currentActor (token : Claims)
  deriving DecidableEq, Repr

/-- A request, with the configuration of the server that serves it. -/
structure Call where
  cfg : Config
  endpoint : Endpoint
  deriving DecidableEq

/-- The successful responses. -/
inductive Reply
  | ok
  | registered (user : UserResponse)
  | loggedIn (response : LoginResponse)
  | mfaRequired (challenge : MfaChallengeClaims) (method : MfaMethod)
  | session (issued : IssuedSession)
  | user (response : UserResponse)
  | mfaSecret (secret : Str) (backupCodes : List Str)
  | lockout (result : LockoutCheckResult)
  | unlocked (lifted : Bool)
  | authorized (response : AuthorizeResponse)
  | tokens (response : TokenResponse)
  | redirect (target : Str)
  | clientCreated (clientId clientSecret : Str)
  | clientUpdated (client : OidcClient)
  | clientSecret (secret : Str)
  | actorCreated (actor : ActorIdentity) (credential : AiActorCredential)
  | credentialCreated (credential : AiActorCredential)
  | challenge (nonce payload : Str)
  | aiSession (token : Claims)
  | introspected (actor : ActorIdentity) (session : Session)
  | actor (actor : ActorIdentity)
  deriving DecidableEq, Repr

/-- The errors of the two kinds of services. -/
inductive Failure
  | auth (e : AuthError)
  | oidc (e : OidcError)
  deriving DecidableEq, Repr

variable [Platform]

/-- A request served by a program of `AuthError`, with its response. -/
def respond {α : Type} (f : α → Reply) (p : Req AuthError α) : Req Failure Reply :=
  p.mapError .auth >>= fun a => .done (.ok (f a))

/-- A request served by a program of `OidcError`, with its response. -/
def respondOidc {α : Type} (f : α → Reply) (p : Req OidcError α) : Req Failure Reply :=
  p.mapError .oidc >>= fun a => .done (.ok (f a))

/-- A request that is checked first. -/
def checked (check : Except AuthError Unit) (p : Req Failure Reply) : Req Failure Reply := do
  Prog.ofExcept (check.mapError .auth)
  p

/-- The response to a completed login: the session and its cookie. -/
def respondLogin (p : Req AuthError IssuedSession) : Req Failure Reply :=
  respond .loggedIn (p >>= withCookie)

/-- The endpoint `login`. -/
def loginRoute (cfg : Config) (email password ip : Str) : Req AuthError Reply := do
  let outcome ← performLogin cfg email password ip
  match outcome with
  | .authenticated issued =>
    let response ← withCookie issued
    return .loggedIn response
  | .mfaRequired challenge method => return .mfaRequired challenge method

/-- The program that serves an endpoint. -/
def Endpoint.program (cfg : Config) : Endpoint → Req Failure Reply
  | register req ip => respond (fun r => .registered r.1) (SoulAuth.register cfg req ip)
  | login email password ip => respond id (loginRoute cfg email password ip)
  | mfaLoginVerify challenge factor ip =>
    respondLogin (SoulAuth.mfaLoginVerify cfg challenge factor ip)
  | oauthCallback info ip => respondLogin (handleOauthCallback cfg info ip)
  | verifyEmail bearer ip => respond .session (SoulAuth.verifyEmail cfg bearer ip)
  | resendVerification email =>
    respond (fun _ => .ok) (resendVerificationEmail cfg email)
  | requestPasswordReset email =>
    respond (fun _ => .ok) (SoulAuth.requestPasswordReset email)
  | resetPassword bearer newPassword =>
    respond (fun _ => .ok) (resetPasswordRoute cfg bearer newPassword)
  | initializePassword userId password =>
    respond (fun u => .user (.of u true)) (SoulAuth.initializePassword cfg userId password)
  | logout bearer => respond (fun _ => .ok) (deleteSessionByToken bearer)
  | logoutAll userId => respond (fun _ => .ok) (SoulAuth.logoutAll userId)
  | mfaSetup userId => respond (fun r => .mfaSecret r.1 r.2) (setupTotp cfg userId)
  | mfaEnable userId code => respond (fun _ => .ok) (SoulAuth.mfaEnable cfg userId code)
  | mfaDisable userId code => respond (fun _ => .ok) (SoulAuth.mfaDisable cfg userId code)
  | updateAccountStatus userId status =>
    respond (fun _ => .ok) (updateUserAccountStatus userId status)
  | updateMembership userId level expiry =>
    respond .user (SoulAuth.updateMembership userId level expiry)
  | recordLockoutFailure email ip =>
    respond (fun _ => .ok) (SoulAuth.recordLockoutFailure cfg email ip)
  | resetLockoutCounters email ip =>
    respond (fun _ => .ok) (SoulAuth.resetLockoutCounters email ip)
  | lockoutStatus scope identifier =>
    respond .lockout (getLockoutStatus cfg scope identifier)
  | unlock scope identifier => respond .unlocked (unlockRoute scope identifier)
  | cleanupLockouts => respond (fun _ => .ok) (cleanupExpiredLockouts cfg.lockout)
  | cleanupAuthArtifacts => respond (fun _ => .ok) cleanupExpiredAuthArtifacts
  | cleanupOidcArtifacts => respondOidc (fun _ => .ok) cleanupExpiredArtifacts
  | authorize request credentials =>
    respond .authorized (SoulAuth.authorize request credentials)
  | token request => respondOidc .tokens (exchangeCodeForTokens cfg request)
  | rpLogout request => respond .redirect (SoulAuth.rpLogout cfg request)
  | createClient request createdBy =>
    checked (checkClientRequest request)
      (respondOidc (fun r => .clientCreated r.1 r.2) (SoulAuth.createClient request createdBy))
  | updateClient clientId request =>
    checked (checkClientRequest request)
      (respondOidc .clientUpdated (SoulAuth.updateClient clientId request))
  | disableClient clientId =>
    respondOidc (fun _ => .ok) (SoulAuth.disableClient clientId)
  | regenerateClientSecret clientId =>
    respondOidc .clientSecret (SoulAuth.regenerateClientSecret clientId)
  | registerAiActor publicKey label =>
    respond (fun r => .actorCreated r.1 r.2) (SoulAuth.registerAiActor publicKey label)
  | addAiCredential actorKey publicKey label =>
    respond .credentialCreated (SoulAuth.addAiCredential actorKey publicKey label)
  | revokeAiCredential actorKey credentialKey =>
    respond (fun _ => .ok) (SoulAuth.revokeAiCredential actorKey credentialKey)
  | setAiActorStatus actorKey status =>
    respond (fun _ => .ok) (SoulAuth.setAiActorStatus actorKey status)
  | issueChallenge actorKey =>
    respond (fun r => .challenge r.1 r.2) (SoulAuth.issueChallenge cfg actorKey)
  | authenticateAiActor proof =>
    respond .aiSession (SoulAuth.authenticateAiActor cfg proof)
  | currentUser bearer => respond .user (authedUser bearer >>= currentUserResponse)
  | currentUserCached user => respond .user (authedUserCached user >>= currentUserResponse)
  | introspect bearer => respond (fun r => .introspected r.1 r.2) (authedSession bearer)
  | currentActor bearer => respond .actor (authedActor bearer)

/-- The program that serves a request. -/
def Call.program (c : Call) : Req Failure Reply := c.endpoint.program c.cfg

/-- The system: its machine, its requests and their programs. -/
@[reducible] def server : System where
  machine := machine
  Req := Call
  Err := Failure
  Res := Reply
  program := Call.program

/-- What the server runs in the background after a response: the failure
    of a login is recorded, and a completed login resets the counters. -/
def Call.background (c : Call) (outcome : Except Failure Reply) : List Call :=
  let after (email ip : Str) : List Call :=
    match outcome with
    | .error (.auth .invalidCredentials) => [⟨c.cfg, .recordLockoutFailure email ip⟩]
    | .ok (.loggedIn _) => [⟨c.cfg, .resetLockoutCounters email ip⟩]
    | _ => []
  match c.endpoint with
  | .login email _ ip => after email ip
  | .mfaLoginVerify challenge _ ip => after challenge.email ip
  | _ => []

end SoulAuth
