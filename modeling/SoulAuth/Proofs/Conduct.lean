import SoulAuth.Proofs.Draws

/-! # How requests conduct themselves

For every statement that the security of the system rests on, this file
says what the request has done before it issues the statement: which rows
it has read and which conditional updates it has won. The programs are
followed once, in the files after this one; the proofs about runs only use
the rule.
-/

namespace SoulAuth

open Framework

variable [Platform]

/-- Some entry of the history answered `a` to the statement `s`. -/
def Heard (h : List (Entry machine)) (s : DbStmt) (a : s.Reply) : Prop :=
  ∃ e ∈ h, Answered s a e

/-! ## Accounts -/

/-- The fields of a `user` row that operations other than their own should
    leave alone. -/
inductive UserField
  | accountStatus
  | verified
  | verificationToken
  | membership
  deriving DecidableEq, Repr

/-- Two rows agree in a field. -/
def UserField.Same : UserField → User → User → Prop
  | accountStatus, u, v => u.accountStatus = v.accountStatus
  | verified, u, v => u.verified = v.verified
  | verificationToken, u, v =>
    u.verificationTokenHash = v.verificationTokenHash ∧
      u.verificationTokenExpiresAt = v.verificationTokenExpiresAt
  | membership, u, v =>
    u.membershipLevel = v.membershipLevel ∧ u.membershipExpiry = v.membershipExpiry

/-- The fields that an operation is there to set. -/
def Endpoint.sets : Endpoint → UserField → Bool
  | verifyEmail _ _, .verified | verifyEmail _ _, .verificationToken => true
  | resendVerification _, .verificationToken => true
  | updateMembership _ _ _, .membership => true
  | updateAccountStatus _ _, .accountStatus => true
  | _, _ => false

/-- Two rows are rows of the same account: no operation changes these. -/
structure User.SameAccount (u v : User) : Prop where
  key : u.key = v.key
  subjectId : u.subjectId = v.subjectId
  email : u.email = v.email
  username : u.username = v.username
  usernameNormalized : u.usernameNormalized = v.usernameNormalized

/-- What kind of human an endpoint creates: with a password, or with a
    binding to the external identity that was presented. -/
def HumanAggregate.MadeBy (a : HumanAggregate) : Endpoint → Prop
  | .register _ _ => a.credential.isSome = true ∧ a.binding = none
  | .oauthCallback info _ => a.credential = none ∧ ∃ b, a.binding = some b ∧
      b.provider = info.provider ∧ b.providerSubject = info.providerUserId
  | _ => False

/-- A new human: its keys are the UUIDs drawn last, and the request creates
    no other. A registration takes the email address as verified exactly
    when verification is off. -/
structure Conceives (c : Call) (h : List (Entry machine)) (a : HumanAggregate) : Prop where
  rows : ∃ (new : NewHuman) (keys : HumanKeys) (now : Timestamp) (drawn : List Str),
    a = new.aggregate keys now ∧
    uuidsOf h = drawn ++
      [keys.actor, keys.user, keys.account, keys.credential, keys.binding, keys.subject]
  unverified : ∀ req ip, c.endpoint = .register req ip →
    a.account.emailVerified = !c.cfg.emailVerificationEnabled
  made : a.MadeBy c.endpoint
  once : .createHuman ∉ effectsOf h

/-- A new AI actor, with two UUIDs of its own. -/
structure Enrols (h : List (Entry machine)) (a : ActorIdentity) : Prop where
  kind : a.actorKind = .aiActor
  keyDrawn : a.key ∈ uuidsOf h
  subjectDrawn : a.subjectKey ∈ uuidsOf h

/-- A row that is written back: it is the row that the request read last,
    but for the fields that the operation sets. -/
structure WritesBack (c : Call) (h : List (Entry machine)) (key : Str) (content : User) :
    Prop where
  from_read : ∃ u, lastUserRead h = some u ∧ key = idArgumentKey (userAddress u.key) ∧
    content.SameAccount u ∧ ∀ F, c.endpoint.sets F = false → F.Same content u

/-! ## The gate of authentication -/

/-- The identity root that `authenticable_actor` found under a key. -/
structure ActorPassed (h : List (Entry machine)) (actorKey : Str) (a : ActorIdentity) :
    Prop where
  found : Heard h (.identity (.actor (.find
    (idArgumentKey (actorAddress (normalizeActorId actorKey)))))) (some a)
  human : a.actorKind = .human
  active : a.status = .active
  account : ∃ x, Heard h (.identity (.accountOfActor a.key)) (some x)

/-- The identity root that `authenticable_actor_of_user` found. -/
def UserPassed (h : List (Entry machine)) (userId : Str) (a : ActorIdentity) : Prop :=
  ∃ k, Heard h (.identity (.user (.subjectOf (normalizeUserId userId)))) (some k) ∧
    ActorPassed h k a

/-- What a path checks of the account before it creates a session. -/
def SessionGate (h : List (Entry machine)) (u : User) : Endpoint → Prop
  | .register _ _ | .verifyEmail _ _ => True
  | .oauthCallback _ _ => ∃ a, UserPassed h u.key a
  | .login _ _ _ => u.accountStatus = .active ∧ ∃ a, UserPassed h u.key a
  | .mfaLoginVerify challenge _ _ =>
    u.accountStatus = .active ∧ u.key = idArgumentKey challenge.sub ∧
      ∃ a, UserPassed h challenge.sub a
  | _ => False

/-- A new session: of the account whose row was read last, or of the AI
    actor whose challenge the request consumed. -/
structure Opens (c : Call) (h : List (Entry machine)) (s : Session) : Prop where
  keyDrawn : s.key ∈ uuidsOf h
  bearer : ∃ claims : Claims, s.tokenHash = hashBearer claims ∧ claims.sub = s.userId ∧
    claims.sessionId = some s.key
  owner : (∃ proof, c.endpoint = .authenticateAiActor proof ∧
      ∃ now, Heard h (.ai (.consumeChallenge proof.nonce proof.actorKey now)) 1) ∨
    ∃ u, lastUserRead h = some u ∧ u.subjectId = some s.userId ∧ SessionGate h u c.endpoint
  once : .createSession ∉ effectsOf h

/-- A reset token, and a challenge: a value of the request's own. -/
structure IssuesResetToken (h : List (Entry machine)) (r : PasswordResetToken) : Prop where
  drawn : ∃ token ∈ uuidsOf h, r.tokenHash = hashBearer token
  once : .createResetToken ∉ effectsOf h

structure IssuesChallenge (h : List (Entry machine)) (c : AiActorChallenge) : Prop where
  drawn : c.nonce ∈ tokensOf h
  once : .createChallenge ∉ effectsOf h

/-- A password reset writes the credential only after it claimed the token. -/
def Entitled (c : Call) (h : List (Entry machine)) : Prop :=
  ∀ token pw, c.endpoint = .resetPassword token pw →
    Heard h (.resetToken (.claim (hashBearer token))) 1

/-! ## The authorization endpoint -/

/-- The credential that led `authorize` to the account `u` and the session
    `sid`. -/
inductive Vouched (credentials : AuthorizeCredentials) (h : List (Entry machine)) (u : User)
    (sid : Str) : Prop
  | bearer (claims : Claims) (a : ActorIdentity) (now : Timestamp)
      (presented : credentials.bearer = some claims) (session : claims.sessionId = some sid)
      (live : Heard h (.session (.isActive (hashBearer claims) now)) true)
      (passed : ActorPassed h claims.sub a) (linked : u.subjectId = some a.key)
  | cookie (claims : BrowserSessionClaims) (now : Timestamp)
      (presented : credentials.cookie = some claims) (session : claims.sid = sid)
      (live : Heard h (.session (.isActiveByKey sid now)) true)
      (user : u.key = normalizeUserId claims.sub)

/-- A new authorization code. -/
structure Grants (request : AuthorizeRequest) (credentials : AuthorizeCredentials)
    (h : List (Entry machine)) (row : OidcAuthorizationCode) (userKey : Str) : Prop where
  drawn : ∃ code ∈ tokensOf h, row.codeHash = hashBearer code
  clientId : row.clientId = request.clientId
  redirectUri : row.redirectUri = request.redirectUri
  codeChallenge : row.codeChallenge = request.codeChallenge
  client : ∃ client, Heard h (.client (.getActive request.clientId)) (some client) ∧
    client.permits request = .ok () ∧ resolveScope client request.scope = .ok row.scope
  unused : row.used = false
  owner : ∃ u sid, lastUserRead h = some u ∧ u.accountStatus = .active ∧
    userKey = normalizeUserId u.key ∧ row.authSessionRef = some sid ∧
    Vouched credentials h u sid
  once : .saveCode ∉ effectsOf h

/-! ## The token endpoint -/

/-- The checks that the code grant passed. -/
structure CodeAccepted (request : TokenRequest) (h : List (Entry machine)) (code : Str)
    (client : OidcClient) (row : OidcAuthorizationCode) : Prop where
  grant : request.grantType = "authorization_code".toList
  presented : request.code = some code
  clientRead : Heard h (.client (.getActive request.clientIdStr)) (some client)
  admitted : client.admits request.clientSecret = .ok ()
  allowed : .authorizationCode ∈ client.allowedGrantTypes
  rowRead : Heard h (.code (.get (hashBearer code))) (some row)
  checked : ∃ redirectUri now, request.redirectUri = some redirectUri ∧
    (∃ e ∈ h, SawTime now e) ∧ row.check client request redirectUri now = .ok ()

/-- The checks that the refresh grant passed. -/
structure RefreshAccepted (request : TokenRequest) (h : List (Entry machine)) (token : Str)
    (client : OidcClient) (stored : OidcRefreshToken) : Prop where
  grant : request.grantType = "refresh_token".toList
  presented : request.refreshToken = some token
  clientRead : Heard h (.client (.getActive request.clientIdStr)) (some client)
  storedRead : Heard h (.refreshToken (.get (hashBearer token))) (some stored)
  clientId : stored.clientId = request.clientIdStr

/-- What a token request redeemed: for which client, account and scope it
    may issue tokens. -/
inductive Redeemed (request : TokenRequest) (h : List (Entry machine)) :
    (clientId userId scope : Str) → Prop
  | code (code : Str) (client : OidcClient) (row : OidcAuthorizationCode)
      (accepted : CodeAccepted request h code client row)
      (won : Heard h (.code (.consume (hashBearer code))) 1) :
      Redeemed request h client.clientId row.userId row.scope
  | refresh (token scope : Str) (client : OidcClient) (stored : OidcRefreshToken)
      (accepted : RefreshAccepted request h token client stored)
      (won : Heard h (.refreshToken (.consume (hashBearer token))) 1)
      (narrowed : refreshedScope stored request.scope = .ok scope) :
      Redeemed request h client.clientId stored.userId scope

/-- A new access token. -/
structure IssuesAccess (c : Call) (h : List (Entry machine)) (t : OidcAccessToken) : Prop where
  drawn : ∃ token ∈ tokensOf h, t.tokenHash = hashBearer token
  redeemed : ∃ request userId, c.endpoint = .token request ∧
    t.userId = normalizeActorId userId ∧ Redeemed request h t.clientId userId t.scope

/-- A new refresh token. -/
structure IssuesRefresh (c : Call) (h : List (Entry machine)) (t : OidcRefreshToken) :
    Prop where
  drawn : ∃ token ∈ tokensOf h, t.tokenHash = hashBearer token
  redeemed : ∃ request userId, c.endpoint = .token request ∧
    t.userId = normalizeActorId userId ∧ Redeemed request h t.clientId userId t.scope
  once : .saveRefresh ∉ effectsOf h

/-! ## The rule of entries -/

/-- What holds of a statement that a request issues, by the statement. -/
def Conducted (c : Call) (h : List (Entry machine)) (e : Entry machine) : Prop :=
  match e.stmt with
  | .db (.identity (.createHuman a)) => Conceives c h a
  | .db (.identity (.actor (.create a))) => Enrols h a
  | .db (.identity (.user (.update key content))) => WritesBack c h key content
  | .db (.identity (.credential (.rotate _ _ _))) => Entitled c h
  | .db (.identity (.credential (.create _))) => Entitled c h
  | .db (.session (.create s)) => Opens c h s
  | .db (.resetToken (.create r)) => IssuesResetToken h r
  | .db (.ai (.createChallenge x)) => IssuesChallenge h x
  | .db (.code (.save row userKey)) =>
    ∃ request credentials, c.endpoint = .authorize request credentials ∧
      Grants request credentials h row userKey
  | .db (.accessToken (.save t)) => IssuesAccess c h t
  | .db (.refreshToken (.save t)) => IssuesRefresh c h t
  | _ => True

/-- The effects whose statements need no justification. -/
def freeEffects : List Effect :=
  [.setActorStatus, .claimVerification, .setAccountStatus, .deleteSession, .spendResetToken,
    .writeClient, .consumeCode, .deleteCode, .deleteAccess, .consumeRefresh, .deleteRefresh,
    .writeLockout, .writeMfa, .writeAiCredential, .consumeChallenge]

theorem conducted_of_free {c : Call} {h : List (Entry machine)} {e : Entry machine}
    (he : e.stmt.Within freeEffects) : Conducted c h e := by
  obtain ⟨ctx, s, w⟩ := e
  unfold Conducted
  split
  all_goals first
    | trivial
    | (next hs => exact absurd (he _ (by simp only at hs; subst hs; rfl)) (by decide))

theorem Heard.mono {h : List (Entry machine)} {s : DbStmt} {a : s.Reply} (hs : Heard h s a)
    (t : List (Entry machine)) : Heard (h ++ t) s a := by
  obtain ⟨e, he, ha⟩ := hs
  exact ⟨e, List.mem_append_left t he, ha⟩

theorem Answered.heard {h : List (Entry machine)} {s : DbStmt} {a : s.Reply}
    {e : Entry machine} (he : Answered s a e) : Heard (h ++ [e]) s a :=
  ⟨e, by simp, he⟩

/-! ## The rule of outcomes -/

/-- Everything that an account was issued has been deleted. -/
structure RevokedAll (h : List (Entry machine)) (userId : Str) : Prop where
  sessions : Heard h (.session (.deleteByUser (normalizeUserId userId))) ()
  access : Heard h (.accessToken (.revokeAll (ownerKey userId))) ()
  refresh : Heard h (.refreshToken (.revokeAll (ownerKey userId))) ()

/-- A completed login: the session of the response is the one created, and
    the cookie names it. -/
def LoggedIn (h : List (Entry machine)) (response : LoginResponse) : Prop :=
  ∃ s u, Heard h (.session (.create s)) () ∧ lastUserRead h = some u ∧
    u.subjectId = some s.userId ∧ response.cookie.sub = idArgumentKey (userAddress u.key) ∧
    response.cookie.sid = s.key

/-- A token response: what was redeemed, and that an access token has been
    saved for it. -/
structure TokensIssued (request : TokenRequest) (h : List (Entry machine))
    (response : TokenResponse) : Prop where
  saved : ∃ t, Heard h (.accessToken (.save t)) ()
  redeemed : request.grantType = "authorization_code".toList →
    ∃ code client row, CodeAccepted request h code client row ∧
      Heard h (.code (.consume (hashBearer code))) 1 ∧ response.scope = row.scope

/-- The two ways to be refused for a token that has been used: it was seen
    as used, and the last two statements deleted the tokens of the pair; or
    the conditional update was lost. -/
inductive RefusedAsUsed (request : TokenRequest) (h : List (Entry machine)) : Prop
  | seen (token : Str) (client : OidcClient) (stored : OidcRefreshToken)
      (before : List (Entry machine)) (e₁ e₂ : Entry machine)
      (accepted : RefreshAccepted request before token client stored) (used : stored.used = true)
      (history : h = before ++ [e₁, e₂])
      (access : Answered (.accessToken (.revokeForClient stored.clientId
        (ownerKey stored.userId))) () e₁)
      (refresh : Answered (.refreshToken (.revokeForClient stored.clientId
        (ownerKey stored.userId))) () e₂)
  | lost (token : Str) (client : OidcClient) (stored : OidcRefreshToken) (n : Nat)
      (accepted : RefreshAccepted request h token client stored) (used : stored.used = false)
      (lost : Heard h (.refreshToken (.consume (hashBearer token))) n) (count : n ≠ 1)

/-- What holds of the outcome of a request. -/
def Concluded (c : Call) (h : List (Entry machine)) : Except Failure Reply → Prop
  | .ok (.tokens response) =>
    ∃ request, c.endpoint = .token request ∧ TokensIssued request h response
  | .ok (.loggedIn response) => LoggedIn h response
  | .ok .ok =>
    (∀ userId, c.endpoint = .logoutAll userId → RevokedAll h userId) ∧
    ∀ token pw, c.endpoint = .resetPassword token pw →
      ∃ u, lastUserRead h = some u ∧ RevokedAll h u.key
  | .error (.oidc e) =>
    ∀ request, c.endpoint = .token request → e = refreshTokenAlreadyUsed →
      RefusedAsUsed request h
  | _ => True

/-- The rule that every request of the server meets. -/
def conduct : System.Rule server where
  assumes := fun _ => True
  entry := Conducted
  outcome := Concluded

/-- The footprints, as a rule. -/
def footprint : System.Rule server where
  assumes := fun _ => True
  entry := fun c _ e => e.stmt.Within c.endpoint.effects
  outcome := fun _ _ _ => True

theorem footprint_met : footprint.Met :=
  fun c => (Call.within c).meets (fun _ _ _ he => he) fun _ _ _ => trivial

end SoulAuth
