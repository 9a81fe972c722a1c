import SoulAuth.Proofs.Redirects

/-! # The conduct of requests on OIDC clients

Which request writes which column of a client, where the secret comes from
whose hash it stores, and what a token request has checked of the client
that it serves.
-/

namespace SoulAuth

open Framework Framework.System

variable [Platform]

/-! ## The rule -/

/-- A new client, with the secret that its request drew last. -/
def StoresNewClient (c : Call) (h : List (Entry machine)) (row : OidcClient) : Prop :=
  ∃ request createdBy secret salt now, c.endpoint = .createClient request createdBy ∧
    tokensOf h = [row.clientId, secret] ∧
    row = request.newClient row.clientId (Platform.argon2Hash salt secret) createdBy now

/-- A change of a client: of a row that the request has read. -/
def StoresUpdate (c : Call) (row : OidcClient) : Prop :=
  ∃ request client now, c.endpoint = .updateClient client.clientId request ∧
    row = request.updated client now

/-- A new secret: the one that the request drew. -/
def StoresNewSecret (c : Call) (h : List (Entry machine)) (clientId secretHash : Str) : Prop :=
  ∃ secret salt, c.endpoint = .regenerateClientSecret clientId ∧ tokensOf h = [secret] ∧
    secretHash = Platform.argon2Hash salt secret

/-- What holds of a statement on clients. -/
def ClientConducted (c : Call) (h : List (Entry machine)) (e : Entry machine) : Prop :=
  match e.stmt with
  | .db (.client (.create row)) => StoresNewClient c h row
  | .db (.client (.update row)) => StoresUpdate c row
  | .db (.client (.setSecret clientId secretHash _)) => StoresNewSecret c h clientId secretHash
  | .db (.client (.disable clientId _)) => c.endpoint = .disableClient clientId
  | _ => True

/-- The client that a token request has authenticated; what it issues has the
    lifetimes of that client. -/
structure Authenticated (request : TokenRequest) (h : List (Entry machine)) (client : OidcClient)
    (response : TokenResponse) : Prop where
  found : Heard h (.client (.getActive request.clientIdStr)) (some client)
  admitted : client.admits request.clientSecret = .ok ()
  expiresIn : response.expiresIn = client.accessTokenLifetime
  idToken : ∀ hint, response.idToken = some hint →
    hint.aud = client.clientId ∧ hint.exp = hint.iat + client.idTokenLifetime

/-- What holds of the outcome of a request on clients. -/
structure ClientConcluded (c : Call) (h : List (Entry machine)) (r : Except Failure Reply) :
    Prop where
  created : ∀ request createdBy reply, c.endpoint = .createClient request createdBy →
    r = .ok reply → ∃ clientId secret, reply = .clientCreated clientId secret ∧
      tokensOf h = [clientId, secret]
  rotated : ∀ clientId reply, c.endpoint = .regenerateClientSecret clientId → r = .ok reply →
    ∃ secret, reply = .clientSecret secret ∧ tokensOf h = [secret]
  disabled : ∀ clientId reply, c.endpoint = .disableClient clientId → r = .ok reply →
    ∃ t, Heard h (.client (.disable clientId t)) true
  authenticated : ∀ request response, c.endpoint = .token request → r = .ok (.tokens response) →
    ∃ client, Authenticated request h client response

/-- The rule of the requests on clients. -/
def clientRule : System.Rule server where
  assumes := fun _ => True
  entry := ClientConducted
  outcome := ClientConcluded

/-! ## Following the programs -/

section

variable {c : Call} {h t : List (Entry machine)} {ε α β : Type} {e : Entry machine}

/-- A statement that writes no client. -/
theorem clientConducted_of_within {L : List Effect} (he : e.stmt.Within L)
    (hL : .writeClient ∉ L) : ClientConducted c h e := by
  obtain ⟨ctx, s, w⟩ := e
  unfold ClientConducted
  split
  all_goals first
    | trivial
    | (next hs => cases hs; exact absurd (he _ rfl) hL)

/-- A program under the rule of one request. -/
abbrev ClientFollows {ε α : Type} (c : Call) (Q : List (Entry machine) → Except ε α → Prop)
    (h : List (Entry machine)) (p : Req ε α) : Prop :=
  p.Meets (fun _ => True) (ClientConducted c) Q h

/-- Drawing a token is one entry with that token. -/
theorem newSecureToken_draws {f : Str → Req ε β} {Q : List (Entry machine) → Except ε β → Prop}
    (hf : ∀ h' secret, tokensOf h' = tokensOf h ++ [secret] → ClientFollows c Q h' (f secret)) :
    ClientFollows c Q h (newSecureToken >>= f) := by
  apply meets_newSecureToken_bind (fun _ _ _ => trivial)
  intro e secret _ _ hdrawn
  exact hf _ secret (tokensOf_snoc hdrawn)

/-- Hashing a secret draws no token. -/
theorem hashPassword_salts {secret : Str} {f : Str → Req ε β}
    {Q : List (Entry machine) → Except ε β → Prop}
    (hf : ∀ h' salt, tokensOf h' = tokensOf h →
      ClientFollows c Q h' (f (Platform.argon2Hash salt secret))) :
    ClientFollows c Q h (hashPassword secret >>= f) := by
  intro ctx w _
  refine ⟨trivial, hf _ w.drawn ?_⟩
  simp [tokensOf, tokenOf]

/-- Neither does reading the clock. -/
theorem getNow_keeps {f : Timestamp → Req ε β} {Q : List (Entry machine) → Except ε β → Prop}
    (hf : ∀ h' now, tokensOf h' = tokensOf h → ClientFollows c Q h' (f now)) :
    ClientFollows c Q h (getNow >>= f) := by
  intro ctx w _
  refine ⟨trivial, hf _ _ ?_⟩
  simp [tokensOf, tokenOf]

/-- Nor a statement on the database. -/
theorem tokensOf_snoc_db {s : DbStmt} (he : e.stmt = .db s) :
    tokensOf (h ++ [e]) = tokensOf h := by
  simp [tokensOf, tokenOf, he]

theorem createClient_client {cfg : Config} {request : CreateOidcClientRequest} {createdBy : Str} :
    ClientFollows ⟨cfg, .createClient request createdBy⟩
      (Ends fun h r => tokensOf h = [r.1, r.2]) [] (createClient request createdBy) := by
  apply newSecureToken_draws
  intro h₁ clientId hid
  apply newSecureToken_draws
  intro h₂ secret hsecret
  apply hashPassword_salts
  intro h₃ salt hsalt
  apply getNow_keeps
  intro h₄ now hnow
  have htokens : tokensOf h₄ = [clientId, secret] := by
    rw [hnow, hsalt, hsecret, hid]
    rfl
  apply meets_query_bind
  · intro ctx w _
    exact ⟨request, createdBy, secret, salt, now, rfl, htokens, rfl⟩
  · intro e _ _ he
    exact (tokensOf_snoc_db he.stmt).trans htokens
  · intro e x _
    trivial

theorem updateClient_client {cfg : Config} {clientId : Str} {request : CreateOidcClientRequest} :
    ClientFollows ⟨cfg, .updateClient clientId request⟩ (fun _ _ => True) []
      (updateClient clientId request) := by
  refine Prog.Meets.bind (P := fun _ r => ∀ client, r = .ok client → client.clientId = clientId)
    ?_ ?_ fun _ _ _ => trivial
  · apply meets_query_bind (fun _ _ _ => trivial)
    · intro e found _ he
      apply Prog.meets_orThrow.mpr
      constructor
      · intro client hfound a ha
        cases ha
        subst hfound
        have hreply := he.reply
        simp only [DbStmt.exec, ClientStmt.exec, Except.ok.injEq] at hreply
        have hmatches := List.find?_some hreply
        simp only [Bool.and_eq_true, decide_eq_true_eq] at hmatches
        exact hmatches.1
      · intro _ a ha
        cases ha
    · intro e x _ a ha
      cases ha
  · intro t client hclient
    apply getNow_keeps
    intro h now _
    apply meets_query_bind
    · intro ctx w _
      exact ⟨request, client, now, by rw [hclient client rfl], rfl⟩
    · intro e _ _ _
      trivial
    · intro e x _
      trivial

theorem disableClient_client {cfg : Config} {clientId : Str} :
    ClientFollows ⟨cfg, .disableClient clientId⟩
      (Ends fun h _ => ∃ t, Heard h (.client (.disable clientId t)) true) []
      (disableClient clientId) := by
  apply getNow_keeps
  intro h now _
  apply meets_query_bind
  · intro ctx w _
    rfl
  · intro e updated _ he
    apply Prog.meets_ensure.mpr
    constructor
    · intro hupdated
      subst hupdated
      exact ⟨now, he.heard⟩
    · intro _
      trivial
  · intro e x _
    trivial

theorem regenerateClientSecret_client {cfg : Config} {clientId : Str} :
    ClientFollows ⟨cfg, .regenerateClientSecret clientId⟩
      (Ends fun h secret => tokensOf h = [secret]) [] (regenerateClientSecret clientId) := by
  apply newSecureToken_draws
  intro h₁ secret hsecret
  apply hashPassword_salts
  intro h₂ salt hsalt
  apply getNow_keeps
  intro h₃ now hnow
  have htokens : tokensOf h₃ = [secret] := by
    rw [hnow, hsalt, hsecret]
    rfl
  apply meets_query_bind
  · intro ctx w _
    exact ⟨secret, salt, rfl, htokens, rfl⟩
  · intro e updated _ he
    apply meets_ensure_bind
    · intro _
      exact (tokensOf_snoc_db he.stmt).trans htokens
    · intro _
      trivial
  · intro e x _
    trivial

/-! ## The token endpoint -/

variable {cfg : Config} {request : TokenRequest} {client : OidcClient} {userId scope : Str}
  {nonce ref : Option Str}

/-- The tokens of a client have its lifetimes. -/
def HasLifetimes (client : OidcClient) (response : TokenResponse) : Prop :=
  response.expiresIn = client.accessTokenLifetime ∧
    ∀ hint, response.idToken = some hint →
      hint.aud = client.clientId ∧ hint.exp = hint.iat + client.idTokenLifetime

theorem issueIdToken_lifetime {user : User} :
    Ending (fun _ token => ∀ hint, token = some hint →
        hint.aud = client.clientId ∧ hint.exp = hint.iat + client.idTokenLifetime) h
      (issueIdToken cfg client user nonce ref scope) := by
  unfold issueIdToken
  split
  · apply Prog.Meets.bind
      (P := Ends fun _ hint => hint.aud = client.clientId ∧
        hint.exp = hint.iat + client.idTokenLifetime)
    · apply ending_bind
      intro h₁ sid
      apply ending_bind
      intro h₂ now
      apply ending_bind
      intro h₃ subject
      apply ending_bind
      intro h₄ found
      exact ⟨rfl, rfl⟩
    · intro t hint hlifetime hint' heq
      cases heq
      exact hlifetime
    · intro t x _
      trivial
  · intro hint heq
    cases heq

theorem generateTokens_lifetimes :
    Ending (fun _ response => HasLifetimes client response) h
      (generateTokens cfg client userId scope nonce ref) := by
  apply ending_bind
  intro h₁ now
  apply ending_bind
  intro h₂ user
  apply ending_bind
  intro h₃ accessToken
  apply ending_bind
  intro h₄ _
  apply ending_bind
  intro h₅ refreshToken
  apply Prog.Meets.bind issueIdToken_lifetime
  · intro t idToken hid
    exact ⟨rfl, hid⟩
  · intro t x _
    trivial

/-- A grant begins with the authentication of the client; what it does then
    with the client is up to it. -/
theorem authenticateClient_then {f : OidcClient → Req OidcError TokenResponse}
    (hf : ∀ h client, Ending (fun _ response => HasLifetimes client response) h (f client)) :
    Ending (fun h response => ∃ client, Authenticated request h client response) h
      (authenticateClient request >>= f) := by
  apply Prog.Meets.bind
    (P := Ends fun h client => Heard h (.client (.getActive request.clientIdStr)) (some client) ∧
      client.admits request.clientSecret = .ok ())
  · unfold authenticateClient
    apply Prog.Meets.bind
      (P := Ends fun h client => Heard h (.client (.getActive request.clientIdStr)) (some client))
    · apply meets_query_bind (fun _ _ _ => trivial)
      · intro e found _ he
        apply Prog.meets_orThrow.mpr
        constructor
        · intro client hfound
          subst hfound
          exact he.heard
        · intro _
          trivial
      · intro e x _
        trivial
    · intro t client hfound
      apply meets_ofExcept_bind
      · intro _ hadmits
        exact ⟨hfound, hadmits⟩
      · intro x _
        trivial
    · intro t x _
      trivial
  · intro t client hclient
    obtain ⟨hfound, hadmits⟩ := hclient
    apply (hf _ client).weaken (fun _ hw => hw) (fun _ _ _ _ => trivial)
    intro t' r hr
    cases r with
    | ok response => exact ⟨client, hfound.mono t', hadmits, hr.1, hr.2⟩
    | error x => trivial
  · intro t x _
    trivial

theorem exchangeCodeForTokens_authenticated :
    Ending (fun h response => ∃ client, Authenticated request h client response) h
      (exchangeCodeForTokens cfg request) := by
  unfold exchangeCodeForTokens
  split
  · apply ending_bind
    intro h₁ code
    apply ending_bind
    intro h₂ redirectUri
    apply authenticateClient_then
    intro h₃ client
    apply ending_bind
    intro h₄ _
    apply ending_bind
    intro h₅ authCode
    apply ending_bind
    intro h₆ now
    apply ending_bind
    intro h₇ _
    apply ending_bind
    intro h₈ _
    exact ending_mapError generateTokens_lifetimes
  split
  · apply ending_bind
    intro h₁ refreshToken
    apply authenticateClient_then
    intro h₂ client
    apply ending_bind
    intro h₃ _
    apply ending_bind
    intro h₄ stored
    apply ending_bind
    intro h₅ _
    apply ending_bind
    intro h₆ now
    apply ending_bind
    intro h₇ _
    split
    · apply ending_bind
      intro h₈ _
      trivial
    · apply ending_bind
      intro h₈ consumed
      apply ending_bind
      intro h₉ _
      apply ending_bind
      intro h₁₀ _
      apply ending_bind
      intro h₁₁ scope
      exact generateTokens_lifetimes
  · trivial

end

/-! ## Every request -/

section

variable {c : Call} {h : List (Entry machine)} {α : Type}

/-- A request of another kind concludes nothing about clients. -/
theorem clientConcluded_of_other {r : Except Failure Reply}
    (hcreate : ∀ request createdBy, c.endpoint ≠ .createClient request createdBy)
    (hrotate : ∀ clientId, c.endpoint ≠ .regenerateClientSecret clientId)
    (hdisable : ∀ clientId, c.endpoint ≠ .disableClient clientId)
    (htoken : ∀ request, c.endpoint ≠ .token request) : ClientConcluded c h r where
  created request createdBy _ hep := absurd hep (hcreate request createdBy)
  rotated clientId _ hep := absurd hep (hrotate clientId)
  disabled clientId _ hep := absurd hep (hdisable clientId)
  authenticated request _ hep := absurd hep (htoken request)

/-- An endpoint of the OIDC services under the rule of its service. -/
theorem respondOidc_client {f : α → Reply} {p : Req OidcError α}
    {P : List (Entry machine) → α → Prop} (hp : ClientFollows c (Ends P) [] p)
    (hok : ∀ h a, P h a → ClientConcluded c h (.ok (f a)))
    (herr : ∀ h x, ClientConcluded c h (.error x)) :
    ClientFollows c (ClientConcluded c) [] (respondOidc f p) := by
  apply Prog.meets_bind.mpr
  apply Prog.Meets.mapError hp
  · intro t a ha
    exact hok _ a ha
  · intro t x _
    exact herr _ _

theorem checked_client {check : Except AuthError Unit} {p : Req Failure Reply}
    (herr : ∀ h x, ClientConcluded c h (.error x))
    (hp : ClientFollows c (ClientConcluded c) [] p) :
    ClientFollows c (ClientConcluded c) [] (checked check p) := by
  unfold checked
  cases check with
  | ok u => exact hp
  | error x => exact herr [] _

/-- A request that fails concludes nothing about clients. -/
theorem clientConcluded_error {x : Failure} : ClientConcluded c h (.error x) := by
  constructor <;> (intros; simp_all)

end

/-- **Every request keeps to the rule of clients.** -/
theorem clientRule_met : clientRule.Met := by
  intro c
  obtain ⟨cfg, endpoint⟩ := c
  show ClientFollows ⟨cfg, endpoint⟩ (ClientConcluded ⟨cfg, endpoint⟩) [] (endpoint.program cfg)
  have hquiet : .writeClient ∉ endpoint.effects →
      (∀ request, endpoint ≠ .token request) →
      ClientFollows ⟨cfg, endpoint⟩ (ClientConcluded ⟨cfg, endpoint⟩) []
        (endpoint.program cfg) := by
    intro heffects htoken
    apply (Call.within ⟨cfg, endpoint⟩).meets
    · intro t e _ he
      exact clientConducted_of_within he heffects
    · intro t r _
      apply clientConcluded_of_other
      · intro request createdBy hep
        cases hep
        exact heffects (by simp [Endpoint.effects])
      · intro clientId hep
        cases hep
        exact heffects (by simp [Endpoint.effects])
      · intro clientId hep
        cases hep
        exact heffects (by simp [Endpoint.effects])
      · exact htoken
  cases endpoint with
  | createClient request createdBy =>
    apply checked_client (fun _ _ => clientConcluded_error)
    apply respondOidc_client createClient_client _ fun _ _ => clientConcluded_error
    intro h a ha
    constructor
    · intro _ _ reply _ hreply
      cases hreply
      exact ⟨_, _, rfl, ha⟩
    all_goals (intros; contradiction)
  | updateClient clientId request =>
    apply checked_client (fun _ _ => clientConcluded_error)
    apply respondOidc_client (P := fun _ _ => True) _ _ fun _ _ => clientConcluded_error
    · apply updateClient_client.weaken (fun _ hw => hw) (fun _ _ _ he => he)
      intro t r _
      exact ends_of_forall fun _ => trivial
    · intro h a _
      exact clientConcluded_of_other (by simp) (by simp) (by simp) (by simp)
  | disableClient clientId =>
    apply respondOidc_client disableClient_client _ fun _ _ => clientConcluded_error
    intro h a ha
    constructor
    case disabled =>
      intro _ reply hep _
      cases hep
      exact ha
    all_goals (intros; contradiction)
  | regenerateClientSecret clientId =>
    apply respondOidc_client regenerateClientSecret_client _ fun _ _ => clientConcluded_error
    intro h a ha
    constructor
    case rotated =>
      intro _ reply _ hreply
      cases hreply
      exact ⟨_, rfl, ha⟩
    all_goals (intros; contradiction)
  | token request =>
    have hout : ClientFollows ⟨cfg, .token request⟩ (fun h r => ∀ response,
        r = .ok (.tokens response) → ∃ client, Authenticated request h client response) []
        (Endpoint.program cfg (.token request)) := by
      have hending : (Endpoint.program cfg (.token request)).Meets (fun _ => True)
          (fun _ _ => True) (fun h r => ∀ response, r = .ok (.tokens response) →
            ∃ client, Authenticated request h client response) [] := by
        apply Prog.meets_bind.mpr
        apply Prog.Meets.mapError exchangeCodeForTokens_authenticated
        · intro t response hclient response' heq
          cases heq
          exact hclient
        · intro t x _ response heq
          cases heq
      apply (hending.only (Call.within ⟨cfg, .token request⟩)).weaken (fun _ hw => hw)
      · intro t e _ he
        exact clientConducted_of_within he.2 (by simp [Endpoint.effects])
      · intro t r hr
        exact hr
    apply hout.weaken (fun _ hw => hw) (fun _ _ _ he => he)
    intro t r hr
    constructor
    case authenticated =>
      intro _ response hep hreply
      cases hep
      exact hr response hreply
    all_goals (intros; contradiction)
  | _ => exact hquiet (by simp [Endpoint.effects]) (by simp)

theorem clientRule_holds {w : World} {conf : (server).Conf} (hc : Reachable w conf) :
    clientRule.Inv conf :=
  hc.rule clientRule_met fun _ => trivial

end SoulAuth
