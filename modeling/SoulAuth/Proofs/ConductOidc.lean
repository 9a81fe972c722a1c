import SoulAuth.Proofs.ConductAuth

/-! # The conduct of the OIDC endpoints -/

namespace SoulAuth

open Framework

variable [Platform]

/-! ## What later statements keep -/

section

variable {h : List (Entry machine)} {request : TokenRequest} {client : OidcClient}

theorem CodeAccepted.mono {code : Str} {row : OidcAuthorizationCode}
    (ha : CodeAccepted request h code client row) (t : List (Entry machine)) :
    CodeAccepted request (h ++ t) code client row := by
  obtain ⟨hgrant, hcode, hclient, hadm, hallow, hrow, uri, now, huri, ⟨e, he, hnow⟩, hcheck⟩ := ha
  exact ⟨hgrant, hcode, hclient.mono t, hadm, hallow, hrow.mono t, uri, now, huri,
    ⟨e, List.mem_append_left t he, hnow⟩, hcheck⟩

theorem RefreshAccepted.mono {token : Str} {stored : OidcRefreshToken}
    (ha : RefreshAccepted request h token client stored) (t : List (Entry machine)) :
    RefreshAccepted request (h ++ t) token client stored := by
  obtain ⟨hgrant, htoken, hclient, hstored, hid⟩ := ha
  exact ⟨hgrant, htoken, hclient.mono t, hstored.mono t, hid⟩

theorem Redeemed.mono {clientId userId scope : Str}
    (hr : Redeemed request h clientId userId scope) (t : List (Entry machine)) :
    Redeemed request (h ++ t) clientId userId scope := by
  cases hr with
  | code code client row ha hw => exact .code code client row (ha.mono t) (hw.mono t)
  | refresh token scope client stored ha hw hscope =>
    exact .refresh token scope client stored (ha.mono t) (hw.mono t) hscope

end

/-! ## The authorization endpoint -/

section

variable {cfg : Config} {c : Call} {h : List (Entry machine)}

theorem getClient_follows {clientId : Str} :
    Follows c (Ends fun h' client => Heard h' (.client (.getActive clientId)) (some client) ∧
      Unchanged h h') h (getClient clientId) := by
  refine meets_query_bind (fun _ _ _ => trivial) (fun e row _ he => ?_) fun _ _ _ => trivial
  cases row with
  | none => trivial
  | some client =>
    refine ⟨he.heard, lastUserRead_stay (by rw [he.stmt]; rfl), effectsOf_snoc ?_⟩
    rw [he.stmt]
    rfl

/-- What a credential that resolved has established. -/
def Resolved (credentials : AuthorizeCredentials) (h : List (Entry machine))
    (r : Str × Str) : Prop :=
  ∃ u, lastUserRead h = some u ∧ u.accountStatus = .active ∧ r.1 = u.key ∧
    Vouched credentials h u r.2

theorem resolveBearer_follows {credentials : AuthorizeCredentials} {claims : Claims}
    (hpresented : credentials.bearer = some claims) :
    Follows c (Ends (Resolved credentials)) h (resolveBearer claims) := by
  unfold resolveBearer decodeAndVerifyToken
  simp only [bind_assoc]
  refine quiet_bind quiet_getNow fun t₁ decodedAt _ => ?_
  refine meets_ensure_bind (fun _ => ?_) fun _ => trivial
  refine quiet_bind quiet_getNow fun t₂ now _ => ?_
  refine meets_query_bind (fun _ _ _ => trivial) (fun e₃ active _ he₃ => ?_) fun _ _ _ => trivial
  refine meets_ensure_bind (fun hactive => ?_) fun _ => trivial
  obtain rfl : active = true := hactive
  refine authenticableActor_follows.bind ?_ fun _ _ _ => trivial
  rintro t₄ actor ⟨hpassed, -⟩
  refine Prog.meets_bind.mpr ?_
  refine meets_query_bind (fun _ _ _ => trivial) (fun e₅ found _ he₅ => ?_) fun _ _ _ => trivial
  cases found with
  | none => trivial
  | some u =>
    obtain ⟨hread, hlinked⟩ := findByActor_read (h := h ++ t₁ ++ t₂ ++ [e₃] ++ t₄) he₅ rfl
    refine meets_ofExcept_bind (fun _ husable => ?_) fun _ _ => trivial
    refine meets_orThrow_bind (fun sid hsid => ?_) fun _ => trivial
    exact ⟨u, hread, User.ensureUsable_ok.mp husable, rfl,
      .bearer claims actor.actor now hpresented hsid ((he₃.heard.mono t₄).mono [e₅])
        (hpassed.mono [e₅]) hlinked⟩

theorem resolveCookie_follows {credentials : AuthorizeCredentials} {request : AuthorizeRequest}
    {now : Timestamp} {cookie : BrowserSessionClaims}
    (hpresented : credentials.cookie = some cookie) :
    Follows c (Ends (Resolved credentials)) h (resolveCookie request now cookie) := by
  unfold resolveCookie browserSessionIsActive resolveExistingUserId
  simp only [bind_assoc]
  refine quiet_bind quiet_getNow fun t₁ decodedAt _ => ?_
  refine meets_ensure_bind (fun _ => ?_) fun _ => trivial
  refine meets_ensure_bind (fun _ => ?_) fun _ => trivial
  refine quiet_bind quiet_getNow fun t₂ checkedAt _ => ?_
  refine meets_query_bind (fun _ _ _ => trivial) (fun e₃ active _ he₃ => ?_) fun _ _ _ => trivial
  refine meets_ensure_bind (fun hactive => ?_) fun _ => trivial
  obtain rfl : active = true := hactive
  refine meets_query_bind (fun _ _ _ => trivial) (fun e₄ found _ he₄ => ?_) fun _ _ _ => trivial
  refine meets_orThrow_bind (fun u hu => ?_) fun _ => trivial
  refine meets_ofExcept_bind (fun _ husable => ?_) fun _ _ => trivial
  have hr : e₄.before.db.users.find? (fun u => u.key = normalizeUserId cookie.sub) = some u := by
    have := he₄.reply
    subst hu
    simpa [DbStmt.exec, IdentityStmt.exec, UserStmt.exec] using this
  exact ⟨u, lastUserRead_lookup he₄ hr, User.ensureUsable_ok.mp husable, rfl,
    .cookie cookie checkedAt hpresented rfl (he₃.heard.mono [e₄])
      (by simpa using List.find?_some hr)⟩

/-- Trying a credential has no effect, and one that resolves has
    established its account. -/
theorem tryCredential_follows {α : Type} {credentials : AuthorizeCredentials}
    {credential : Option α} {resolve : α → Req AuthError (Str × Str)}
    (hreads : ∀ a, Within [] (resolve a))
    (hresolve : ∀ a, credential = some a →
      Follows c (Ends (Resolved credentials)) h (resolve a)) :
    Follows c (Ends fun h' r => (∀ x ∈ effectsOf h', x ∈ effectsOf h) ∧
      ∀ x, r = some x → Resolved credentials h' x) h (tryCredential credential resolve) := by
  unfold tryCredential
  split
  · exact ⟨fun _ hx => hx, fun _ hx => by cases hx⟩
  · next a =>
    have hfree := free_follows (c := c) (h := h) (hreads a) (by simp)
    refine Prog.meets_bind.mpr (((hresolve a rfl).and hfree).attempt ?_)
    rintro t r ⟨hr, heff⟩
    refine ⟨fun x hx => (heff x hx).resolve_right (by simp), fun x hx => ?_⟩
    cases r with
    | ok y =>
      cases hx
      exact hr
    | error e => cases hx

/-- A code is created for the account that resolved, under the client that
    permits the request. -/
theorem createAuthorizationCode_follows {request : AuthorizeRequest}
    {credentials : AuthorizeCredentials} {userId sid : Str}
    (hresolved : Resolved credentials h (userId, sid)) (honce : .saveCode ∉ effectsOf h) :
    Follows ⟨cfg, .authorize request credentials⟩ (Ends fun _ _ => True) h
      (createAuthorizationCode request userId sid) := by
  refine Prog.meets_bind.mpr (Prog.Meets.mapError getClient_follows ?_ fun _ _ _ => trivial)
  rintro t₁ client ⟨hclient, hread₁, heff₁⟩
  refine meets_ofExcept_bind (fun _ hpermits => ?_) fun _ _ => trivial
  refine meets_newSecureToken_bind (fun _ _ _ => trivial) fun e₂ code _ he₂ hv₂ => ?_
  refine meets_getNow_bind (fun _ _ _ => trivial) fun e₃ now _ he₃ => ?_
  refine meets_ofExcept_bind (fun scope hscope => ?_) fun _ _ => trivial
  refine meets_getNow_bind (fun _ _ _ => trivial) fun e₄ createdAt _ he₄ => ?_
  obtain ⟨u, hread, hstatus, hkey, hvouched⟩ := hresolved
  have hq : ∀ e ∈ [e₂, e₃, e₄], e.stmt.Quiet := by
    simp [he₂, he₃.1, he₄.1, Stmt.Quiet, Stmt.effect, Stmt.readsNoUser]
  have hun := unchanged_of_quiet (h := h ++ t₁) hq
  have happ : h ++ t₁ ++ [e₂] ++ [e₃] ++ [e₄] = h ++ t₁ ++ [e₂, e₃, e₄] := by simp
  rw [happ]
  refine meets_query_bind (fun _ _ _ => ⟨request, credentials, rfl, ?_⟩)
    (fun _ _ _ _ => trivial) fun _ _ _ => trivial
  refine ⟨⟨code, ?_, rfl⟩, rfl, rfl, rfl, ⟨client, hclient.mono _, hpermits, hscope⟩, rfl,
    ⟨u, sid, ?_, hstatus, by rw [← hkey], rfl, ?_⟩, ?_⟩
  · simp [tokensOf, hv₂]
  · rw [hun.1, hread₁, hread]
  · rw [List.append_assoc]
    cases hvouched with
    | bearer claims a now hp hs hl hpass hlink =>
      exact .bearer claims a now hp hs (hl.mono _) (hpass.mono _) hlink
    | cookie claims now hp hs hl huser => exact .cookie claims now hp hs (hl.mono _) huser
  · rw [hun.2, heff₁]
    exact honce

theorem authorize_follows {request : AuthorizeRequest} {credentials : AuthorizeCredentials} :
    Follows ⟨cfg, .authorize request credentials⟩ (Ends fun _ _ => True) []
      (authorize request credentials) := by
  have hcreate : ∀ {h : List (Entry machine)} {r : Str × Str}, Resolved credentials h r →
      .saveCode ∉ effectsOf h →
      Follows ⟨cfg, .authorize request credentials⟩ (Ends fun _ _ => True) h
        (createAuthorizeResponse request r.1 r.2) := by
    intro h r hr honce
    refine Prog.meets_bind.mpr ((createAuthorizationCode_follows hr honce).attempt ?_)
    intro t r _
    cases r <;> trivial
  refine reads_bind validateAuthorizeRequest_within fun t₁ _ heff₁ => ?_
  refine quiet_bind quiet_getNow fun t₂ now hun₂ => ?_
  split
  · trivial
  · refine Prog.Meets.bind (tryCredential_follows (fun _ => resolveBearer_within)
      fun claims hclaims => resolveBearer_follows hclaims) ?_ fun _ _ _ => trivial
    rintro t₃ bearer ⟨heff₃, hbearer⟩
    have honce₃ : .saveCode ∉ effectsOf ([] ++ t₁ ++ t₂ ++ t₃) := by
      intro hx
      have := heff₃ _ hx
      rw [hun₂.2, heff₁] at this
      simp at this
    cases bearer with
    | some r => exact hcreate (hbearer r rfl) honce₃
    | none =>
      refine Prog.Meets.bind (tryCredential_follows (fun _ => resolveCookie_within)
        fun cookie hcookie => resolveCookie_follows hcookie) ?_ fun _ _ _ => trivial
      rintro t₄ cookie ⟨heff₄, hcookie⟩
      cases cookie with
      | some r => exact hcreate (hcookie r rfl) fun hx => honce₃ (heff₄ _ hx)
      | none => trivial

end

/-! ## The token endpoint -/

/-- An outcome rule that says of failures only that they are not the one
    for a token that has been used. -/
def Refuses {α : Type} (P : List (Entry machine) → α → Prop) :
    List (Entry machine) → Except OidcError α → Prop
  | h, .ok a => P h a
  | _, .error e => e ≠ refreshTokenAlreadyUsed

section

variable {cfg : Config} {request : TokenRequest} {h : List (Entry machine)}

omit [Platform] in
/-- A failure that another text precedes is not that one. -/
theorem context_ne {text : String} {e : OidcError} :
    OidcError.context text e ≠ refreshTokenAlreadyUsed := by
  simp [refreshTokenAlreadyUsed]

omit [Platform] in
theorem auth_ne {e : AuthError} : OidcError.auth e ≠ refreshTokenAlreadyUsed := by
  simp [refreshTokenAlreadyUsed]

/-- A program behind a text never fails with the text of a used token. -/
theorem withContext_refuses {c : Call} {α : Type} {P : List (Entry machine) → α → Prop}
    {text : String} {p : Req OidcError α} (hp : Follows c (Ends P) h p) :
    Follows c (Refuses P) h (withContext text p) :=
  Prog.Meets.mapError hp (fun _ _ ha => ha) fun _ _ _ => context_ne

theorem orRefuse_refuses {c : Call} {α : Type} {P : List (Entry machine) → α → Prop}
    {text : String} {p : Req AuthError α} (hp : Follows c (Ends P) h p) :
    Follows c (Refuses P) h (orRefuse text p) :=
  Prog.Meets.mapError hp (fun _ _ ha => ha) fun _ _ _ => context_ne

theorem issueIdToken_refuses {c : Call} {client : OidcClient} {user : User}
    {nonce sid : Option Str} {scope : Str} :
    Follows c (Refuses fun _ _ => True) h
      (issueIdToken cfg client user nonce sid scope) := by
  unfold issueIdToken
  split
  · refine Prog.Meets.bind (P := Refuses fun _ _ => True) ?_ (fun _ _ _ => trivial)
      fun _ _ he => he
    refine meets_orThrow_bind (fun sid _ => ?_) fun _ => by
      simp [Refuses, refreshTokenAlreadyUsed]
    refine meets_getNow_bind (fun _ _ _ => trivial) fun e₁ now _ he₁ => ?_
    refine Prog.Meets.bind (P := Refuses fun _ _ => True) ?_ (fun t subject _ => ?_)
      fun _ _ he => he
    · exact Prog.Meets.bind (orRefuse_refuses authenticableActorOfUser_follows)
        (fun _ _ _ => trivial) fun _ _ he => he
    · exact Prog.meets_bind.mpr (Prog.Meets.attempt (P := fun _ _ => True)
        (meets_query (fun _ _ _ => trivial) (fun _ _ _ _ => trivial) fun _ _ _ => trivial)
        fun _ _ _ => trivial)
  · trivial

theorem issueRefreshToken_refuses {client : OidcClient} {userId scope accessToken : Str}
    {sid : Option Str} {now : Timestamp}
    (hred : Redeemed request h client.clientId userId scope)
    (honce : .saveRefresh ∉ effectsOf h) :
    Follows ⟨cfg, .token request⟩ (Refuses fun _ _ => True) h
      (issueRefreshToken client userId scope accessToken sid now) := by
  unfold issueRefreshToken
  split
  · refine meets_newSecureToken_bind (fun _ _ _ => trivial) fun e₁ token _ he₁ hv₁ => ?_
    refine Prog.Meets.bind (withContext_refuses (P := fun _ _ => True) ?_)
      (fun _ _ _ => trivial) fun _ _ he => he
    refine meets_query (fun _ _ _ => ?_) (fun _ _ _ _ => trivial) fun _ _ _ => trivial
    refine ⟨⟨token, ?_, rfl⟩, ⟨request, userId, rfl, rfl, hred.mono [e₁]⟩, ?_⟩
    · rw [tokensOf_snoc hv₁]
      simp
    · rw [effectsOf_snoc (by rw [he₁]; rfl)]
      exact honce
  · trivial

/-- Tokens are issued for what has been redeemed. -/
theorem generateTokens_refuses {client : OidcClient} {userId scope : Str}
    {nonce sid : Option Str} (hred : Redeemed request h client.clientId userId scope)
    (honce : .saveRefresh ∉ effectsOf h) :
    Follows ⟨cfg, .token request⟩ (Refuses fun h' response =>
      (∃ t, Heard h' (.accessToken (.save t)) ()) ∧ response.scope = scope) h
      (generateTokens cfg client userId scope nonce sid) := by
  refine meets_getNow_bind (fun _ _ _ => trivial) fun e₁ now _ he₁ => ?_
  have hreads : Within [] (loadActiveUser userId) := loadActiveUser_within
  have hfree := free_follows (c := ⟨cfg, .token request⟩) (h := h ++ [e₁]) hreads (by simp)
  refine Prog.Meets.bind (withContext_refuses (P := fun h' _ =>
    ∀ x ∈ effectsOf h', x ∈ effectsOf h) ?_) (fun t₂ user heff₂ => ?_) fun _ _ he => he
  · refine hfree.weaken (fun _ hw => hw) (fun _ _ _ he => he) fun t r hr => ?_
    cases r with
    | error x => trivial
    | ok user =>
      intro x hx
      have := (hr x hx).resolve_right (by simp)
      rwa [effectsOf_snoc (by rw [he₁.1]; rfl)] at this
  · refine meets_newSecureToken_bind (fun _ _ _ => trivial) fun e₃ accessToken _ he₃ hv₃ => ?_
    have hred₃ := ((hred.mono [e₁]).mono t₂).mono [e₃]
    refine Prog.Meets.bind (withContext_refuses (P := fun h' _ =>
      (∃ t, Heard h' (.accessToken (.save t)) ()) ∧
        ∃ e₄, e₄.stmt.effect = some .saveAccess ∧ h' = h ++ [e₁] ++ t₂ ++ [e₃] ++ [e₄]) ?_) ?_
      fun _ _ he => he
    · refine meets_query (fun _ _ _ => ?_) (fun e₄ _ _ he₄ => ?_) fun _ _ _ => trivial
      · refine ⟨⟨accessToken, ?_, rfl⟩, request, userId, rfl, rfl, hred₃⟩
        rw [tokensOf_snoc hv₃]
        simp
      · exact ⟨⟨_, he₄.heard⟩, e₄, he₄.effect, rfl⟩
    · rintro t₄ _ ⟨⟨t, hsaved⟩, e₄, heff₄, happ⟩
      rw [happ] at hsaved ⊢
      refine Prog.Meets.bind (issueRefreshToken_refuses (hred₃.mono [e₄]) ?_)
        (fun t₅ refreshToken _ => ?_) fun _ _ he => he
      · intro hx
        rw [effectsOf_append, effectsOf_singleton, heff₄, effectsOf_snoc (by rw [he₃]; rfl)] at hx
        rcases List.mem_append.mp hx with hx | hx
        · exact honce (heff₂ _ hx)
        · simp at hx
      · refine Prog.Meets.bind issueIdToken_refuses (fun t₆ idToken _ => ?_) fun _ _ he => he
        exact ⟨⟨t, (hsaved.mono t₅).mono t₆⟩, rfl⟩

/-! ### The two grants -/

theorem authenticateClient_follows {c : Call} :
    Follows c (Refuses fun h' client =>
      Heard h' (.client (.getActive request.clientIdStr)) (some client) ∧
        client.admits request.clientSecret = .ok () ∧ Unchanged h h') h
      (authenticateClient request) := by
  refine Prog.Meets.bind (P := Refuses fun h' client =>
    Heard h' (.client (.getActive request.clientIdStr)) (some client) ∧ Unchanged h h') ?_ ?_
    fun _ _ he => he
  · refine meets_query_bind (fun _ _ _ => trivial) (fun e row _ he => ?_) fun _ _ _ => auth_ne
    cases row with
    | none => simp [Prog.orThrow, Refuses, refreshTokenAlreadyUsed]
    | some client =>
      refine ⟨he.heard, lastUserRead_stay (by rw [he.stmt]; rfl), effectsOf_snoc ?_⟩
      rw [he.stmt]
      rfl
  · rintro t client ⟨hclient, hun⟩
    refine meets_ofExcept_bind (fun _ hadm => ⟨hclient, hadm, hun⟩) fun x hx => ?_
    have hmsg : ∀ {r : Except OidcError Unit}, r = client.admits request.clientSecret →
        r ≠ .error refreshTokenAlreadyUsed := by
      rintro _ rfl
      unfold OidcClient.admits
      split
      · simp [refreshTokenAlreadyUsed]
      · split <;> simp [refreshTokenAlreadyUsed]
      · simp
    rintro rfl
    exact hmsg rfl hx

theorem code_check_ne {row : OidcAuthorizationCode} {client : OidcClient} {redirectUri : Str}
    {now : Timestamp} :
    row.check client request redirectUri now ≠ .error refreshTokenAlreadyUsed := by
  unfold OidcAuthorizationCode.check
  split
  · simp [refreshTokenAlreadyUsed]
  split
  · simp [refreshTokenAlreadyUsed]
  split
  · simp [refreshTokenAlreadyUsed]
  split
  · simp [refreshTokenAlreadyUsed]
  unfold OidcAuthorizationCode.checkPkce
  split
  · split <;> simp [refreshTokenAlreadyUsed]
  · split
    · simp [refreshTokenAlreadyUsed]
    · split
      · simp
      · simp [refreshTokenAlreadyUsed]
      · next e he =>
        rintro ⟨⟩
        unfold verifyPkceValue at he
        split at he
        · simp [refreshTokenAlreadyUsed] at he
        · split at he
          · split at he
            · split at he <;> simp [refreshTokenAlreadyUsed] at he
            · simp [refreshTokenAlreadyUsed] at he
          · simp [refreshTokenAlreadyUsed] at he

theorem handleAuthorizationCodeGrant_follows
    (hgrant : request.grantType = "authorization_code".toList) :
    Follows ⟨cfg, .token request⟩ (Refuses (TokensIssued request)) []
      (handleAuthorizationCodeGrant cfg request) := by
  refine meets_orThrow_bind (fun code hcode => ?_) fun _ => by
    simp [Refuses, refreshTokenAlreadyUsed]
  refine meets_orThrow_bind (fun redirectUri huri => ?_) fun _ => by
    simp [Refuses, refreshTokenAlreadyUsed]
  refine Prog.Meets.bind authenticateClient_follows ?_ fun _ _ he => he
  rintro t₁ client ⟨hclient, hadm, hread₁, heff₁⟩
  refine meets_ensure_bind (fun hallow => ?_) fun _ => by
    simp [Refuses, refreshTokenAlreadyUsed]
  refine Prog.Meets.bind (withContext_refuses (P := fun h' row =>
    ∃ e, h' = [] ++ t₁ ++ [e] ∧ Answered (.code (.get (hashBearer code))) (some row) e) ?_) ?_
    fun _ _ he => he
  · refine meets_query_bind (fun _ _ _ => trivial) (fun e row _ he => ?_) fun _ _ _ => trivial
    cases row with
    | none => trivial
    | some row => exact ⟨e, rfl, he⟩
  rintro t₂ row ⟨e₂, happ, he₂⟩
  rw [happ]
  have hhash : row.codeHash = hashBearer code := by
    have hr := he₂.reply
    simp only [DbStmt.exec, CodeStmt.exec, Except.ok.injEq, Option.map_eq_some_iff] at hr
    obtain ⟨stored, hstored, rfl⟩ := hr
    simpa using List.find?_some hstored
  refine meets_getNow_bind (fun _ _ _ => trivial) fun e₃ now _ he₃ => ?_
  refine meets_ofExcept_bind (fun _ hcheck => ?_) fun x hx => ?_
  · have haccepted : CodeAccepted request ([] ++ t₁ ++ [e₂] ++ [e₃]) code client row :=
      ⟨hgrant, hcode, (hclient.mono [e₂]).mono [e₃], hadm, hallow, he₂.heard.mono [e₃],
        redirectUri, now, huri, ⟨e₃, by simp, he₃⟩, hcheck⟩
    have heff : effectsOf ([] ++ t₁ ++ [e₂] ++ [e₃]) = [] := by
      rw [effectsOf_snoc (by rw [he₃.1]; rfl), effectsOf_snoc (by rw [he₂.stmt]; rfl), heff₁]
      rfl
    generalize [] ++ t₁ ++ [e₂] ++ [e₃] = h at haccepted heff
    refine Prog.Meets.bind (withContext_refuses (P := fun h' _ =>
      Heard h' (.code (.consume (hashBearer code))) 1 ∧ .saveRefresh ∉ effectsOf h') ?_) ?_
      fun _ _ he => he
    · rw [hhash]
      refine meets_query_bind (fun _ _ _ => trivial) (fun e₄ n _ he₄ => ?_) fun _ _ _ => trivial
      rw [← Prog.bind_pure' (Prog.ensure _ _)]
      refine meets_ensure_bind (fun hone => ?_) fun _ => trivial
      obtain rfl : n = 1 := hone
      refine ⟨he₄.heard, ?_⟩
      rw [effectsOf_append, effectsOf_singleton, he₄.effect, heff]
      simp [DbStmt.effect]
    · rintro t₄ _ ⟨hwon, honce⟩
      refine Prog.Meets.mapError (generateTokens_refuses (.code code client row
        (haccepted.mono t₄) hwon) honce) ?_ fun _ _ _ => context_ne
      rintro t₅ response ⟨hsaved, hscope⟩
      exact ⟨hsaved, fun _ => ⟨code, client, row, (haccepted.mono t₄).mono t₅, hwon.mono t₅,
        hscope⟩⟩
  · rintro rfl
    exact code_check_ne hx

/-- What holds of the outcome of a token request. -/
def TokenOutcome (request : TokenRequest) (h : List (Entry machine)) :
    Except OidcError TokenResponse → Prop
  | .ok response => TokensIssued request h response
  | .error e => e = refreshTokenAlreadyUsed → RefusedAsUsed request h

omit [Platform] in
theorem refreshedScope_ne {stored : OidcRefreshToken} {requested : Option Str} :
    refreshedScope stored requested ≠ .error refreshTokenAlreadyUsed := by
  unfold refreshedScope
  split
  · simp
  · dsimp only
    split <;> simp [refreshTokenAlreadyUsed]

theorem handleRefreshTokenGrant_follows (hgrant : request.grantType = "refresh_token".toList) :
    Follows ⟨cfg, .token request⟩ (TokenOutcome request) []
      (handleRefreshTokenGrant cfg request) := by
  have hother : request.grantType ≠ "authorization_code".toList := by
    rw [hgrant]
    decide
  refine meets_orThrow_bind (fun token htoken => ?_) fun _ he => by
    simp [refreshTokenAlreadyUsed] at he
  refine Prog.Meets.bind authenticateClient_follows ?_ fun _ _ he hx => absurd hx he
  rintro t₁ client ⟨hclient, -, hread₁, heff₁⟩
  refine meets_ensure_bind (fun hallow => ?_) fun _ he => by
    simp [refreshTokenAlreadyUsed] at he
  refine Prog.meets_bind.mpr ?_
  refine meets_query_bind (fun _ _ _ => trivial) (fun e₂ row _ he₂ => ?_)
    fun _ _ _ hx => absurd hx auth_ne
  cases row with
  | none => exact fun he => by simp [refreshTokenAlreadyUsed] at he
  | some stored =>
    have hhash : stored.tokenHash = hashBearer token := by
      have hr := he₂.reply
      simp only [DbStmt.exec, RefreshTokenStmt.exec, Except.ok.injEq,
        Option.map_eq_some_iff] at hr
      obtain ⟨row, hrow, rfl⟩ := hr
      simpa using List.find?_some hrow
    refine meets_ensure_bind (fun hid => ?_) fun _ he => by
      simp [refreshTokenAlreadyUsed] at he
    refine meets_getNow_bind (fun _ _ _ => trivial) fun e₃ now _ he₃ => ?_
    refine meets_ensure_bind (fun _ => ?_) fun _ he => by
      simp [refreshTokenAlreadyUsed] at he
    have haccepted : RefreshAccepted request ([] ++ t₁ ++ [e₂] ++ [e₃]) token client stored :=
      ⟨hgrant, htoken, (hclient.mono [e₂]).mono [e₃], he₂.heard.mono [e₃], hid⟩
    have heff : effectsOf ([] ++ t₁ ++ [e₂] ++ [e₃]) = [] := by
      rw [effectsOf_snoc (by rw [he₃.1]; rfl), effectsOf_snoc (by rw [he₂.stmt]; rfl), heff₁]
      rfl
    generalize [] ++ t₁ ++ [e₂] ++ [e₃] = h at haccepted heff
    split
    · next hused =>
      -- the token was seen as used: the pair's tokens are deleted first
      rw [revokeClientTokensForUser, bind_assoc]
      refine meets_query_bind (fun _ _ _ => trivial) (fun e₄ _ _ he₄ => ?_)
        fun _ _ _ hx => absurd hx auth_ne
      refine meets_query_bind (fun _ _ _ => trivial) (fun e₅ _ _ he₅ => ?_)
        fun _ _ _ hx => absurd hx auth_ne
      exact fun _ => .seen token client stored h e₄ e₅ haccepted hused (by simp) he₄ he₅
    · next hunused =>
      refine Prog.meets_bind.mpr ?_
      rw [hhash]
      refine meets_query_bind (fun _ _ _ => trivial) (fun e₄ n _ he₄ => ?_)
        fun _ _ _ hx => absurd hx auth_ne
      refine meets_ensure_bind (fun hone => ?_) fun hlost => ?_
      · obtain rfl : n = 1 := by simpa using hone
        refine meets_query_bind (fun _ _ _ => trivial) (fun e₅ _ _ he₅ => ?_)
          fun _ _ _ hx => absurd hx auth_ne
        have honce : .saveRefresh ∉ effectsOf (h ++ [e₄] ++ [e₅]) := by
          rw [effectsOf_append, effectsOf_append, effectsOf_singleton, effectsOf_singleton,
            he₄.effect, he₅.effect, heff]
          simp [DbStmt.effect]
        refine meets_ofExcept_bind (fun scope hscope => ?_) fun x hx he => ?_
        · refine (generateTokens_refuses (.refresh token scope client stored
            ((haccepted.mono [e₄]).mono [e₅]) (he₄.heard.mono [e₅]) hscope) honce).weaken
            (fun _ hw => hw) (fun _ _ _ he => he) ?_
          rintro t₆ (x | response) hr
          · exact fun he => absurd he hr
          · exact ⟨hr.1, fun hcode => absurd hcode hother⟩
        · subst he
          exact absurd hx refreshedScope_ne
      · exact fun _ => .lost token client stored n (haccepted.mono [e₄]) (by simpa using hunused)
          he₄.heard (by simpa using hlost)

theorem exchangeCodeForTokens_follows :
    Follows ⟨cfg, .token request⟩ (TokenOutcome request) []
      (exchangeCodeForTokens cfg request) := by
  unfold exchangeCodeForTokens
  split
  · next hgrant =>
    refine (handleAuthorizationCodeGrant_follows hgrant).weaken (fun _ hw => hw)
      (fun _ _ _ he => he) ?_
    rintro t (x | response) hr
    · exact fun he => absurd he hr
    · exact hr
  split
  · next hgrant => exact handleRefreshTokenGrant_follows hgrant
  · exact fun he => by simp [refreshTokenAlreadyUsed] at he

end

end SoulAuth
