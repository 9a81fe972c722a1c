import SoulAuth.Framework.TwoRuns
import SoulAuth.Proofs.ConductSystem
import SoulAuth.Proofs.Tables
import SoulAuth.Routes.OidcClient
import SoulAuth.Routes.Redirects

/-! # Where the browser is sent

`authorize` and the RP-initiated logout send a browser to the pages of this
server or to a URI that the client registered, with the parameters they mean
to add and no others.
-/

namespace SoulAuth

open Framework Framework.Prog Framework.System

/-! ## The redirects as they are put together -/

/-- The parameter for the state of a request. -/
def stateParam : Option Str → List (Str × Str)
  | none => []
  | some state => [("state".toList, state)]

theorem isName_of_all {name : Str} (h : name.all QueryString.isUnreserved = true) :
    QueryString.IsName name :=
  List.all_eq_true.mp h

theorem isName_stateParam {state : Option Str} : ∀ p ∈ stateParam state, QueryString.IsName p.1 := by
  intro p hp
  cases state with
  | none => exact absurd hp List.not_mem_nil
  | some state =>
    have hname : ("state".toList).all QueryString.isUnreserved = true := by decide
    cases List.mem_singleton.mp hp
    exact isName_of_all hname

/-- A URL with the state behind what it has, as it is written and as it is
    meant. -/
theorem extend_stateParam {uri url : Str} {ps : List (Str × Str)} (hps : ps ≠ [])
    (hurl : url = QueryString.extend uri ps) (state : Option Str) :
    (match state with
      | some value => url ++ "&state=".toList ++ QueryString.encode value
      | none => url) = QueryString.extend uri (ps ++ stateParam state) := by
  rw [hurl]
  cases state with
  | none =>
    rw [stateParam, List.append_nil]
  | some value =>
    have htext : "&state=".toList = '&' :: ("state".toList ++ ['=']) := by decide
    show QueryString.extend uri ps ++ "&state=".toList ++ QueryString.encode value = _
    rw [stateParam, QueryString.extend_snoc hps, QueryString.writeParam, htext]
    simp

theorem createCodeRedirect_eq (request : AuthorizeRequest) (code : Str) :
    createCodeRedirect request code =
      QueryString.extend request.redirectUri (("code".toList, code) :: stateParam request.state) := by
  have htext : "code=".toList = "code".toList ++ ['='] := by decide
  have hfirst : request.redirectUri ++ QueryString.separator request.redirectUri ::
      ("code=".toList ++ QueryString.encode code) =
      QueryString.extend request.redirectUri [("code".toList, code)] := by
    rw [QueryString.extend_singleton, QueryString.writeParam, htext]
    simp
  exact extend_stateParam (List.cons_ne_nil _ _) hfirst request.state

theorem createErrorRedirect_eq {error : Str} (herror : QueryString.IsName error)
    (uri desc : Str) (state : Option Str) :
    createErrorRedirect uri error (some desc) state =
      QueryString.extend uri
        (("error".toList, error) :: ("error_description".toList, desc) :: stateParam state) := by
  have htext : "error=".toList = "error".toList ++ ['='] := by decide
  have htext' : "&error_description=".toList = '&' :: ("error_description".toList ++ ['=']) := by
    decide
  have hfirst : uri ++ QueryString.separator uri :: ("error=".toList ++ error) ++
      "&error_description=".toList ++ QueryString.encode desc =
      QueryString.extend uri [("error".toList, error), ("error_description".toList, desc)] := by
    show _ = QueryString.extend uri ([("error".toList, error)] ++ [_])
    rw [QueryString.extend_snoc (List.cons_ne_nil _ _), QueryString.extend_singleton,
      QueryString.writeParam, QueryString.writeParam, QueryString.encode_plain herror, htext,
      htext']
    simp
  exact extend_stateParam (List.cons_ne_nil _ _) hfirst state

theorem createLoginRedirect_eq (cfg : Config) (token : Str) :
    createLoginRedirect cfg token =
      QueryString.extend cfg.loginPage [("return_to".toList, token)] := by
  have htext : "return_to=".toList = "return_to".toList ++ ['='] := by decide
  rw [createLoginRedirect, QueryString.extend_singleton, QueryString.writeParam, htext]
  simp

theorem withState_eq (uri : Str) (state : Option Str) :
    withState uri state = QueryString.extend uri (stateParam state) := by
  cases state with
  | none => rfl
  | some value =>
    have htext : "state=".toList = "state".toList ++ ['='] := by decide
    show uri ++ QueryString.separator uri :: "state=".toList ++ QueryString.encode value = _
    rw [stateParam, QueryString.extend_singleton, QueryString.writeParam, htext]
    simp

/-! ## Where they lead -/

variable [Platform]

/-- The URI is registered for the client, in a state that is found. -/
def Registered (ws : Nat → World) (uris : OidcClient → List Str) (clientId uri : Str) : Prop :=
  ∃ n, ∃ client ∈ (ws n).db.clients, client.clientId = clientId ∧ client.isActive = true ∧
    uri ∈ uris client

/-- The location is the URI with these parameters behind its own, and they
    are read back so. -/
structure Redirected (uri : Str) (ps : List (Str × Str)) (location : Str) : Prop where
  extended : location = QueryString.extend uri ps
  params : QueryString.params location =
    QueryString.params uri ++ ps.map fun p => (some p.1, some p.2)

/-- What `authorize` adds to a redirect URI. -/
inductive AuthorizeParams (describe : OidcError → Str) (ws : Nat → World)
    (request : AuthorizeRequest) : List (Str × Str) → Prop
  /-- The code that has been drawn for this request. -/
  | code (n : Nat) :
    AuthorizeParams describe ws request
      (("code".toList, Platform.secureToken (ws n).drawn) :: stateParam request.state)
  | invalidRequest (e : OidcError) :
    AuthorizeParams describe ws request
      (("error".toList, "invalid_request".toList) :: ("error_description".toList, describe e) ::
        stateParam request.state)
  | loginRequired :
    AuthorizeParams describe ws request
      (("error".toList, "login_required".toList) ::
        ("error_description".toList, "No active session for prompt=none".toList) ::
        stateParam request.state)

/-- Where `authorize` sends a browser. -/
inductive AuthorizeTarget (cfg : Config) (describe : OidcError → Str) (ws : Nat → World)
    (request : AuthorizeRequest) (location : Str) : Prop
  | loginPage (token : Str)
    (target : location = QueryString.extend cfg.loginPage [("return_to".toList, token)])
  | client (ps : List (Str × Str)) (added : AuthorizeParams describe ws request ps)
    (registered : Registered ws OidcClient.redirectUris request.clientId request.redirectUri)
    (redirected : Redirected request.redirectUri ps location)

/-- Where the RP-initiated logout sends a browser. -/
inductive LogoutTarget (cfg : Config) (ws : Nat → World) (request : RpLogoutRequest)
    (location : Str) : Prop
  | home (target : location = cfg.appUrl)
  | client (userId clientId uri : Str)
    (hint : request.idTokenHint.bind (verifyIdTokenHint cfg) = some (userId, clientId))
    (requested : request.postLogoutRedirectUri = some uri)
    (registered : Registered ws OidcClient.postLogoutRedirectUris clientId uri)
    (redirected : Redirected uri (stateParam request.state) location)

/-! ## What is read on the way -/

/-- Every client of the state is accepted. -/
def ClientsAccepted (w : World) : Prop := ∀ client ∈ w.db.clients, client.Accepted

/-- A request has found the URI among those of the client. -/
def FoundRegistered (h : List (Entry machine)) (uris : OidcClient → List Str)
    (clientId uri : Str) : Prop :=
  ∃ e ∈ h, ∃ client ∈ e.before.db.clients, client.Accepted ∧ client.clientId = clientId ∧
    client.isActive = true ∧ uri ∈ uris client

section

variable {h : List (Entry machine)} {clientId uri userId sid : Str} {request : AuthorizeRequest}
  {credentials : AuthorizeCredentials} {uris : OidcClient → List Str}

theorem FoundRegistered.mono (hf : FoundRegistered h uris clientId uri)
    (t : List (Entry machine)) : FoundRegistered (h ++ t) uris clientId uri := by
  obtain ⟨e, he, hclient⟩ := hf
  exact ⟨e, List.mem_append_left t he, hclient⟩

/-- The client that is loaded is a row of the table. -/
theorem loadClient_meets : (loadClient clientId).Meets ClientsAccepted (fun _ _ => True)
    (Ends fun h client => ∃ e ∈ h, client ∈ e.before.db.clients ∧ client.Accepted ∧
      client.clientId = clientId ∧ client.isActive = true) h := by
  apply meets_query_bind (fun _ _ _ => trivial) _ (fun _ _ _ => trivial)
  intro e row hbefore hread
  apply meets_orThrow.mpr
  refine ⟨?_, fun _ => trivial⟩
  rintro client rfl
  have hfound : (e.before.db.clients.find? fun c => c.clientId = clientId && c.isActive) =
      some client := Except.ok.inj hread.reply
  have hmem := List.mem_of_find?_eq_some hfound
  have hsome : client.clientId = clientId ∧ client.isActive = true := by
    simpa using List.find?_some hfound
  exact ⟨e, by simp, hmem, hbefore client hmem, hsome⟩

theorem validateAuthorizeRequest_meets :
    (validateAuthorizeRequest request).Meets ClientsAccepted (fun _ _ => True)
      (Ends fun h _ => FoundRegistered h OidcClient.redirectUris request.clientId
        request.redirectUri) h := by
  apply loadClient_meets.bind _ (fun _ _ _ => trivial)
  intro t client hclient
  obtain ⟨e, he, hmem, haccepted, hid, hactive⟩ := hclient
  apply meets_ensure_bind _ (fun _ => trivial)
  intro huri
  apply meets_ofExcept_bind _ (fun _ _ => trivial)
  intro types _
  apply meets_ensure_bind _ (fun _ => trivial)
  intro _
  apply meets_ensure.mpr
  constructor
  · exact fun _ => ⟨e, he, client, hmem, haccepted, hid, hactive, huri⟩
  · exact fun _ => trivial

/-- A code that is handed out has been drawn. -/
theorem createAuthorizeResponse_meets :
    (createAuthorizeResponse request userId sid).Meets ClientsAccepted (fun _ _ => True)
      (Ends fun h response => ∀ code, response = .code code → code ∈ tokensOf h) h := by
  have hcreate : (createAuthorizationCode request userId sid).Meets ClientsAccepted
      (fun _ _ => True) (Ends fun h code => code ∈ tokensOf h) h := by
    apply Meets.bind meets_trivial _ (fun _ _ _ => trivial)
    intro t₁ client _
    apply meets_ofExcept_bind _ (fun _ _ => trivial)
    intro _ _
    apply meets_newSecureToken_bind (fun _ _ _ => trivial)
    intro e code _ _ hdrawn
    apply Meets.bind meets_trivial _ (fun _ _ _ => trivial)
    intro t₂ now _
    apply meets_ofExcept_bind _ (fun _ _ => trivial)
    intro scope _
    apply Meets.bind meets_trivial _ (fun _ _ _ => trivial)
    intro t₃ createdAt _
    apply Meets.bind meets_trivial _ (fun _ _ _ => trivial)
    intro t₄ _ _
    show code ∈ tokensOf _
    simp [tokensOf, hdrawn]
  have hattempt : ((createAuthorizationCode request userId sid).attempt :
      Req AuthError (Except OidcError Str)).Meets ClientsAccepted (fun _ _ => True)
      (Ends fun h result => ∀ code, result = .ok code → code ∈ tokensOf h) h := by
    apply hcreate.attempt
    intro t r hr code hcode
    subst hcode
    exact hr
  apply hattempt.bind _ (fun _ _ _ => trivial)
  intro t result hresult
  cases result with
  | ok code =>
    intro code' heq
    cases heq
    exact hresult code rfl
  | error e =>
    intro code' heq
    cases heq

/-- What `authorize` has found when it answers. -/
theorem authorize_meets :
    (authorize request credentials).Meets ClientsAccepted (fun _ _ => True)
      (Ends fun h response =>
        FoundRegistered h OidcClient.redirectUris request.clientId request.redirectUri ∧
        ∀ code, response = .code code → code ∈ tokensOf h) h := by
  have hnone : ∀ code, notAuthenticated request ≠ .code code := by
    intro code
    unfold notAuthenticated
    split <;> exact nofun
  apply validateAuthorizeRequest_meets.bind _ (fun _ _ _ => trivial)
  intro t₁ _ hfound
  -- a response is created in one way, by whatever credential
  have hcreate : ∀ t userId sid, (createAuthorizeResponse request userId sid).Meets ClientsAccepted
      (fun _ _ => True) (Ends fun h response =>
        FoundRegistered h OidcClient.redirectUris request.clientId request.redirectUri ∧
        ∀ code, response = .code code → code ∈ tokensOf h) (h ++ t₁ ++ t) := by
    intro t userId sid
    apply createAuthorizeResponse_meets.weaken (fun _ hw => hw) (fun _ _ _ he => he)
    intro t' r hr
    cases r with
    | ok response =>
      refine ⟨?_, hr⟩
      rw [List.append_assoc]
      exact hfound.mono _
    | error x => trivial
  have hlogin : ∀ t, FoundRegistered (h ++ t₁ ++ t) OidcClient.redirectUris request.clientId
        request.redirectUri ∧
      ∀ code, notAuthenticated request = .code code → code ∈ tokensOf (h ++ t₁ ++ t) :=
    fun t => ⟨hfound.mono t, fun code heq => absurd heq (hnone code)⟩
  apply Meets.bind meets_trivial _ (fun _ _ _ => trivial)
  intro t₂ now _
  split
  · exact hlogin t₂
  · apply Meets.bind meets_trivial _ (fun _ _ _ => trivial)
    intro t₃ bearer _
    rw [List.append_assoc (h ++ t₁)]
    cases bearer with
    | some r => exact hcreate _ r.1 r.2
    | none =>
      apply Meets.bind meets_trivial _ (fun _ _ _ => trivial)
      intro t₄ cookie _
      rw [List.append_assoc (h ++ t₁)]
      cases cookie with
      | some r => exact hcreate _ r.1 r.2
      | none => exact hlogin _

/-! ## The theorem -/

theorem FoundRegistered.redirected (hf : FoundRegistered h uris clientId uri)
    (huris : ∀ client uri, uri ∈ uris client →
      uri ∈ client.redirectUris ++ client.postLogoutRedirectUris)
    {cs : Nat → Ctx} {ws : Nat → World} (hfound : FoundBy h cs ws) {ps : List (Str × Str)}
    (hps : ∀ p ∈ ps, QueryString.IsName p.1) :
    Registered ws uris clientId uri ∧ Redirected uri ps (QueryString.extend uri ps) := by
  obtain ⟨e, he, client, hmem, haccepted, hid, hactive, huri⟩ := hf
  obtain ⟨n, hn⟩ := List.getElem?_of_mem he
  obtain ⟨-, hstate⟩ := hfound n e hn
  constructor
  · refine ⟨n, client, ?_, hid, hactive, huri⟩
    rw [hstate]
    exact hmem
  · refine ⟨rfl, QueryString.params_extend ?_ hps⟩
    exact no_fragment_of_checked (haccepted uri (huris client uri huri))

theorem authorizeParams_isName {describe : OidcError → Str} {ws : Nat → World}
    {ps : List (Str × Str)} (hps : AuthorizeParams describe ws request ps) :
    ∀ p ∈ ps, QueryString.IsName p.1 := by
  have hcode : QueryString.IsName "code".toList := isName_of_all (by decide)
  have herror : QueryString.IsName "error".toList := isName_of_all (by decide)
  have hdescription : QueryString.IsName "error_description".toList := isName_of_all (by decide)
  cases hps with
  | code n => exact List.forall_mem_cons.mpr ⟨hcode, isName_stateParam⟩
  | invalidRequest e =>
    exact List.forall_mem_cons.mpr
      ⟨herror, List.forall_mem_cons.mpr ⟨hdescription, isName_stateParam⟩⟩
  | loginRequired =>
    exact List.forall_mem_cons.mpr
      ⟨herror, List.forall_mem_cons.mpr ⟨hdescription, isName_stateParam⟩⟩

/-- What `authorizeLocation` answers, by what it has found. -/
inductive Answers (cfg : Config) (describe : OidcError → Str) (request : AuthorizeRequest)
    (h : List (Entry machine)) (location : Str) : Prop
  | loginPage (token : Str) (target : location = createLoginRedirect cfg token)
  | code (code : Str) (drawn : code ∈ tokensOf h)
    (target : location = createCodeRedirect request code)
  | invalidRequest (e : OidcError)
    (target : location = createErrorRedirect request.redirectUri "invalid_request".toList
      (some (describe e)) request.state)
  | loginRequired
    (target : location = createErrorRedirect request.redirectUri "login_required".toList
      (some "No active session for prompt=none".toList) request.state)

theorem authorizeLocation_meets {cfg : Config} {query : Str → QueryParams}
    {text : SignedToken → Str} {describe : OidcError → Str} {originalUri : Str} :
    (authorizeLocation cfg query text describe originalUri credentials).Meets ClientsAccepted
      (fun _ _ => True)
      (Ends fun h location => ∃ request,
        AuthorizeRequest.ofParams (query originalUri) = .ok request ∧
        FoundRegistered h OidcClient.redirectUris request.clientId request.redirectUri ∧
        Answers cfg describe request h location) h := by
  apply meets_ofExcept_bind _ (fun _ _ => trivial)
  intro request hread
  apply authorize_meets.bind _ (fun _ _ _ => trivial)
  intro t response hresponse
  obtain ⟨hfound, hcode⟩ := hresponse
  cases response with
  | code code => exact ⟨request, hread, hfound, .code code (hcode code rfl) rfl⟩
  | invalidRequest e => exact ⟨request, hread, hfound, .invalidRequest e rfl⟩
  | loginRequired => exact ⟨request, hread, hfound, .loginRequired rfl⟩
  | loginPage =>
    apply Meets.bind meets_trivial _ (fun _ _ _ => trivial)
    intro t₂ now _
    apply meets_ofExcept_bind _ (fun _ _ => trivial)
    intro token _
    exact ⟨request, hread, hfound.mono t₂, .loginPage (text token) rfl⟩

/-- What the logout answers, by what it has found. -/
inductive LogsOut (cfg : Config) (request : RpLogoutRequest) (h : List (Entry machine))
    (location : Str) : Prop
  | home (target : location = cfg.appUrl)
  | client (userId clientId uri : Str)
    (hint : request.idTokenHint.bind (verifyIdTokenHint cfg) = some (userId, clientId))
    (requested : request.postLogoutRedirectUri = some uri)
    (found : FoundRegistered h OidcClient.postLogoutRedirectUris clientId uri)
    (target : location = withState uri request.state)

theorem rpLogout_meets {cfg : Config} {request : RpLogoutRequest} :
    (rpLogout cfg request).Meets ClientsAccepted (fun _ _ => True)
      (Ends fun h location => LogsOut cfg request h location) h := by
  unfold rpLogout
  rcases hhint : request.idTokenHint.bind (verifyIdTokenHint cfg) with _ | ⟨userId, clientId⟩
  · dsimp only
    unfold postLogoutTarget
    split
    · next heq =>
      cases heq
    · exact .home rfl
  · dsimp only
    apply Meets.bind meets_trivial _ (fun _ _ _ => trivial)
    intro t _ _
    unfold postLogoutTarget
    split
    · next uri _ clientId' hrequested heq =>
      cases heq
      have hload : ((loadClient clientId).attempt : Req AuthError _).Meets ClientsAccepted
          (fun _ _ => True) (Ends fun h found => ∀ client : OidcClient, found = .ok client →
            ∃ e ∈ h, client ∈ e.before.db.clients ∧ client.Accepted ∧
              client.clientId = clientId ∧ client.isActive = true) (h ++ t) := by
        apply loadClient_meets.attempt
        intro t₂ r hr client heq
        subst heq
        exact hr
      apply hload.bind _ (fun _ _ _ => trivial)
      intro t₂ found hfound
      show LogsOut cfg request _ _
      cases found with
      | error x => exact .home rfl
      | ok client =>
        by_cases huri : uri ∈ client.postLogoutRedirectUris
        · obtain ⟨e, he, hmem, haccepted, hid, hactive⟩ := hfound client rfl
          refine .client userId clientId uri hhint hrequested
            ⟨e, he, client, hmem, haccepted, hid, hactive, huri⟩ ?_
          simp [Except.toOption, huri]
        · refine .home ?_
          simp [Except.toOption, huri]
    · exact .home rfl

/-- **Redirects go to registered places.** Whatever states a request finds, as
    long as the URIs of their clients have been accepted: `authorize` leads to
    the login page or to a redirect URI of the client, the logout leads home
    or to a post-logout URI of the client, and what is read there behind the
    URI's own parameters is what this server has to say and the state of the
    request, each with its value. -/
theorem redirects_registered {cs : Nat → Ctx} {ws : Nat → World}
    (haccepted : ∀ n, ClientsAccepted (ws n)) (cfg : Config) :
    (∀ (query : Str → QueryParams) (text : SignedToken → Str) (describe : OidcError → Str)
      (originalUri : Str) (credentials : AuthorizeCredentials) (location : Str),
      (authorizeLocation cfg query text describe originalUri credentials).against cs ws =
        .ok location →
      ∃ request, AuthorizeRequest.ofParams (query originalUri) = .ok request ∧
        AuthorizeTarget cfg describe ws request location) ∧
    ∀ (request : RpLogoutRequest) (location : Str),
      (rpLogout cfg request).against cs ws = .ok location →
      LogoutTarget cfg ws request location := by
  constructor
  · intro query text describe originalUri credentials location hout
    obtain ⟨es, hes, hended⟩ := (authorizeLocation_meets (h := [])).against cs haccepted
    rw [hout] at hended
    obtain ⟨request, hread, hfound, hanswers⟩ := hended
    refine ⟨request, hread, ?_⟩
    have hclient : ∀ ps, AuthorizeParams describe ws request ps →
        AuthorizeTarget cfg describe ws request (QueryString.extend request.redirectUri ps) := by
      intro ps hps
      obtain ⟨hregistered, hredirected⟩ := hfound.redirected
        (fun _ _ huri => List.mem_append_left _ huri) hes (authorizeParams_isName hps)
      exact .client ps hps hregistered hredirected
    cases hanswers with
    | loginPage token target =>
      refine .loginPage token ?_
      rw [target, createLoginRedirect_eq]
    | code code drawn target =>
      obtain ⟨e, he, hdrawn⟩ := List.mem_filterMap.mp drawn
      obtain ⟨n, hn⟩ := List.getElem?_of_mem he
      have hcode : code = Platform.secureToken (ws n).drawn := by
        rw [(hes n e hn).2]
        exact isDraw_token.value e code hdrawn
      rw [target, createCodeRedirect_eq, hcode]
      exact hclient _ (.code n)
    | invalidRequest e target =>
      rw [target, createErrorRedirect_eq (isName_of_all (by decide))]
      exact hclient _ (.invalidRequest e)
    | loginRequired target =>
      rw [target, createErrorRedirect_eq (isName_of_all (by decide))]
      exact hclient _ .loginRequired
  · intro request location hout
    obtain ⟨es, hes, hended⟩ := (rpLogout_meets (h := [])).against cs haccepted
    rw [hout] at hended
    cases hended with
    | home target => exact .home target
    | client userId clientId uri hint requested found target =>
      obtain ⟨hregistered, hredirected⟩ := found.redirected
        (fun _ _ huri => List.mem_append_right _ huri) hes isName_stateParam
      rw [target, withState_eq]
      exact .client userId clientId uri hint requested hregistered hredirected

end

/-! ## Clients in a run -/

/-- The client that a statement stores. -/
def Stmt.storedClient : Stmt → Option OidcClient
  | .db (.client (.create client)) => some client
  | .db (.client (.update client)) => some client
  | _ => none

/-- A statement stores no client but accepted ones. -/
def Stmt.StoresAccepted (s : Stmt) : Prop := ∀ client, s.storedClient = some client → client.Accepted

/-- The rule of the client endpoints: what they store they have checked. -/
def storing : System.Rule server where
  assumes := fun _ => True
  entry := fun _ _ e => e.stmt.StoresAccepted
  outcome := fun _ _ _ => True

section

variable {now : Timestamp} {c : (server).Conf} {α ε : Type}

omit [Platform] in
theorem storesAccepted_of_none {s : Stmt} (h : s.storedClient = none) : s.StoresAccepted := by
  intro client hs
  rw [h] at hs
  cases hs

omit [Platform] in
theorem effect_of_storedClient {s : Stmt} {client : OidcClient} (h : s.storedClient = some client) :
    s.effect = some .writeClient := by
  unfold Stmt.storedClient at h
  split at h
  · rfl
  · rfl
  · cases h

theorem storesAccepted_query [OfDb ε] {s : DbStmt} (h : (Stmt.db s).StoresAccepted) :
    Prog.Only Stmt.StoresAccepted (query s : Req ε s.Reply) := by
  refine ⟨h, fun r => ?_⟩
  cases r <;> trivial

theorem storesAccepted_draw {s : Stmt} {f : s.Resp → Except ε α} (h : s.storedClient = none) :
    Prog.Only Stmt.StoresAccepted (.step s fun v => .done (f v) : Req ε α) :=
  ⟨storesAccepted_of_none h, fun _ => trivial⟩

theorem createClient_storesAccepted {request : CreateOidcClientRequest} {createdBy : Str}
    (h : checkClientRequest request = .ok ()) :
    Prog.Only Stmt.StoresAccepted (createClient request createdBy) := by
  apply Prog.Only.bind (storesAccepted_draw rfl)
  intro clientId
  apply Prog.Only.bind (storesAccepted_draw rfl)
  intro secret
  apply Prog.Only.bind (storesAccepted_draw rfl)
  intro secretHash
  apply Prog.Only.bind (storesAccepted_draw rfl)
  intro t
  apply Prog.Only.bind (storesAccepted_query _)
  · exact fun _ => Prog.only_done
  · intro client hs
    cases hs
    exact newClient_accepted h _ _ _ _

theorem updateClient_storesAccepted {request : CreateOidcClientRequest} {clientId : Str}
    (h : checkClientRequest request = .ok ()) :
    Prog.Only Stmt.StoresAccepted (updateClient clientId request) := by
  apply Prog.Only.bind
  · exact .bind (storesAccepted_query (storesAccepted_of_none rfl)) fun _ => Prog.only_orThrow
  intro client
  apply Prog.Only.bind (storesAccepted_draw rfl)
  intro t
  apply Prog.Only.bind (storesAccepted_query _)
  · exact fun _ => Prog.only_done
  · intro row hs
    cases hs
    exact updated_accepted h client t

theorem checked_storesAccepted {check : Except AuthError Unit} {p : Req OidcError α}
    {f : α → Reply} (hp : check = .ok () → Prog.Only Stmt.StoresAccepted p) :
    Prog.Only Stmt.StoresAccepted (checked check (respondOidc f p)) := by
  cases check with
  | error x => trivial
  | ok u =>
    show Prog.Only Stmt.StoresAccepted (respondOidc f p)
    exact Prog.Only.bind (.mapError (hp rfl)) fun _ => Prog.only_done

/-- Every request stores accepted clients only. -/
theorem storesAccepted (r : Call) : Prog.Only Stmt.StoresAccepted r.program := by
  by_cases hw : Effect.writeClient ∈ r.endpoint.effects
  · obtain ⟨cfg, endpoint⟩ := r
    cases endpoint with
    | createClient request createdBy =>
      exact checked_storesAccepted fun h => createClient_storesAccepted h
    | updateClient clientId request =>
      exact checked_storesAccepted fun h => updateClient_storesAccepted h
    | disableClient clientId =>
      apply Prog.Only.bind _ fun _ => Prog.only_done
      apply Prog.Only.mapError
      apply Prog.Only.bind (storesAccepted_draw rfl)
      intro t
      apply Prog.Only.bind (storesAccepted_query (storesAccepted_of_none rfl))
      exact fun _ => Prog.only_ensure
    | regenerateClientSecret clientId =>
      apply Prog.Only.bind _ fun _ => Prog.only_done
      apply Prog.Only.mapError
      apply Prog.Only.bind (storesAccepted_draw rfl)
      intro secret
      apply Prog.Only.bind (storesAccepted_draw rfl)
      intro secretHash
      apply Prog.Only.bind (storesAccepted_draw rfl)
      intro t
      apply Prog.Only.bind (storesAccepted_query (storesAccepted_of_none rfl))
      exact fun _ => .bind Prog.only_ensure fun _ => Prog.only_done
    | _ => exact absurd hw (by simp [Endpoint.effects])
  · apply Prog.Only.mono (Call.within r)
    intro s hs client hstored
    exact absurd (hs _ (effect_of_storedClient hstored)) hw

theorem storing_met : storing.Met :=
  fun r => (storesAccepted r).meets (fun _ _ _ he => he) fun _ _ _ => trivial

theorem clients_after (e : Entry machine) : e.after.db.clients = e.before.db.clients ∨
    ∃ s, e.stmt = .db (.client s) ∧ e.after.db.clients = (s.exec e.before.db.clients).2 := by
  rcases db_after e with h | ⟨s, hs, h⟩
  · exact .inl (by rw [h])
  · cases s with
    | client s => exact .inr ⟨s, hs, by rw [h]; rfl⟩
    | _ => exact .inl (by rw [h]; rfl)

/-- An entry that stores accepted clients only leaves accepted clients. -/
theorem clientsAccepted_after {e : Entry machine} (he : e.stmt.StoresAccepted)
    (h : ClientsAccepted e.before) : ClientsAccepted e.after := by
  intro client hmem
  rcases clients_after e with heq | ⟨s, hs, heq⟩
  · exact h client (heq ▸ hmem)
  · rw [heq] at hmem
    cases s with
    | getActive => exact h client hmem
    | create row =>
      simp only [ClientStmt.exec] at hmem
      split at hmem
      · exact h client hmem
      · rcases List.mem_append.mp hmem with hmem | hmem
        · exact h client hmem
        · cases List.mem_singleton.mp hmem
          exact he client (by rw [hs]; rfl)
    | update row =>
      obtain ⟨d, hd, rfl⟩ := List.mem_map.mp hmem
      split
      · exact he row (by rw [hs]; rfl)
      · exact h d hd
    | disable | setSecret =>
      obtain ⟨d, hd, rfl⟩ := List.mem_map.mp hmem
      have hd' := h d hd
      split <;> exact hd'

/-- **Clients are accepted.** In every run, after every step. -/
theorem clientsAccepted (hc : Reachable (World.fresh now) c) : ClientsAccepted c.state := by
  apply hc.steps.preserves
  · exact fun client hmem => absurd hmem List.not_mem_nil
  · intro i e hm h
    obtain ⟨tr₁, tr₂, htr⟩ := List.append_of_mem hm
    obtain ⟨r, -, he⟩ := (hc.rule storing_met fun _ => trivial).entries tr₁ i e tr₂ htr
    exact clientsAccepted_after he h

end

end SoulAuth

namespace SoulAuth.Sample

open Framework Framework.System

/-- The parameters of a request for a code, with a state that has a separator
    in it. -/
def redirectQuery : Str → QueryParams := fun _ name =>
  if name = "response_type" then some "code".toList
  else if name = "client_id" then some clientId
  else if name = "redirect_uri" then some "https://app.example/cb".toList
  else if name = "state" then some "a&b".toList
  else none

/-- Where Alice is sent with the code of her request, in the state that her
    registration leaves. -/
theorem redirects_registered_alice : ∃ location request,
    AuthorizeRequest.ofParams (redirectQuery []) = .ok request ∧
    AuthorizeTarget config (fun _ => []) (fun _ => (after prelude).state) request location := by
  have hout : (authorizeLocation config redirectQuery (fun _ => []) (fun _ => []) []
      ⟨some aliceBearer, none⟩).against (fun _ => Ctx.calm) (fun _ => (after prelude).state) =
      .ok ("https://app.example/cb?code=".toList ++ numbered 't' 11 ++ "&state=a%26b".toList) := by
    decide +kernel
  obtain ⟨request, hread, htarget⟩ := (redirects_registered
    (fun _ => clientsAccepted (after_reachable prelude)) config).1 _ _ _ _ _ _ hout
  exact ⟨_, request, hread, htarget⟩

end SoulAuth.Sample
