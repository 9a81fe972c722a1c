import SoulAuth.Proofs.LiveSids
import SoulAuth.Proofs.Scopes

/-! # The age of an authentication

A request may bound the age of the authentication that its code rests on.
`authorize` compares the bound with the time at which a cookie was set; the
session of a bearer it takes as old as it is.
-/

namespace SoulAuth

open Framework Framework.System

section

variable [Platform]

/-! ## What a code rests on -/

/-- The time at which a request is processed is the first that it reads. -/
def processedAt (h : List (Entry machine)) : Option Timestamp :=
  (h.find? fun e => e.stmt = .now).map clock

/-- The credential that led a request to the session `sid`. A cookie is one
    that is young enough. -/
inductive Backed (request : AuthorizeRequest) (credentials : AuthorizeCredentials)
    (h : List (Entry machine)) (sid : Str) : Prop
  | bearer (claims : Claims) (t : Timestamp) (presented : credentials.bearer = some claims)
      (session : claims.sessionId = some sid)
      (live : Heard h (.session (.isActive (hashBearer claims) t)) true)
  | cookie (cookie : BrowserSessionClaims) (t now : Timestamp)
      (presented : credentials.cookie = some cookie) (session : cookie.sid = sid)
      (live : Heard h (.session (.isActiveByKey sid t)) true)
      (processed : processedAt h = some now)
      (young : ∀ maxAge, request.maxAge = some maxAge → now - cookie.iat ≤ maxAge)

/-- A request that saves a code has read the clock, was not asked to have
    the user log in, and has found the session of the code. -/
structure Rests (request : AuthorizeRequest) (credentials : AuthorizeCredentials)
    (h : List (Entry machine)) (ref : Option Str) : Prop where
  unprompted : request.prompts "login" = false
  processed : ∃ now, processedAt h = some now
  backed : ∃ sid, ref = some sid ∧ Backed request credentials h sid

/-- What holds of an entry of a request for a code. -/
def CodeRests (request : AuthorizeRequest) (credentials : AuthorizeCredentials)
    (h : List (Entry machine)) (e : Entry machine) : Prop :=
  ∀ row key, e.stmt = .db (.code (.save row key)) → Rests request credentials h row.authSessionRef

section

variable {h t : List (Entry machine)} {request : AuthorizeRequest}
  {credentials : AuthorizeCredentials} {sid : Str} {now : Timestamp}

theorem processedAt_append (hh : processedAt h = some now) : processedAt (h ++ t) = some now := by
  unfold processedAt at hh ⊢
  obtain ⟨e, hfind, hclock⟩ := Option.map_eq_some_iff.mp hh
  rw [List.find?_append, hfind]
  exact congrArg some hclock

/-- The first look at the clock. -/
theorem processedAt_snoc {e : Entry machine} (hh : ∀ e ∈ h, e.stmt ≠ .now)
    (he : SawTime now e) : processedAt (h ++ [e]) = some now := by
  obtain ⟨hs, hclock⟩ := he
  unfold processedAt
  have hnone : (h.find? fun e => e.stmt = .now) = none := by
    rw [List.find?_eq_none]
    intro e' he'
    simpa using hh e' he'
  rw [List.find?_append, hnone, Option.none_or, List.find?_cons_of_pos (by simpa using hs)]
  exact congrArg some hclock

theorem Backed.mono (hb : Backed request credentials h sid) (t : List (Entry machine)) :
    Backed request credentials (h ++ t) sid := by
  cases hb with
  | bearer claims t' presented session live =>
    exact .bearer claims t' presented session (live.mono t)
  | cookie cookie t' now presented session live processed young =>
    exact .cookie cookie t' now presented session (live.mono t) (processedAt_append processed)
      young

/-! ## The rule -/

variable {ε α β : Type} {Q : List (Entry machine) → Except ε α → Prop}

/-- The program saves a code only with a session that a credential led to. -/
abbrev Supports (request : AuthorizeRequest) (credentials : AuthorizeCredentials)
    (Q : List (Entry machine) → Except ε α → Prop) (h : List (Entry machine))
    (p : Req ε α) : Prop :=
  p.Meets (fun _ => True) (CodeRests request credentials) Q h

theorem codeRests_of_read {e : Entry machine} (he : e.stmt.effect = none) :
    CodeRests request credentials h e := by
  intro row key hs
  rw [hs] at he
  cases he

/-- A part that only reads comes first. -/
theorem supports_after {P : List (Entry machine) → β → Prop} {p : Req ε α} {f : α → Req ε β}
    (hp : Within [] p) (hf : ∀ t a, Supports request credentials (Ends P) (h ++ t) (f a)) :
    Supports request credentials (Ends P) h (p >>= f) :=
  meets_skip_bind hp (fun _ _ _ he => codeRests_of_read he.reads) (fun t a _ => hf t a)
    fun _ _ _ => trivial

/-- A credential that resolves leads to its session. -/
theorem resolveBearer_supports {claims : Claims} (hpresented : credentials.bearer = some claims) :
    Supports request credentials (Ends fun h' r => Backed request credentials h' r.2) h
      (resolveBearer claims) := by
  unfold resolveBearer decodeAndVerifyToken
  simp only [bind_assoc]
  apply meets_getNow_bind fun _ _ _ => codeRests_of_read rfl
  intro e₁ decodedAt _ _
  apply meets_ensure_bind _ fun _ => trivial
  intro _
  apply meets_getNow_bind fun _ _ _ => codeRests_of_read rfl
  intro e₂ now _ _
  apply meets_query_bind (fun _ _ _ => codeRests_of_read rfl) _ fun _ _ _ => trivial
  intro e₃ active _ he₃
  apply meets_ensure_bind _ fun _ => trivial
  intro hactive
  obtain rfl : active = true := hactive
  apply supports_after authenticableActor_within
  intro t₄ actor
  apply supports_after loadUserFromActor_within
  intro t₅ user
  apply meets_ofExcept_bind _ fun _ _ => trivial
  intro _ _
  apply meets_orThrow_bind _ fun _ => trivial
  intro sid hsid
  exact .bearer claims now hpresented hsid ((he₃.heard.mono t₄).mono t₅)

theorem resolveCookie_supports {cookie : BrowserSessionClaims}
    (hpresented : credentials.cookie = some cookie) (hprocessed : processedAt h = some now) :
    Supports request credentials (Ends fun h' r => Backed request credentials h' r.2) h
      (resolveCookie request now cookie) := by
  unfold resolveCookie browserSessionIsActive
  simp only [bind_assoc]
  apply meets_getNow_bind fun _ _ _ => codeRests_of_read rfl
  intro e₁ decodedAt _ _
  apply meets_ensure_bind _ fun _ => trivial
  intro _
  apply meets_ensure_bind _ fun _ => trivial
  intro hyoung
  apply meets_getNow_bind fun _ _ _ => codeRests_of_read rfl
  intro e₂ checkedAt _ _
  apply meets_query_bind (fun _ _ _ => codeRests_of_read rfl) _ fun _ _ _ => trivial
  intro e₃ active _ he₃
  apply meets_ensure_bind _ fun _ => trivial
  intro hactive
  obtain rfl : active = true := hactive
  apply supports_after resolveExistingUserId_within
  intro t₄ userId
  apply Backed.cookie cookie checkedAt now hpresented rfl (he₃.heard.mono t₄)
  · rw [List.append_assoc, List.append_assoc, List.append_assoc]
    exact processedAt_append hprocessed
  · intro maxAge hage
    rw [hage] at hyoung
    simpa using hyoung

/-- Trying a credential leads to its session, or passes it over. -/
theorem tryCredential_supports {γ : Type} {credential : Option γ}
    {resolve : γ → Req AuthError (Str × Str)}
    (hresolve : ∀ a, credential = some a →
      Supports request credentials (Ends fun h' r => Backed request credentials h' r.2) h
        (resolve a)) :
    Supports request credentials
      (Ends fun h' found => ∀ r, found = some r → Backed request credentials h' r.2) h
      (tryCredential credential resolve) := by
  unfold tryCredential
  cases credential with
  | none =>
    intro r hr
    cases hr
  | some a =>
    apply Prog.meets_bind.mpr
    apply (hresolve a rfl).attempt
    intro t result hresult r hr
    cases result with
    | ok r' =>
      cases hr
      exact hresult
    | error x => cases hr

/-- Only codes for the session are saved. -/
def Stmt.SavesFor (sid : Str) (s : Stmt) : Prop :=
  ∀ row key, s = .db (.code (.save row key)) → row.authSessionRef = some sid

theorem savesFor_of_reads {γ : Type} {p : Req ε γ} (hp : Within [] p) :
    Prog.Only (Stmt.SavesFor sid) p := by
  apply Prog.Only.mono hp
  intro s hs row key heq
  rw [heq] at hs
  exact absurd (hs .saveCode rfl) List.not_mem_nil

/-- The session of the code is the one that was found. -/
theorem createAuthorizeResponse_savesFor {userId : Str} :
    Prog.Only (Stmt.SavesFor sid) (createAuthorizeResponse request userId sid) := by
  apply Prog.Only.bind
  · apply Prog.Only.attempt
    apply Prog.Only.bind (savesFor_of_reads (.mapError getClient_within))
    intro client
    apply Prog.Only.bind (savesFor_of_reads within_ofExcept)
    intro _
    apply Prog.Only.bind (savesFor_of_reads within_newSecureToken)
    intro code
    apply Prog.Only.bind (savesFor_of_reads within_getNow)
    intro issuedAt
    apply Prog.Only.bind (savesFor_of_reads within_ofExcept)
    intro scope
    apply Prog.Only.bind (savesFor_of_reads within_getNow)
    intro createdAt
    apply Prog.Only.bind
    · constructor
      · intro row key heq
        cases heq
        rfl
      · intro r
        cases r <;> trivial
    · intro _
      trivial
  · intro result
    cases result <;> trivial

theorem createAuthorizeResponse_supports {userId : Str}
    (hunprompted : request.prompts "login" = false) (hprocessed : processedAt h = some now)
    (hbacked : Backed request credentials h sid) :
    Supports request credentials (fun _ _ => True) h
      (createAuthorizeResponse request userId sid) := by
  apply createAuthorizeResponse_savesFor.meets
  · intro t e _ he row key hs
    constructor
    · exact hunprompted
    · exact ⟨now, processedAt_append hprocessed⟩
    · exact ⟨sid, he row key hs, hbacked.mono t⟩
  · intro t r _
    trivial

/-- A statement that reads something else than the clock. -/
def Stmt.LooksUp (s : Stmt) : Prop := s.effect = none ∧ s ≠ .now

theorem validateAuthorizeRequest_looksUp :
    Prog.Only Stmt.LooksUp (validateAuthorizeRequest request) := by
  have hload : Prog.Only Stmt.LooksUp (loadClient request.clientId) := by
    constructor
    · exact ⟨rfl, nofun⟩
    · intro r
      cases r with
      | ok row => cases row <;> trivial
      | error x => trivial
  apply Prog.Only.bind hload
  intro client
  apply Prog.Only.bind Prog.only_ensure
  intro _
  apply Prog.Only.bind (by cases parseResponseTypes request.responseType <;> trivial)
  intro types
  apply Prog.Only.bind Prog.only_ensure
  intro _
  exact Prog.only_ensure

theorem authorize_supports :
    Supports request credentials (fun _ _ => True) [] (authorize request credentials) := by
  apply meets_skip_bind validateAuthorizeRequest_looksUp
    (fun _ _ _ he => codeRests_of_read he.1) _ fun _ _ _ => trivial
  intro t₁ _ ht₁
  apply meets_getNow_bind fun _ _ _ => codeRests_of_read rfl
  intro e₂ now _ he₂
  have hprocessed : processedAt ([] ++ t₁ ++ [e₂]) = some now :=
    processedAt_snoc (fun e he => (ht₁ e (by simpa using he)).2) he₂
  split
  · trivial
  next hprompt =>
  have hunprompted : request.prompts "login" = false := by simpa using hprompt
  apply Prog.Meets.bind (tryCredential_supports fun claims hclaims =>
    resolveBearer_supports hclaims) _ fun _ _ _ => trivial
  intro t₃ bearer hbearer
  cases bearer with
  | some r =>
    exact createAuthorizeResponse_supports hunprompted (processedAt_append hprocessed)
      (hbearer r rfl)
  | none =>
    apply Prog.Meets.bind (tryCredential_supports fun cookie hcookie =>
      resolveCookie_supports hcookie (processedAt_append hprocessed)) _ fun _ _ _ => trivial
    intro t₄ cookie hcookie
    cases cookie with
    | some r =>
      exact createAuthorizeResponse_supports hunprompted
        (processedAt_append (processedAt_append hprocessed)) (hcookie r rfl)
    | none => trivial

end

/-- What holds of the entries of a request. -/
def maxAgeRule : System.Rule server where
  assumes := fun _ => True
  entry := fun c h e => ∀ cfg request credentials, c = ⟨cfg, .authorize request credentials⟩ →
    CodeRests request credentials h e
  outcome := fun _ _ _ => True

theorem maxAgeRule_met : maxAgeRule.Met := by
  intro c
  obtain ⟨cfg, endpoint⟩ := c
  show Prog.Meets (fun _ => True) _ _ [] (endpoint.program cfg)
  by_cases hauthorize : ∃ request credentials, endpoint = .authorize request credentials
  · obtain ⟨request, credentials, rfl⟩ := hauthorize
    have hmapped : Supports request credentials (fun _ _ => True) []
        ((authorize request credentials).mapError Failure.auth) :=
      authorize_supports.mapError (fun _ _ _ => trivial) fun _ _ _ => trivial
    have hserved : Supports request credentials (fun _ _ => True) []
        (Endpoint.program cfg (.authorize request credentials)) :=
      hmapped.bind (fun _ _ _ => trivial) fun _ _ _ => trivial
    apply hserved.weaken (fun _ hw => hw) _ fun _ _ _ => trivial
    intro t e _ he cfg' request' credentials' heq
    cases heq
    exact he
  · apply Prog.meets_trivial.weaken (fun _ hw => hw) _ fun _ _ _ => trivial
    intro t e _ _ cfg' request' credentials' heq
    exact absurd ⟨request', credentials', congrArg Call.endpoint heq⟩ hauthorize

/-! ## The codes of a run -/

/-- The code that request number `i` has returned is this one. -/
def IssuesCode (c : (server).Conf) (i : Nat) (row : OidcAuthorizationCode) : Prop :=
  SavesCode c i row ∧
    ∃ code, c.Returned i (.ok (.authorized (.code code))) ∧ row.codeHash = hashBearer code

/-- The code is one of a session whose authentication is at most that old
    when the request is processed. -/
def WithinAge (c : (server).Conf) (i : Nat) (row : OidcAuthorizationCode) (maxAge : Int) : Prop :=
  ∃ s t authenticatedAt, Opened c s ∧ row.authSessionRef = some s.key ∧
    processedAt (entriesOf (S := server) i c.trace) = some t ∧
    s.authenticatedAt = some authenticatedAt ∧ t - authenticatedAt ≤ maxAge

/-- Every code that a request with `max_age` is answered with is one of a
    session that is young enough. -/
def MaxAgeHonoured (c : (server).Conf) : Prop :=
  ∀ i cfg request credentials maxAge row,
    c.reqOf i = some ⟨cfg, .authorize request credentials⟩ → request.maxAge = some maxAge →
    IssuesCode c i row → WithinAge c i row maxAge

/-- The session has been authenticated too long ago for request number `i`. -/
def TooOld (c : (server).Conf) (i : Nat) (maxAge : Int) (s : Session) : Prop :=
  ∃ t authenticatedAt, processedAt (entriesOf (S := server) i c.trace) = some t ∧
    s.authenticatedAt = some authenticatedAt ∧ maxAge < t - authenticatedAt

/-- The cookie has been set too long ago for it. -/
def CookieTooOld (c : (server).Conf) (i : Nat) (maxAge : Int) (cookie : BrowserSessionClaims) :
    Prop :=
  ∃ t, processedAt (entriesOf (S := server) i c.trace) = some t ∧ maxAge < t - cookie.iat

/-- Requests with `max_age` that do not ask for a login come without the
    bearer of a session that is too old, and with its cookie only when the
    cookie is too old itself. -/
def CredentialsTimely (c : (server).Conf) : Prop :=
  ∀ i cfg request credentials maxAge s,
    c.reqOf i = some ⟨cfg, .authorize request credentials⟩ → request.maxAge = some maxAge →
    request.prompts "login" = false → Opened c s → TooOld c i maxAge s →
    (∀ claims, credentials.bearer = some claims → s.tokenHash ≠ hashBearer claims) ∧
    ∀ cookie, credentials.cookie = some cookie → cookie.sid = s.key →
      CookieTooOld c i maxAge cookie

section

variable {now : Timestamp} {c : (server).Conf} {i : Nat} {e : Entry machine}
  {request : AuthorizeRequest} {credentials : AuthorizeCredentials} {sid : Str} {s : Session}
  {tr₁ tr₂ : List (Nat × Entry machine)}

/-- The session that a credential led to, with the credential. -/
theorem Backed.opened (hc : Reachable (World.fresh now) c) (htr : c.trace = tr₁ ++ tr₂)
    (h : Backed request credentials (entriesOf (S := server) i tr₁) sid) :
    ∃ s, Opened c s ∧ s.key = sid ∧
      ((∃ claims, credentials.bearer = some claims ∧ s.tokenHash = hashBearer claims) ∨
        ∃ cookie t, credentials.cookie = some cookie ∧ cookie.sid = s.key ∧
          processedAt (entriesOf (S := server) i tr₁) = some t ∧
          ∀ maxAge, request.maxAge = some maxAge → t - cookie.iat ≤ maxAge) := by
  have hopened : ∀ {e s}, (i, e) ∈ tr₁ → s ∈ e.before.db.sessions → Opened c s :=
    fun hm hs => opened_of_mem hc (htr ▸ List.mem_append_left _ hm) hs
  cases h with
  | bearer claims t presented session live =>
    obtain ⟨e, hm, hactive⟩ := heard_mem live fun _ he => he
    obtain ⟨s, hs, htoken⟩ := live_session hactive
    have hkey := ((hopened hm hs).bearer hc htoken).2
    refine ⟨s, hopened hm hs, Option.some.inj (hkey.symm.trans session), .inl ?_⟩
    exact ⟨claims, presented, htoken⟩
  | cookie cookie t now presented session live processed young =>
    obtain ⟨e, hm, hactive⟩ := heard_mem live fun _ he => he
    have hreply := hactive.reply
    simp only [DbStmt.exec, SessionStmt.exec, Except.ok.injEq] at hreply
    obtain ⟨s, hs, hlive⟩ := List.any_eq_true.mp hreply
    have hkey : s.key = sid := by simpa using (Bool.and_eq_true_iff.mp hlive).1
    refine ⟨s, hopened hm hs, hkey, .inr ?_⟩
    exact ⟨cookie, now, presented, session.trans hkey.symm, processed, young⟩

/-- **`max_age` is honoured** in every run whose requests present credentials
    that are as old as their sessions, or whose sessions are young enough. -/
theorem max_age_honoured (hc : Reachable (World.fresh now) c) (htimely : CredentialsTimely c) :
    MaxAgeHonoured c := by
  intro i cfg request credentials maxAge row hreq hage hissues
  obtain ⟨⟨e, key, hm, hs⟩, -⟩ := hissues
  obtain ⟨tr₁, tr₂, htr⟩ := List.append_of_mem hm
  obtain ⟨r, hr, hentry⟩ := (hc.rule maxAgeRule_met fun _ => trivial).entries tr₁ i e tr₂ htr
  cases hr.symm.trans hreq
  obtain ⟨hunprompted, ⟨t, ht⟩, sid, href, hbacked⟩ := hentry cfg request credentials rfl row key hs
  obtain ⟨s, hopened, hkey, hcredential⟩ := hbacked.opened hc htr
  obtain ⟨authenticatedAt, hdated⟩ := hopened.dated hc
  have hprocessed : processedAt (entriesOf (S := server) i c.trace) = some t := by
    rw [htr, entriesOf_append]
    exact processedAt_append ht
  refine ⟨s, t, authenticatedAt, hopened, href.trans (congrArg some hkey.symm), hprocessed, hdated,
    ?_⟩
  by_contra hlong
  have hold : TooOld c i maxAge s := ⟨t, authenticatedAt, hprocessed, hdated, not_le.mp hlong⟩
  obtain ⟨hbearer, hcookie⟩ :=
    htimely i cfg request credentials maxAge s hreq hage hunprompted hopened hold
  rcases hcredential with ⟨claims, hclaims, htoken⟩ | ⟨cookie, t', hpresented, hsid, ht', hyoung⟩
  · exact hbearer claims hclaims htoken
  · obtain ⟨t'', ht'', hlate⟩ := hcookie cookie hpresented hsid
    cases hprocessed.symm.trans ht''
    cases ht.symm.trans ht'
    exact absurd (hyoung maxAge hage) (not_le.mpr hlate)

end

end

end SoulAuth

namespace SoulAuth.Sample

open Framework Framework.System

/-- Alice's request for a code, with a bound on the age of her login. -/
def boundedRequest (maxAge : Int) : AuthorizeRequest :=
  { authorizeRequest with maxAge := some maxAge }

/-- Request 2 makes it `wait` seconds after her registration. -/
def boundedAfter (wait : Nat) : List (server).Action :=
  prelude ++ start config (.authorize (boundedRequest 10) ⟨some aliceBearer, none⟩) ::
    .step 2 ⟨wait, none⟩ :: steps 2 12

/-- Whether every session of the run is dated to its start. -/
def datesSessions (c : (server).Conf) : Bool :=
  c.trace.all fun x => match x.2.stmt with
    | .db (.session (.create s)) => s.authenticatedAt = some 0
    | _ => true

/-- Whether no time passes, and no bound lies in the future. -/
def instantaneous (c : (server).Conf) : Bool :=
  (c.trace.all fun x => clock x.2 = 0) && c.threads.all fun t => match t.req.endpoint with
    | .authorize request _ => request.maxAge.all fun maxAge => 0 ≤ maxAge
    | _ => true

theorem authenticatedAt_of_dated {c : (server).Conf} (h : datesSessions c = true) {s : Session}
    (hopened : Opened c s) : s.authenticatedAt = some 0 := by
  obtain ⟨i, e, hm, hs⟩ := hopened
  have hdated := List.all_eq_true.mp h (i, e) hm
  simp only [hs] at hdated
  exact of_decide_eq_true hdated

theorem clock_of_processedAt {c : (server).Conf} {i : Nat} {t : Timestamp}
    (h : processedAt (entriesOf (S := server) i c.trace) = some t) :
    ∃ e, (i, e) ∈ c.trace ∧ clock e = t := by
  obtain ⟨e, hfind, hclock⟩ := Option.map_eq_some_iff.mp h
  exact ⟨e, mem_entriesOf.mp (List.mem_of_find?_eq_some hfind), hclock⟩

/-- Without delay no session is too old. -/
theorem credentialsTimely_of {c : (server).Conf} (hdates : datesSessions c = true)
    (hinstant : instantaneous c = true) : CredentialsTimely c := by
  obtain ⟨hclocks, hbounds⟩ := Bool.and_eq_true_iff.mp hinstant
  intro i cfg request credentials maxAge s hreq hage _ hopened hold
  obtain ⟨t, authenticatedAt, hprocessed, hdated, hlong⟩ := hold
  obtain ⟨e, hm, hclock⟩ := clock_of_processedAt hprocessed
  have hzero : clock e = 0 := of_decide_eq_true (List.all_eq_true.mp hclocks (i, e) hm)
  obtain rfl : authenticatedAt = 0 :=
    Option.some.inj (hdated.symm.trans (authenticatedAt_of_dated hdates hopened))
  obtain ⟨th, hth, htr⟩ := Option.map_eq_some_iff.mp hreq
  have hbound := List.all_eq_true.mp hbounds th (List.mem_of_getElem? hth)
  simp only [htr, hage, Option.all_some, decide_eq_true_eq] at hbound
  rw [← hclock, hzero] at hlong
  exact absurd hbound (not_le.mpr hlong)

theorem max_age_honoured_fresh : MaxAgeHonoured (after (boundedAfter 0)) :=
  max_age_honoured (after_reachable _)
    (credentialsTimely_of (by decide +kernel) (by decide +kernel))

/-- The code that a run saves. -/
def savedCode (c : (server).Conf) : Option (Nat × OidcAuthorizationCode) :=
  c.trace.findSome? fun x => match x.2.stmt with
    | .db (.code (.save row _)) => some (x.1, row)
    | _ => none

theorem savesCode_of {c : (server).Conf} {i : Nat} {row : OidcAuthorizationCode}
    (h : savedCode c = some (i, row)) : SavesCode c i row := by
  obtain ⟨⟨j, e⟩, hm, hrow⟩ := List.exists_of_findSome?_eq_some h
  dsimp only at hrow
  split at hrow
  · next row' key hs =>
    cases hrow
    exact ⟨e, key, hm, hs⟩
  · cases hrow

/-- A hundred seconds after her login, Alice's bearer passes for one of ten
    seconds. -/
theorem bounded_late :
    (after (boundedAfter 100)).outcome 2 = some (.ok (.authorized (.code code))) ∧
    (savedCode (after (boundedAfter 100))).map (fun x => (x.1, x.2.codeHash)) =
      some (2, hashBearer code) ∧
    processedAt (entriesOf (S := server) 2 (after (boundedAfter 100)).trace) = some 100 ∧
    datesSessions (after (boundedAfter 100)) = true ∧
    (after (boundedAfter 100)).reqOf 2 =
      some ⟨config, .authorize (boundedRequest 10) ⟨some aliceBearer, none⟩⟩ := by
  decide +kernel

theorem max_age_ignored : ¬ ∀ (now : Timestamp) (c : (server).Conf),
    Reachable (World.fresh now) c → MaxAgeHonoured c := by
  intro hall
  obtain ⟨hissued, hsaved, hprocessed, hdates, hreq⟩ := bounded_late
  obtain ⟨⟨i, row⟩, hsome, heq⟩ := Option.map_eq_some_iff.mp hsaved
  simp only [Prod.mk.injEq] at heq
  obtain ⟨rfl, hhash⟩ := heq
  obtain ⟨s, t, authenticatedAt, hopened, -, ht, hdated, hle⟩ :=
    hall 0 _ (after_reachable _) 2 config (boundedRequest 10) ⟨some aliceBearer, none⟩ 10 row hreq
      rfl ⟨savesCode_of hsome, code, Conf.returned_of_outcome hissued, hhash⟩
  cases hprocessed.symm.trans ht
  cases hdated.symm.trans (authenticatedAt_of_dated hdates hopened)
  exact absurd hle (by decide)

end SoulAuth.Sample
