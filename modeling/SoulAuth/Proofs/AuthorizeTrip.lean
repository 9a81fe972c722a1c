import SoulAuth.Framework.Alone
import SoulAuth.Routes.LoginPage
import SoulAuth.Proofs.CodeExchange
import SoulAuth.Proofs.LiveSids

/-! # The way over the login page leads to a code

`authorize` sends a browser without a session to the login page. The second
call, with the session of the login, reads the same query string again. It
ends with a code unless the query asks for a login: then the fresh session
is not looked at either, and the browser is sent to log in once more.
-/

namespace SoulAuth

open Framework Framework.System Framework.Prog

section

variable [Platform]

/-! ## Calm runs -/

/-- The statement does not fail, and it is done by the time `T`. -/
structure CalmBy (T : Timestamp) (e : Entry machine) : Prop where
  sound : e.ctx.fault = none
  early : clock e ≤ T

section

variable {ε α : Type} {T : Timestamp} {w : World} {Q : Except ε α → World → Prop}

theorem calm_query_bind [OfDb ε] {s : DbStmt} {f : s.Reply → Req ε α} {a : s.Reply} {d : Db}
    (hexec : ∀ t, s.exec t w.db = (.ok a, d))
    (hok : ∀ t, w.now ≤ t → t ≤ T → Ensures (CalmBy T) (f a) ⟨d, t, w.drawn⟩ Q) :
    Ensures (CalmBy T) (query s >>= f) w Q := by
  rw [query_bind]
  apply ensures_step
  intro ctx hcalm
  obtain ⟨elapsed, fault⟩ := ctx
  obtain ⟨rfl, hearly⟩ := hcalm
  have hnow : (w.advance elapsed).now = w.now + elapsed := rfl
  have hout : Stmt.exec ⟨elapsed, none⟩ (.db s) w = (.ok a, ⟨d, w.now + elapsed, w.drawn⟩) := by
    have h := hexec (w.now + elapsed)
    simp only [Stmt.exec, World.advance, h]
  show Ensures (CalmBy T) (onResponse f (Stmt.exec ⟨elapsed, none⟩ (.db s) w).1)
    (Stmt.exec ⟨elapsed, none⟩ (.db s) w).2 Q
  rw [hout]
  exact hok _ (before_le_clock ⟨⟨elapsed, none⟩, .db s, w⟩) hearly

theorem calm_getNow_bind {f : Timestamp → Req ε α}
    (hok : ∀ t, w.now ≤ t → t ≤ T → Ensures (CalmBy T) (f t) ⟨w.db, t, w.drawn⟩ Q) :
    Ensures (CalmBy T) (getNow >>= f) w Q := by
  apply ensures_step
  intro ctx hcalm
  exact hok _ (before_le_clock ⟨ctx, .now, w⟩) hcalm.early

theorem calm_newSecureToken_bind {f : Str → Req ε α}
    (hok : ∀ t, w.now ≤ t → t ≤ T →
      Ensures (CalmBy T) (f (Platform.secureToken w.drawn)) ⟨w.db, t, w.drawn + 1⟩ Q) :
    Ensures (CalmBy T) (newSecureToken >>= f) w Q := by
  apply ensures_step
  intro ctx hcalm
  exact hok _ (before_le_clock ⟨ctx, .secureToken, w⟩) hcalm.early

end

/-! ## Programs that only read -/

/-- A statement without an effect leaves the database alone. -/
theorem db_of_read {e : Entry machine} (he : e.stmt.effect = none) : e.after.db = e.before.db := by
  rcases db_after e with hsame | ⟨s, hs, hafter⟩
  · exact hsame
  rw [hafter]
  rw [hs] at he
  change s.effect = none at he
  cases s with
  | identity s =>
    cases s with
    | user s => cases s <;> first | rfl | cases he
    | actor s => cases s <;> first | rfl | cases he
    | credential s => cases s <;> first | rfl | cases he
    | _ => first | rfl | cases he
  | session s => cases s <;> first | rfl | cases he
  | resetToken s => cases s <;> first | rfl | cases he
  | client s => cases s <;> first | rfl | cases he
  | code s => cases s <;> first | rfl | cases he
  | accessToken s => cases s <;> first | rfl | cases he
  | refreshToken s => cases s <;> first | rfl | cases he
  | lockout s => cases s <;> first | rfl | cases he
  | mfa s => cases s <;> first | rfl | cases he
  | ai s => cases s <;> first | rfl | cases he

/-- The same database, later. -/
structure Later (w w' : World) : Prop where
  db : w'.db = w.db
  now : w.now ≤ w'.now
  drawn : w.drawn ≤ w'.drawn

omit [Platform] in
theorem Later.trans {w w' w'' : World} (h : Later w w') (h' : Later w' w'') : Later w w'' :=
  ⟨h'.db.trans h.db, h.now.trans h'.now, h.drawn.trans h'.drawn⟩

theorem later_of_read {e : Entry machine} (he : e.stmt.effect = none) : Later e.before e.after where
  db := db_of_read he
  now := by
    rw [after_now]
    exact before_le_clock e
  drawn := drawn_le_after e

/-- A program that only reads ends later. -/
theorem reads_ensures {ε α : Type} {G : Entry machine → Prop} {p : Req ε α} {w : World}
    (hp : Within [] p) : Ensures G p w fun _ w' => Later w w' := by
  have hlater : Alone p w fun _ w' _ => Later w w' := by
    apply Prog.Only.alone (P := Later w) hp
    · intro e hs hlater
      exact hlater.trans (later_of_read hs.reads)
    · exact ⟨rfl, le_refl _, le_refl _⟩
  exact ⟨fun cs _ => hlater cs⟩

/-! ## The steps of the second call -/

/-- `validate_authorize_request` has no objection. -/
structure OidcClient.Validates (client : OidcClient) (request : AuthorizeRequest) : Prop where
  redirectUri : request.redirectUri ∈ client.redirectUris
  types : ∃ types, parseResponseTypes request.responseType = .ok types ∧
    (types.all fun rt => rt ∈ client.allowedResponseTypes) = true
  pkce : ¬ (client.requirePkce = true ∧ request.codeChallenge = none)

/-- `create_authorization_code` has no objection: to the method of the
    challenge and to the scope, besides. -/
structure OidcClient.Grants (client : OidcClient) (request : AuthorizeRequest) : Prop where
  permits : client.permits request = .ok ()
  scope : ∃ scope, resolveScope client request.scope = .ok scope

/-- The active client with this id. -/
def Db.client? (db : Db) (clientId : Str) : Option OidcClient :=
  db.clients.find? fun c => c.clientId = clientId && c.isActive

/-- The cookie of a session that is not over by the time `T`, and that is
    young enough for the request. -/
structure FreshCookie (T : Timestamp) (request : AuthorizeRequest) (db : Db)
    (cookie : BrowserSessionClaims) : Prop where
  unexpired : T ≤ cookie.exp
  young : ∀ maxAge, request.maxAge = some maxAge → T - cookie.iat ≤ maxAge
  live : ∃ s ∈ db.sessions, s.key = cookie.sid ∧ T < s.expiresAt

/-- A code can be saved for the user, whichever token is drawn for it. -/
structure CanSave (w : World) (userKey : Str) : Prop where
  subject : ∃ a, subjectOf w.db.users (normalizeUserId userKey) = some a
  new : ∀ n, w.drawn ≤ n → ∀ row ∈ w.db.codes,
    row.codeHash ≠ hashBearer (Platform.secureToken n)

section

variable {T : Timestamp} {w w' : World} {request : AuthorizeRequest} {client : OidcClient}
  {cookie : BrowserSessionClaims} {userKey sid : Str} {user : User}

theorem CanSave.later (h : CanSave w userKey) (hl : Later w w') : CanSave w' userKey where
  subject := by
    rw [hl.db]
    exact h.subject
  new n hn := by
    rw [hl.db]
    exact h.new n (hl.drawn.trans hn)

omit [Platform] in
theorem FreshCookie.later (h : FreshCookie T request w.db cookie) (hl : Later w w') :
    FreshCookie T request w'.db cookie := by
  rw [hl.db]
  exact h

omit [Platform] in
theorem getActive_exec (hclient : w.db.client? request.clientId = some client) (t : Timestamp) :
    (DbStmt.client (.getActive request.clientId)).exec t w.db = (.ok (some client), w.db) := by
  have hfound : (ClientStmt.exec (.getActive request.clientId) w.db.clients).1 =
      .ok (some client) := congrArg Except.ok hclient
  simp only [DbStmt.exec, hfound]
  rfl

theorem validateAuthorizeRequest_ensures (hclient : w.db.client? request.clientId = some client)
    (hvalid : client.Validates request) :
    Ensures (CalmBy T) (validateAuthorizeRequest request) w fun r w' =>
      r = .ok () ∧ Later w w' := by
  unfold validateAuthorizeRequest loadClient
  rw [bind_assoc]
  apply calm_query_bind (a := some client) (d := w.db)
  · exact getActive_exec hclient
  intro t hle _
  show Ensures _ (Prog.ensure _ _ >>= _) _ _
  apply ensures_ensure_bind hvalid.redirectUri
  obtain ⟨types, htypes, hallowed⟩ := hvalid.types
  rw [htypes]
  show Ensures _ (Prog.ensure _ _ >>= _) _ _
  apply ensures_ensure_bind hallowed
  rw [Prog.ensure, if_pos hvalid.pkce]
  exact ensures_done ⟨rfl, rfl, hle, le_refl _⟩

theorem resolveCookie_ensures {now : Timestamp} (hnow : now ≤ T)
    (hfresh : FreshCookie T request w.db cookie) (hsid : Str.trim cookie.sid ≠ [])
    (huser : w.db.users.find? (fun u => u.key = normalizeUserId cookie.sub) = some user)
    (husable : user.accountStatus = .active) :
    Ensures (CalmBy T) (resolveCookie request now cookie) w fun r w' =>
      r = .ok (user.key, cookie.sid) ∧ Later w w' := by
  unfold resolveCookie browserSessionIsActive resolveExistingUserId
  simp only [bind_assoc]
  apply calm_getNow_bind
  intro t₁ hle₁ hearly₁
  have hdecoded : ¬ cookie.exp < t₁ ∧ Str.trim cookie.sid ≠ [] :=
    ⟨not_lt.mpr (hearly₁.trans hfresh.unexpired), hsid⟩
  apply ensures_ensure_bind hdecoded
  have hyoung : (request.maxAge.any fun maxAge => maxAge < now - cookie.iat) = false := by
    rcases hage : request.maxAge with _ | maxAge
    · rfl
    · have hmax := hfresh.young maxAge hage
      have helapsed : now - cookie.iat ≤ maxAge := (Int.sub_le_sub_right hnow _).trans hmax
      simpa using helapsed
  apply ensures_ensure_bind hyoung
  apply calm_getNow_bind
  intro t₂ hle₂ hearly₂
  obtain ⟨s, hs, hkey, hexpiry⟩ := hfresh.live
  have hactive : (w.db.sessions.any fun r => r.key = cookie.sid && t₂ < r.expiresAt) = true := by
    rw [List.any_eq_true]
    refine ⟨s, hs, ?_⟩
    have hlive : t₂ < s.expiresAt := lt_of_le_of_lt hearly₂ hexpiry
    simp [hkey, hlive]
  apply calm_query_bind (a := true) (d := w.db)
  · intro t
    simp only [DbStmt.exec, SessionStmt.exec, hactive]
  intro t₃ hle₃ hearly₃
  apply ensures_ensure_bind rfl
  apply calm_query_bind (a := some user) (d := w.db)
  · intro t
    simp only [DbStmt.exec, IdentityStmt.exec, UserStmt.exec]
    rw [show w.db.identity.users.find? _ = some user from huser]
  intro t₄ hle₄ hearly₄
  have hok : user.ensureUsable = .ok () := User.ensureUsable_ok.mpr husable
  show Ensures _ (Prog.ofExcept user.ensureUsable >>= _) _ _
  rw [hok]
  apply ensures_done
  refine ⟨rfl, rfl, ?_, le_refl _⟩
  show w.now ≤ t₄
  exact hle₁.trans (hle₂.trans (hle₃.trans hle₄))

theorem loadUserFromActor_ensures {actorKey : Str} :
    Ensures (CalmBy T) (loadUserFromActor actorKey) w fun r w' =>
      Later w w' ∧ ∀ u, r = .ok u → u ∈ w.db.users := by
  unfold loadUserFromActor
  apply calm_query_bind (a := w.db.users.find? fun u => u.subjectId = some actorKey) (d := w.db)
  · intro t
    rfl
  intro t hle _
  have hlater : Later w ⟨w.db, t, w.drawn⟩ := ⟨rfl, hle, le_refl _⟩
  rcases hfind : w.db.users.find? fun u => u.subjectId = some actorKey with _ | u
  · rw [hfind]
    exact ensures_done ⟨hlater, fun _ hu => by cases hu⟩
  · rw [hfind]
    apply ensures_done
    refine ⟨hlater, ?_⟩
    intro u' hu
    cases hu
    exact List.mem_of_find?_eq_some hfind

/-- A bearer that resolves speaks for a user of the table. -/
theorem resolveBearer_ensures {claims : Claims} :
    Ensures (CalmBy T) (resolveBearer claims) w fun r w' =>
      Later w w' ∧ ∀ x, r = .ok x → ∃ u ∈ w.db.users, x.1 = u.key := by
  unfold resolveBearer
  apply (reads_ensures decodeAndVerifyToken_within).bind
  swap
  · intro x w₁ hlater
    exact ⟨hlater, fun _ hx => by cases hx⟩
  intro _ w₁ hlater₁
  apply (reads_ensures authenticableActor_within).bind
  swap
  · intro x w₂ hlater₂
    exact ⟨hlater₁.trans hlater₂, fun _ hx => by cases hx⟩
  intro actor w₂ hlater₂
  apply loadUserFromActor_ensures.bind
  swap
  · intro x w₃ hloaded
    exact ⟨(hlater₁.trans hlater₂).trans hloaded.1, fun _ hx => by cases hx⟩
  intro user w₃ hloaded
  obtain ⟨hlater₃, huser⟩ := hloaded
  have hlater := (hlater₁.trans hlater₂).trans hlater₃
  have hmem : user ∈ w.db.users := by
    have hthere := huser user rfl
    rwa [hlater₂.db, hlater₁.db] at hthere
  rcases user.ensureUsable with x | _
  · exact ensures_done ⟨hlater, fun _ hx => by cases hx⟩
  rcases claims.sessionId with _ | sid
  · exact ensures_done ⟨hlater, fun _ hx => by cases hx⟩
  apply ensures_done
  refine ⟨hlater, ?_⟩
  intro x hx
  cases hx
  exact ⟨user, hmem, rfl⟩

/-- A credential that was tried has either led to a user and a session, or
    is passed over. -/
theorem tryCredential_ensures {α : Type} {credential : Option α}
    {resolve : α → Req AuthError (Str × Str)} {R : Str × Str → Prop}
    (hresolve : ∀ a, credential = some a → Ensures (CalmBy T) (resolve a) w fun r w' =>
      Later w w' ∧ ∀ x, r = .ok x → R x) :
    Ensures (CalmBy T) (tryCredential credential resolve) w fun r w' =>
      Later w w' ∧ ∃ found, r = .ok found ∧ ∀ x, found = some x → R x := by
  unfold tryCredential
  cases credential with
  | none => exact ensures_done ⟨⟨rfl, le_refl _, le_refl _⟩, none, rfl, fun _ hx => by cases hx⟩
  | some a =>
    apply Ensures.bind (P := fun r w' => Later w w' ∧ ∃ result, r = .ok result ∧
      ∀ x, result = .ok x → R x)
    · apply (hresolve a rfl).attempt
      intro result w' hresult
      exact ⟨hresult.1, result, rfl, hresult.2⟩
    · intro result w' hresult
      obtain ⟨hlater, _, heq, hR⟩ := hresult
      cases heq
      apply ensures_done
      refine ⟨hlater, result.toOption, rfl, ?_⟩
      intro x hx
      cases result with
      | ok y =>
        cases hx
        exact hR _ rfl
      | error _ => cases hx
    · intro x w' hresult
      obtain ⟨-, _, heq, -⟩ := hresult
      cases heq

theorem getClient_ensures (hclient : w.db.client? request.clientId = some client) :
    Ensures (CalmBy T) (getClient request.clientId) w fun r w' =>
      r = .ok client ∧ Later w w' := by
  unfold getClient
  apply calm_query_bind (a := some client) (d := w.db)
  · exact getActive_exec hclient
  intro t hle _
  exact ensures_done ⟨rfl, rfl, hle, le_refl _⟩

/-- Without a fault only the rules of the client stand between a user and a
    code. -/
theorem createAuthorizationCode_ensures
    (hclient : w.db.client? request.clientId = some client) (hsave : CanSave w userKey) :
    Ensures (CalmBy T) (createAuthorizationCode request userKey sid) w fun r _ =>
      (∃ code, r = .ok code) ↔ client.Grants request := by
  unfold createAuthorizationCode withContext
  apply Ensures.bind (P := fun r w' => r = .ok client ∧ Later w w')
  · apply (getClient_ensures hclient).mapError
    intro r w' hr
    obtain ⟨rfl, hlater⟩ := hr
    exact ⟨rfl, hlater⟩
  swap
  · intro x w' hr
    cases hr.1
  intro _ w₁ hr
  obtain ⟨heq, hlater⟩ := hr
  cases heq
  rcases hpermits : client.permits request with x | _
  · -- the client does not permit the request
    apply ensures_done
    constructor
    · intro hcode
      obtain ⟨_, hcode⟩ := hcode
      cases hcode
    · intro hgrants
      cases hpermits.symm.trans hgrants.permits
  show Ensures _ (newSecureToken >>= _) _ _
  apply calm_newSecureToken_bind
  intro t₂ hle₂ _
  apply calm_getNow_bind
  intro t₃ hle₃ _
  rcases hscope : resolveScope client request.scope with x | scope
  · apply ensures_done
    constructor
    · intro hcode
      obtain ⟨_, hcode⟩ := hcode
      cases hcode
    · intro hgrants
      obtain ⟨scope, hresolved⟩ := hgrants.scope
      cases hscope.symm.trans hresolved
  show Ensures _ (getNow >>= _) _ _
  apply calm_getNow_bind
  intro t₄ hle₄ _
  have hsave₁ := hsave.later hlater
  obtain ⟨a, hsubject⟩ := hsave₁.subject
  have hnew : (w₁.db.codes.any fun d =>
      d.codeHash = hashBearer (Platform.secureToken w₁.drawn)) = false := by
    rw [List.any_eq_false]
    intro row hrow
    simpa using hsave₁.new w₁.drawn (le_refl _) row hrow
  apply calm_query_bind (a := ())
  · intro t
    simp only [DbStmt.exec, CodeStmt.exec, hsubject, hnew]
    rfl
  intro t₅ hle₅ _
  apply ensures_done
  constructor
  · intro _
    exact ⟨hpermits, scope, hscope⟩
  · intro _
    exact ⟨_, rfl⟩

theorem createAuthorizeResponse_ensures
    (hclient : w.db.client? request.clientId = some client) (hsave : CanSave w userKey) :
    Ensures (CalmBy T) (createAuthorizeResponse request userKey sid) w fun r _ =>
      ∃ response, r = .ok response ∧
        ((∃ code, response = .code code) ↔ client.Grants request) := by
  unfold createAuthorizeResponse
  apply Ensures.bind (P := fun r _ => ∃ result, r = .ok result ∧
    ((∃ code, result = .ok code) ↔ client.Grants request))
  · apply Ensures.attempt (P := fun result _ =>
      ((∃ code, result = .ok code) ↔ client.Grants request))
    swap
    · intro result _ hresult
      exact ⟨result, rfl, hresult⟩
    exact createAuthorizationCode_ensures hclient hsave
  · intro result w' hresult
    obtain ⟨_, heq, hiff⟩ := hresult
    cases heq
    cases result with
    | ok code => exact ensures_done ⟨.code code, rfl, by simpa using hiff⟩
    | error x => exact ensures_done ⟨.invalidRequest x, rfl, by simpa using hiff⟩
  · intro x w' hresult
    obtain ⟨_, heq, -⟩ := hresult
    cases heq

/-- The fresh cookie of a usable account leads to it. -/
theorem tryCookie_ensures {now : Timestamp} (hnow : now ≤ T)
    (hfresh : FreshCookie T request w.db cookie) (hsid : Str.trim cookie.sid ≠ [])
    (huser : w.db.users.find? (fun u => u.key = normalizeUserId cookie.sub) = some user)
    (husable : user.accountStatus = .active) :
    Ensures (CalmBy T) (tryCredential (some cookie) (resolveCookie request now)) w fun r w' =>
      r = .ok (some (user.key, cookie.sid)) ∧ Later w w' := by
  unfold tryCredential
  apply Ensures.bind (P := fun r w' => r = .ok (.ok (user.key, cookie.sid)) ∧ Later w w')
  · apply (resolveCookie_ensures hnow hfresh hsid huser husable).attempt
    intro result w' hresult
    exact ⟨congrArg Except.ok hresult.1, hresult.2⟩
  · intro result w' hresult
    obtain ⟨heq, hlater⟩ := hresult
    cases heq
    exact ensures_done ⟨rfl, hlater⟩
  · intro x w' hresult
    cases hresult.1

omit [Platform] in
theorem notAuthenticated_ne_code {code : Str} : notAuthenticated request ≠ .code code := by
  unfold notAuthenticated
  split
  · nofun
  · nofun

/-- With a fresh cookie `authorize` issues a code, unless the request asks
    for a login or the client objects to it. -/
theorem authorize_ensures {bearer : Option Claims}
    (hclient : w.db.client? request.clientId = some client) (hvalid : client.Validates request)
    (hsave : ∀ u ∈ w.db.users, CanSave w u.key)
    (hfresh : FreshCookie T request w.db cookie) (hsid : Str.trim cookie.sid ≠ [])
    (huser : w.db.users.find? (fun u => u.key = normalizeUserId cookie.sub) = some user)
    (husable : user.accountStatus = .active) :
    Ensures (CalmBy T) (authorize request ⟨bearer, some cookie⟩) w fun r _ =>
      ∃ response, r = .ok response ∧ ((∃ code, response = .code code) ↔
        request.prompts "login" = false ∧ client.Grants request) := by
  unfold authorize
  apply (validateAuthorizeRequest_ensures hclient hvalid).bind
  swap
  · intro x w' hr
    cases hr.1
  intro _ w₁ hr
  obtain ⟨-, hlater₁⟩ := hr
  apply calm_getNow_bind
  intro now hle hearly
  have hlater₂ : Later w ⟨w₁.db, now, w₁.drawn⟩ := ⟨hlater₁.db, hlater₁.now.trans hle, hlater₁.drawn⟩
  by_cases hlogin : request.prompts "login" = true
  · rw [if_pos hlogin]
    apply ensures_done
    refine ⟨_, rfl, ?_⟩
    constructor
    · intro hcode
      obtain ⟨code, hcode⟩ := hcode
      exact absurd hcode notAuthenticated_ne_code
    · intro hno
      rw [hlogin] at hno
      cases hno.1
  rw [if_neg hlogin]
  have hno : request.prompts "login" = false := by simpa using hlogin
  have hcreate : ∀ {w' : World} {u : User} {sid : Str}, u ∈ w.db.users → Later w w' →
      Ensures (CalmBy T) (createAuthorizeResponse request u.key sid) w' fun r _ =>
        ∃ response, r = .ok response ∧ ((∃ code, response = .code code) ↔
          request.prompts "login" = false ∧ client.Grants request) := by
    intro w' u sid hu hlater
    have hclient' : w'.db.client? request.clientId = some client := by
      rw [hlater.db]
      exact hclient
    apply (createAuthorizeResponse_ensures hclient' ((hsave u hu).later hlater)).weaken
    intro r _ hr
    obtain ⟨response, heq, hiff⟩ := hr
    exact ⟨response, heq, by rw [hiff, hno]; simp⟩
  -- the bearer, when there is one
  apply (tryCredential_ensures (R := fun x => ∃ u ∈ w.db.users, x.1 = u.key) ?_).bind
  · intro found w₃ hr
    obtain ⟨hlater₃, _, heq, hfound⟩ := hr
    cases heq
    have hlater := hlater₂.trans hlater₃
    rcases found with _ | ⟨userId, sid⟩
    · -- the cookie
      have hfresh₃ := hfresh.later hlater
      have huser₃ : w₃.db.users.find? (fun u => u.key = normalizeUserId cookie.sub) =
          some user := by
        rw [hlater.db]
        exact huser
      apply (tryCookie_ensures hearly hfresh₃ hsid huser₃ husable).bind
      · intro _ w₄ hr
        obtain ⟨heq, hlater₄⟩ := hr
        cases heq
        exact hcreate (List.mem_of_find?_eq_some huser) (hlater.trans hlater₄)
      · intro x w₄ hr
        cases hr.1
    · obtain ⟨u, hu, hkey⟩ := hfound _ rfl
      obtain rfl : userId = u.key := hkey
      exact hcreate hu hlater
  · intro x w₃ hr
    obtain ⟨-, _, heq, -⟩ := hr
    cases heq
  · intro claims _
    apply resolveBearer_ensures.weaken
    intro r w₃ hr
    obtain ⟨hlater₃, hfound⟩ := hr
    refine ⟨hlater₃, fun x hx => ?_⟩
    obtain ⟨u, hu, hkey⟩ := hfound x hx
    have hu' : u ∈ w₁.db.users := hu
    rw [hlater₁.db] at hu'
    exact ⟨u, hu', hkey⟩

/-- The same from the URI on. -/
theorem authorizePage_ensures {query : Str → QueryParams} {target : Str} (bearer : Option Claims)
    (hread : AuthorizeRequest.ofParams (query target) = .ok request)
    (hclient : w.db.client? request.clientId = some client) (hvalid : client.Validates request)
    (hsave : ∀ u ∈ w.db.users, CanSave w u.key)
    (hfresh : FreshCookie T request w.db cookie) (hsid : Str.trim cookie.sid ≠ [])
    (huser : w.db.users.find? (fun u => u.key = normalizeUserId cookie.sub) = some user)
    (husable : user.accountStatus = .active) :
    Ensures (CalmBy T) (authorizePage query target ⟨bearer, some cookie⟩) w fun r _ =>
      (∃ code, r = .ok (.answered (.code code))) ↔
        request.prompts "login" = false ∧ client.Grants request := by
  unfold authorizePage
  rw [hread]
  show Ensures _ (authorize _ _ >>= _) _ _
  apply (authorize_ensures hclient hvalid hsave hfresh hsid huser husable).bind
  · intro response w₁ hr
    obtain ⟨_, heq, hiff⟩ := hr
    cases heq
    cases response with
    | code code =>
      apply ensures_done
      rw [← hiff]
      exact ⟨fun _ => ⟨code, rfl⟩, fun _ => ⟨code, rfl⟩⟩
    | loginPage =>
      have hnone : ∀ r : Except AuthError AuthorizePage, (∀ code, r ≠ .ok (.answered (.code code))) →
          ((∃ code, r = .ok (.answered (.code code))) ↔
            request.prompts "login" = false ∧ client.Grants request) := by
        intro r hr
        rw [← hiff]
        constructor
        · intro hcode
          obtain ⟨code, hcode⟩ := hcode
          exact absurd hcode (hr code)
        · intro hcode
          obtain ⟨code, hcode⟩ := hcode
          cases hcode
      apply calm_getNow_bind
      intro t _ _
      rcases createOidcReturnToken target t with x | token
      · exact ensures_done (hnone _ nofun)
      · exact ensures_done (hnone _ nofun)
    | invalidRequest =>
      apply ensures_done
      rw [← hiff]
      simp
    | loginRequired =>
      apply ensures_done
      rw [← hiff]
      simp
  · intro x w₁ hr
    obtain ⟨_, heq, -⟩ := hr
    cases heq

end

/-! ## What holds of the second call -/

section

variable {now : Timestamp} {c : (server).Conf} {cookie : BrowserSessionClaims} {u : User}

/-- A user of the table is found under its key, which is its normal form. -/
theorem subjectOf_of_mem (hc : Reachable (World.fresh now) c) (hu : u ∈ c.state.db.users) :
    ∃ a, subjectOf c.state.db.users (normalizeUserId u.key) = some a := by
  have hline := lineage_holds hc
  obtain ⟨g, hg, hsame⟩ := hline.users u hu
  have hplain : IsPlainKey u.key := by
    rw [hsame.key]
    exact (hg.isPlainKey hc (by simp [HumanAggregate.keys])).1
  have hnormal : normalizeUserId u.key = u.key := hplain.normalizeId (by decide)
  rw [hnormal]
  unfold subjectOf
  rcases hfind : c.state.db.users.find? fun x => x.key = u.key with _ | x
  · have hnone := List.find?_eq_none.mp hfind u hu
    simp at hnone
  · obtain ⟨g', hg', hsame'⟩ := hline.users x (List.mem_of_find?_eq_some hfind)
    rw [hfind]
    exact ⟨g'.actor.key, hsame'.subjectId.trans (hg'.linked hc).1⟩

/-- The codes of the table come from tokens drawn so far. -/
theorem code_ne_undrawn (hc : Reachable (World.fresh now) c) {row : OidcAuthorizationCode}
    (hrow : row ∈ c.state.db.codes) {n : Nat} (hn : c.state.drawn ≤ n) :
    row.codeHash ≠ hashBearer (Platform.secureToken n) := by
  intro hhash
  obtain ⟨saved, hsaved, hissued⟩ :=
    code_issued hc (List.append_nil c.trace).symm hc.steps hrow
  obtain ⟨j, e, cfg, request, credentials, key, hm, -, -, -, hs, hof⟩ := hissued
  obtain ⟨tr₁, tr₂, htr⟩ := List.append_of_mem hm
  obtain ⟨r, -, hcond⟩ := conducted_at hc htr
  unfold Conducted at hcond
  rw [hs] at hcond
  obtain ⟨_, _, -, hg⟩ := hcond
  obtain ⟨code, hcode, heq⟩ := hg.drawn
  have hdrawn : code ∈ (drawsIn tokenOf c.trace).map Prod.snd := by
    have hthread : code ∈ (entriesOf (S := server) j c.trace).filterMap tokenOf := by
      rw [htr, entriesOf_append, List.filterMap_append]
      exact List.mem_append_left _ hcode
    rw [filterMap_entriesOf] at hthread
    exact (List.filter_sublist.map Prod.snd).subset hthread
  obtain ⟨m, hlt, hvalue⟩ := (Steps.draws isDraw_token hc.steps).2 code hdrawn
  have hcode' : code = Platform.secureToken n := by
    rw [hhash] at hof
    exact hashBearer_inj.mp (heq.symm.trans hof)
  have hplace : m = n := isDraw_token.injective (hvalue.symm.trans hcode')
  omega

theorem canSave_of_mem (hc : Reachable (World.fresh now) c) (hu : u ∈ c.state.db.users) :
    CanSave c.state u.key where
  subject := subjectOf_of_mem hc hu
  new _ hn _ hrow := code_ne_undrawn hc hrow hn

/-- The cookie of a login leads to a row of the account. -/
theorem CookieSet.account (hc : Reachable (World.fresh now) c) (h : CookieSet c cookie) :
    Str.trim cookie.sid ≠ [] ∧ ∃ user,
      c.state.db.users.find? (fun u => u.key = normalizeUserId cookie.sub) = some user ∧
      user.key = cookie.sub := by
  obtain ⟨s, u, hopened, hseen, hsubject, hsid, hsub⟩ := h.owner hc
  obtain ⟨hplain, hne⟩ := hopened.key hc
  constructor
  · rw [hsid, hplain.trim]
    exact hne
  have hnormal : normalizeUserId cookie.sub = u.key := by
    rw [hsub]
    exact (hseen.plain hc hsubject).1.normalizeId (by decide)
  have hfound := hseen.subjectOf hc hsubject
  unfold subjectOf at hfound
  obtain ⟨user, huser, -⟩ := Option.bind_eq_some_iff.mp hfound
  have hkey : user.key = u.key := by simpa using List.find?_some huser
  rw [hnormal]
  exact ⟨user, huser, hkey.trans hsub.symm⟩

end

/-! ## The trip -/

/-- `authorize` has sent a browser from this URI to the login page, with the
    token. -/
def SentToLogin (query : Str → QueryParams) (target : Str) (returnTo : SignedToken) : Prop :=
  ∃ credentials cs w,
    ((authorizePage query target credentials).runAlone cs w).1 = .ok (.loginPage returnTo)

/-- Where the token leads after the login: to the target that the login page
    reads in it, or that the callback of an external login does. -/
inductive LeadsBack (returnTo : SignedToken) (target : Str) : Prop
  | page (now : Timestamp) (decoded : decodeOidcReturnToken now returnTo = .ok target)
  | callback (now : Timestamp) (read : oauthReturnTarget none (some returnTo) now = some target)

section

variable {query : Str → QueryParams} {target target' : Str} {returnTo : SignedToken}

theorem SentToLogin.created (h : SentToLogin query target returnTo) :
    ∃ now, createOidcReturnToken target now = .ok returnTo := by
  obtain ⟨credentials, cs, w, hout⟩ := h
  have halone : Alone (authorizePage query target credentials) w fun r _ _ =>
      r = .ok (.loginPage returnTo) → ∃ now, createOidcReturnToken target now = .ok returnTo := by
    unfold authorizePage
    apply alone_ofExcept_bind
    · intro request _
      refine Alone.bind (Q := fun _ _ _ => True) (fun _ => trivial) ?_ ?_
      · intro response w' t _
        cases response with
        | loginPage =>
          apply alone_step
          intro ctx
          show Alone (Prog.ofExcept (createOidcReturnToken target (w'.now + ctx.elapsed)) >>= _) _ _
          apply alone_ofExcept_bind
          · intro token hcreate cs heq
            cases heq
            exact ⟨_, hcreate⟩
          · intro x _ heq
            cases heq
        | code | invalidRequest | loginRequired =>
          intro cs heq
          cases heq
      · intro x w' t _ heq
        cases heq
    · intro x _ heq
      cases heq
  exact halone cs hout

/-- The token leads back to where it was made. -/
theorem LeadsBack.eq (hsent : SentToLogin query target returnTo)
    (hback : LeadsBack returnTo target') : target' = target := by
  obtain ⟨t, hcreate⟩ := hsent.created
  cases hback with
  | page now decoded => exact decodeOidcReturnToken_create hcreate decoded
  | callback now read =>
    rcases hdecoded : decodeOidcReturnToken now returnTo with x | found
    · simp [oauthReturnTarget, hdecoded, Except.toOption] at read
    · have hfound : found = target' := by
        simpa [oauthReturnTarget, hdecoded, Except.toOption] using read
      rw [← hfound]
      exact decodeOidcReturnToken_create hcreate hdecoded

end

/-- The second call: the request of the token, with the cookie of the login
    and any bearer. -/
def secondCall (query : Str → QueryParams) (target : Str) (bearer : Option Claims)
    (cookie : BrowserSessionClaims) (cs : Nat → Ctx) (w : World) :
    Except AuthError AuthorizePage × World × List (Entry machine) :=
  (authorizePage query target ⟨bearer, some cookie⟩).runAlone cs w

/-- **The way over the login page.** The second call ends with a code exactly
    if the query does not ask for a login, and the client grants what it asks
    for. -/
theorem authorize_trip_iff {now T : Timestamp} {c : (server).Conf}
    (hc : Reachable (World.fresh now) c) {query : Str → QueryParams} {target target' : Str}
    {returnTo : SignedToken} (hsent : SentToLogin query target returnTo)
    (hback : LeadsBack returnTo target') {request : AuthorizeRequest}
    (hread : AuthorizeRequest.ofParams (query target) = .ok request) {client : OidcClient}
    (hclient : c.state.db.client? request.clientId = some client)
    (hvalid : client.Validates request) {cookie : BrowserSessionClaims}
    (hlogin : CookieSet c cookie)
    (husable : ∀ u ∈ c.state.db.users, u.key = cookie.sub → u.accountStatus = .active)
    (hfresh : FreshCookie T request c.state.db cookie) (bearer : Option Claims)
    {cs : Nat → Ctx}
    (hcalm : ∀ e ∈ (secondCall query target' bearer cookie cs c.state).2.2, CalmBy T e) :
    (∃ code, (secondCall query target' bearer cookie cs c.state).1 =
        .ok (.answered (.code code))) ↔
      request.prompts "login" = false ∧ client.Grants request := by
  obtain rfl := hback.eq hsent
  obtain ⟨hsid, user, huser, hkey⟩ := hlogin.account hc
  have hactive := husable user (List.mem_of_find?_eq_some huser) hkey
  have hensures := authorizePage_ensures bearer hread hclient hvalid
    (fun u hu => canSave_of_mem hc hu) hfresh hsid huser hactive
  exact hensures.alone cs hcalm

end

end SoulAuth

namespace SoulAuth.Sample

open Framework Framework.System

/-- A URI with a `prompt`, and what it asks for. -/
def tripTarget : Str :=
  ("/api/oidc/authorize?response_type=code&client_id=t" ++
    "&redirect_uri=https%3A%2F%2Fapp.example%2Fcb&prompt=..").toList

def tripQuery (prompt : Str) : Str → QueryParams := fun _ name =>
  if name = "response_type" then some "code".toList
  else if name = "client_id" then some clientId
  else if name = "redirect_uri" then some "https://app.example/cb".toList
  else if name = "prompt" then some prompt
  else none

def tripRequest (prompt : Str) : AuthorizeRequest :=
  { authorizeRequest with scope := none, prompt := some prompt }

/-- The token that leads a browser without a session back. -/
def tripToken : SignedToken := OidcReturnClaims.format.serialize ⟨tripTarget, 600, 0⟩

theorem leadsBack_tripToken : LeadsBack tripToken tripTarget :=
  .page 0 (by decide +kernel)

/-- The first call, of a browser without a session. -/
def firstPage (prompt : Str) : Except AuthError AuthorizePage :=
  ((authorizePage (tripQuery prompt) tripTarget ⟨none, none⟩).runAlone (fun _ => Ctx.calm)
    (after prelude).state).1

theorem sentToLogin_of (prompt : Str) (h : firstPage prompt = .ok (.loginPage tripToken)) :
    SentToLogin (tripQuery prompt) tripTarget tripToken :=
  ⟨_, _, _, h⟩

/-- Request 2 is Alice's login. -/
def aliceLoggedIn : List (server).Action :=
  prelude ++ start config (.login "a@b.c".toList password "ip".toList) :: steps 2 30

/-- The cookie that it sets. -/
def loginCookie : BrowserSessionClaims := ⟨alice, numbered 'u' 11, 86400, 0⟩

/-- The cookie that request `i` sets. -/
def cookieOf (c : (server).Conf) (i : Nat) : Option BrowserSessionClaims :=
  match c.outcome i with
  | some (.ok (.loggedIn response)) => some response.cookie
  | _ => none

theorem cookieSet_of {c : (server).Conf} {i : Nat} {cookie : BrowserSessionClaims}
    (h : cookieOf c i = some cookie) : CookieSet c cookie := by
  unfold cookieOf at h
  split at h
  · next response ho =>
    cases h
    exact .login i response (Conf.returned_of_outcome ho)
  · cases h

/-- The second call, with that cookie. -/
def secondOf (prompt : Str) : Except AuthError AuthorizePage × World × List (Entry machine) :=
  secondCall (tripQuery prompt) tripTarget none loginCookie (fun _ => Ctx.calm)
    (after aliceLoggedIn).state

theorem calmBy_of {T : Timestamp} {t : List (Entry machine)}
    (h : t.all (fun e => e.ctx.fault = none && clock e ≤ T) = true) : ∀ e ∈ t, CalmBy T e := by
  intro e he
  have hcalm := List.all_eq_true.mp h e he
  simp only [Bool.and_eq_true, decide_eq_true_eq] at hcalm
  exact ⟨hcalm.1, hcalm.2⟩

/-- Whether the client has no objection to the request. -/
def serves (request : AuthorizeRequest) (client : OidcClient) : Bool :=
  decide (request.redirectUri ∈ client.redirectUris) &&
    (parseResponseTypes request.responseType).toOption.any (fun types =>
      types.all fun rt => rt ∈ client.allowedResponseTypes) &&
    !(client.requirePkce && decide (request.codeChallenge = none)) &&
    (client.permits request).toBool && (resolveScope client request.scope).toBool

theorem serves_of {request : AuthorizeRequest} {client : OidcClient}
    (h : serves request client = true) :
    client.Validates request ∧ client.Grants request := by
  simp only [serves, Bool.and_eq_true, decide_eq_true_eq, Bool.not_eq_true'] at h
  obtain ⟨⟨⟨⟨huri, htypes⟩, hpkce⟩, hpermits⟩, hscope⟩ := h
  constructor
  · constructor
    · exact huri
    · rcases hparsed : parseResponseTypes request.responseType with x | types
      · rw [hparsed] at htypes
        cases htypes
      · rw [hparsed] at htypes
        exact ⟨types, rfl, htypes⟩
    · simpa using hpkce
  · constructor
    · rcases hpermitted : client.permits request with x | _
      · rw [hpermitted] at hpermits
        cases hpermits
      · rfl
    · rcases hresolved : resolveScope client request.scope with x | scope
      · rw [hresolved] at hscope
        cases hscope
      · exact ⟨scope, rfl⟩

/-- The client of the sample deployment serves the request. -/
theorem served_alice (prompt : Str) (h : ((after aliceLoggedIn).state.db.client? clientId).any
    (serves (tripRequest prompt)) = true) : ∃ client,
      (after aliceLoggedIn).state.db.client? (tripRequest prompt).clientId = some client ∧
        client.Validates (tripRequest prompt) ∧ client.Grants (tripRequest prompt) := by
  rcases hclient : (after aliceLoggedIn).state.db.client? clientId with _ | client
  · rw [hclient] at h
    cases h
  · rw [hclient] at h
    exact ⟨client, hclient, serves_of h⟩

/-- What Alice has after her login, and what the client makes of her request. -/
theorem aliceLoggedIn_state : cookieOf (after aliceLoggedIn) 2 = some loginCookie ∧
    (after aliceLoggedIn).state.db.users.all (fun u => u.accountStatus = .active) = true ∧
    (after aliceLoggedIn).state.db.sessions.any (fun s =>
      s.key = loginCookie.sid && 0 < s.expiresAt) = true ∧
    ((after aliceLoggedIn).state.db.client? clientId).any
      (serves (tripRequest "consent".toList)) = true ∧
    ((after aliceLoggedIn).state.db.client? clientId).any
      (serves (tripRequest "login".toList)) = true := by decide +kernel

theorem cookieSet_alice : CookieSet (after aliceLoggedIn) loginCookie :=
  cookieSet_of aliceLoggedIn_state.1

theorem usable_alice : ∀ u ∈ (after aliceLoggedIn).state.db.users,
    u.key = loginCookie.sub → u.accountStatus = .active := by
  obtain ⟨-, hall, -⟩ := aliceLoggedIn_state
  intro u hu _
  simpa using List.all_eq_true.mp hall u hu

theorem fresh_alice (prompt : Str) :
    FreshCookie 0 (tripRequest prompt) (after aliceLoggedIn).state.db loginCookie where
  unexpired := by decide
  young _ hage := by cases hage
  live := by
    obtain ⟨-, -, hany, -⟩ := aliceLoggedIn_state
    obtain ⟨s, hs, hlive⟩ := List.any_eq_true.mp hany
    simp only [Bool.and_eq_true, decide_eq_true_eq] at hlive
    exact ⟨s, hs, hlive⟩

/-- Both calls of a trip, when nothing fails and no time passes. -/
theorem consent_calls : firstPage "consent".toList = .ok (.loginPage tripToken) ∧
    (secondOf "consent".toList).2.2.all (fun e => e.ctx.fault = none && clock e ≤ 0) = true := by
  decide +kernel

theorem login_calls : firstPage "login".toList = .ok (.loginPage tripToken) ∧
    (secondOf "login".toList).1 = .ok (.loginPage tripToken) ∧
    (secondOf "login".toList).2.2.all (fun e => e.ctx.fault = none && clock e ≤ 0) = true := by
  decide +kernel

/-- A request that asks for consent is answered with a code. -/
theorem authorize_trip_consent : ∃ code,
    (secondOf "consent".toList).1 = .ok (.answered (.code code)) := by
  obtain ⟨-, -, -, hserves, -⟩ := aliceLoggedIn_state
  obtain ⟨hfirst, hcalm⟩ := consent_calls
  obtain ⟨client, hclient, hvalid, hgrants⟩ := served_alice "consent".toList hserves
  exact (authorize_trip_iff (after_reachable _) (sentToLogin_of _ hfirst) leadsBack_tripToken rfl
    hclient hvalid cookieSet_alice usable_alice (fresh_alice _) none (calmBy_of hcalm)).mpr
    ⟨by decide, hgrants⟩

/-- Alice has just logged in, and is sent to log in. -/
theorem authorize_trip_login_loops : ¬ ∀ (now T : Timestamp) (c : (server).Conf)
    (query : Str → QueryParams) (target target' : Str) (returnTo : SignedToken)
    (request : AuthorizeRequest) (client : OidcClient) (cookie : BrowserSessionClaims)
    (bearer : Option Claims) (cs : Nat → Ctx),
    Reachable (World.fresh now) c → SentToLogin query target returnTo →
    LeadsBack returnTo target' → AuthorizeRequest.ofParams (query target) = .ok request →
    request.prompts "none" = false →
    c.state.db.client? request.clientId = some client → client.Validates request →
    client.Grants request → CookieSet c cookie →
    (∀ u ∈ c.state.db.users, u.key = cookie.sub → u.accountStatus = .active) →
    FreshCookie T request c.state.db cookie →
    (∀ e ∈ (secondCall query target' bearer cookie cs c.state).2.2, CalmBy T e) →
    ∃ code, (secondCall query target' bearer cookie cs c.state).1 =
      .ok (.answered (.code code)) := by
  intro hall
  obtain ⟨-, -, -, -, hserves⟩ := aliceLoggedIn_state
  obtain ⟨hfirst, hagain, hcalm⟩ := login_calls
  obtain ⟨client, hclient, hvalid, hgrants⟩ := served_alice "login".toList hserves
  obtain ⟨code, hcode⟩ := hall 0 0 _ _ _ _ _ _ _ _ none (fun _ => Ctx.calm) (after_reachable _)
    (sentToLogin_of "login".toList hfirst) leadsBack_tripToken rfl (by decide) hclient hvalid
    hgrants cookieSet_alice usable_alice (fresh_alice _) (calmBy_of hcalm)
  cases hagain.symm.trans hcode

end SoulAuth.Sample
