import SoulAuth.Proofs.Lineage
import SoulAuth.Proofs.Tables

/-! # What the logout of a client ends

The subject of an ID token is the stable subject of the identity root. The
logout takes it for the key of a user, and looks for sessions and tokens by
that key; a run never uses a subject for a key.
-/

namespace SoulAuth

open Framework Framework.System

section

variable [Platform]

/-! ## The subject of an ID token -/

/-- The subject of an ID token in a response is the one of the human whose
    identity root the request has found. -/
def NamesSubject (h : List (Entry machine)) (response : TokenResponse) : Prop :=
  ∀ hint, response.idToken = some hint →
    ∃ userId x, UserPassed h userId x ∧ hint.sub = x.subjectKey

section

variable {ε α β : Type} {h : List (Entry machine)}

theorem generateIdToken_subject {cfg : Config} {client : OidcClient} {user : User}
    {nonce sid : Option Str} {scope : Str} :
    Ending (fun h' hint => ∃ userId x, UserPassed h' userId x ∧ hint.sub = x.subjectKey) h
      (generateIdToken cfg client user nonce sid scope) := by
  apply ending_bind
  intro h₁ sid
  apply ending_bind
  intro h₂ now
  have hpassed : Ending (fun h' subject =>
      ∃ userId x, UserPassed h' userId x ∧ subject = x.subjectKey) h₂
      (stableSubjectOfUser user) := by
    apply Prog.Meets.bind (P := Ends fun h' a => UserPassed h' user.key a.actor)
    · apply ending_mapError
      apply ending_of_follows (c := ⟨cfg, .cleanupOidcArtifacts⟩)
      exact ends_mono authenticableActorOfUser_follows fun t a ha => ha.1
    · intro t a ha
      exact ⟨user.key, a.actor, ha, rfl⟩
    · intro t x _
      trivial
  apply Prog.Meets.bind hpassed _ fun _ _ _ => trivial
  rintro t subject ⟨userId, x, hx, hsubject⟩
  -- reading the time of the authentication comes last
  apply Prog.Meets.bind (P := fun h' _ => UserPassed h' userId x)
  · exact Prog.meets_trivial.weaken (fun _ hw => hw) (fun _ _ _ he => he)
      fun t' _ _ => hx.mono t'
  · intro t' found hx'
    exact ⟨userId, x, hx', hsubject⟩
  · intro t' e _
    trivial

theorem issueIdToken_subject {cfg : Config} {client : OidcClient} {user : User}
    {nonce sid : Option Str} {scope : Str} :
    Ending (fun h' idToken => ∀ hint, idToken = some hint →
      ∃ userId x, UserPassed h' userId x ∧ hint.sub = x.subjectKey) h
      (issueIdToken cfg client user nonce sid scope) := by
  unfold issueIdToken
  split
  · apply Prog.Meets.bind generateIdToken_subject
    · rintro t claims hclaims hint ⟨⟩
      exact hclaims
    · intro t x _
      trivial
  · rintro hint ⟨⟩

theorem generateTokens_subject {cfg : Config} {client : OidcClient} {userId scope : Str}
    {nonce sid : Option Str} :
    Ending NamesSubject h (generateTokens cfg client userId scope nonce sid) := by
  apply ending_bind
  intro h₁ now
  apply ending_bind
  intro h₂ user
  apply ending_bind
  intro h₃ accessToken
  apply ending_bind
  intro h₄ saved
  apply ending_bind
  intro h₅ refreshToken
  apply Prog.Meets.bind issueIdToken_subject
  · intro t idToken hidToken
    exact hidToken
  · intro t x _
    trivial

theorem exchangeCodeForTokens_subject {cfg : Config} {request : TokenRequest} :
    Ending NamesSubject h (exchangeCodeForTokens cfg request) := by
  unfold exchangeCodeForTokens
  split
  · unfold handleAuthorizationCodeGrant
    -- the checks before the tokens are made
    iterate 8
      apply ending_bind
      intro _ _
    exact ending_mapError generateTokens_subject
  split
  · unfold handleRefreshTokenGrant
    iterate 7
      apply ending_bind
      intro _ _
    split
    · apply ending_bind
      intro _ _
      trivial
    · iterate 4
        apply ending_bind
        intro _ _
      exact generateTokens_subject
  · trivial

end

/-- The rule of the token endpoint. -/
def subjectRule : Rule server where
  assumes _ := True
  entry _ _ _ := True
  outcome c h r := ∀ request response, c.endpoint = .token request →
    r = .ok (.tokens response) → NamesSubject h response

theorem subjectRule_met : subjectRule.Met := by
  rintro ⟨cfg, endpoint⟩
  by_cases htoken : ∃ request, endpoint = .token request
  · obtain ⟨request, rfl⟩ := htoken
    show (respondOidc Reply.tokens (exchangeCodeForTokens cfg request)).Meets _ _ _ []
    apply Prog.Meets.bind (P := Ends NamesSubject) (ending_mapError exchangeCodeForTokens_subject)
    · intro t response hnames _ _ _ heq
      cases heq
      exact hnames
    · intro t x _ _ _ _ heq
      cases heq
  · apply Prog.meets_trivial.weaken (fun _ hw => hw) (fun _ _ _ he => he)
    intro t r _ request response hep
    exact absurd ⟨request, hep⟩ htoken

/-- **Subjects.** The subject of an ID token that the server has issued is
    the one of a human created in the run. -/
theorem subject_of_idToken {now : Timestamp} {c : (server).Conf}
    (hc : Reachable (World.fresh now) c) {i : Nat} {response : TokenResponse}
    (hret : c.Returned i (.ok (.tokens response))) {hint : IdTokenClaims}
    (hhint : response.idToken = some hint) :
    ∃ a, Conceived c.trace a ∧ hint.sub = a.actor.subjectKey := by
  obtain ⟨r, hr, request, hep, -⟩ := (conduct_holds hc).returned hret
  obtain ⟨r', hr', hout⟩ := (hc.rule subjectRule_met fun _ => trivial).returned hret
  cases hr.symm.trans hr'
  obtain ⟨userId, x, ⟨k, -, hpassed⟩, hsub⟩ := hout request response hep rfl hint hhint
  obtain ⟨e, hmem, hread⟩ := heard_mem hpassed.found fun _ he => he
  have hfound : x ∈ e.before.db.identity.actors := by
    have hreply := hread.reply
    simp only [DbStmt.exec, IdentityStmt.exec, ActorStmt.exec, Except.ok.injEq] at hreply
    exact List.mem_of_find?_eq_some hreply
  obtain ⟨a, ha, -, hkey⟩ := ((lineage_along hc).2 _ hmem).roots x hfound hpassed.human
  exact ⟨a, ha, hsub.trans hkey⟩

/-! ## What the logout leaves -/

/-- The statements that a logout issues when it takes the hint. -/
def RpStmt (hint : IdTokenClaims) (s : Stmt) : Prop :=
  s = .db (.accessToken (.revokeForClient hint.aud (ownerKey hint.sub))) ∨
  s = .db (.refreshToken (.revokeForClient hint.aud (ownerKey hint.sub))) ∨
  s = .db (.session (.deleteByUser (normalizeUserId hint.sub))) ∨
  ∃ id, s = .db (.client (.getActive id))

theorem query_only {ε : Type} [OfDb ε] {S : Stmt → Prop} {s : DbStmt} (hs : S (.db s)) :
    Prog.Only S (query s : Req ε s.Reply) := by
  refine ⟨hs, fun r => ?_⟩
  cases r <;> trivial

theorem postLogoutTarget_only {cfg : Config} {hint : IdTokenClaims} {requested state : Option Str}
    {found : Option (Str × Str)} :
    Prog.Only (RpStmt hint) (postLogoutTarget cfg requested state found) := by
  unfold postLogoutTarget
  split
  · next clientId =>
    have hload : Prog.Only (RpStmt hint) (loadClient clientId) :=
      .bind (query_only (.inr (.inr (.inr ⟨clientId, rfl⟩)))) fun _ => Prog.only_orThrow
    exact .bind hload.attempt fun _ => trivial
  · trivial

theorem rpLogout_only {cfg : Config} {request : RpLogoutRequest} {hint : IdTokenClaims}
    (hrequest : request.idTokenHint = some hint) :
    Prog.Only (RpStmt hint) (Call.program ⟨cfg, .rpLogout request⟩) := by
  have hrevoke : Prog.Only (RpStmt hint) (rpRevoke hint.sub hint.aud) := by
    have htokens : Prog.Only (RpStmt hint) (revokeClientTokensForUser hint.aud hint.sub) :=
      .bind (query_only (.inl rfl)) fun _ => query_only (.inr (.inl rfl))
    have hsessions : Prog.Only (RpStmt hint) (deleteSessionsByUserId hint.sub : Req AuthError Unit) :=
      query_only (.inr (.inr (.inl rfl)))
    exact .bind htokens.swallow fun _ => hsessions.swallow
  show Prog.Only (RpStmt hint) (respond .redirect (rpLogout cfg request))
  refine Prog.Only.bind (Prog.Only.mapError ?_) fun _ => trivial
  unfold rpLogout verifyIdTokenHint
  rw [hrequest, Option.bind_some]
  split
  · -- the issuer is this server
    exact .bind hrevoke fun _ => postLogoutTarget_only
  · exact postLogoutTarget_only

/-- No row of the database refers to a subject: neither as the key of an
    identity root, nor as the key of a user. -/
structure Unreferenced (subject : Str) (db : Db) : Prop where
  plain : ownerKey subject = subject ∧ normalizeUserId subject = subject
  user : subjectOf db.users subject = none
  access : ∀ t ∈ db.accessTokens, t.userId ≠ subject
  refresh : ∀ t ∈ db.refreshTokens, t.userId ≠ subject

theorem unreferenced_subject {now : Timestamp} {c : (server).Conf}
    (hc : Reachable (World.fresh now) c) {a : HumanAggregate} (ha : Conceived c.trace a) :
    Unreferenced a.actor.subjectKey c.state.db := by
  have hline := lineage_holds hc
  have hplain : IsPlainKey a.actor.subjectKey :=
    (ha.isPlainKey hc (by simp [HumanAggregate.keys])).1
  have huser : normalizeUserId a.actor.subjectKey = a.actor.subjectKey :=
    hplain.normalizeId (by decide)
  constructor
  · have hactor : normalizeActorId a.actor.subjectKey = a.actor.subjectKey :=
      hplain.normalizeId (by decide)
    exact ⟨by rw [ownerKey, huser, hactor], huser⟩
  · have hnone : c.state.db.users.find? (fun u => u.key = a.actor.subjectKey) = none := by
      apply List.find?_eq_none.mpr
      intro u hu hkey
      obtain ⟨b, hb, hacc⟩ := hline.users u hu
      have hsubject : u.key = a.actor.subjectKey := by simpa using hkey
      exact (ha.subject_ne hc hb).2 (hsubject.symm.trans hacc.key)
    rw [subjectOf, hnone]
    rfl
  · intro t ht hsubject
    obtain ⟨b, hb, hkey⟩ := hline.access t ht
    exact (ha.subject_ne hc hb).1 (hsubject.symm.trans hkey)
  · intro t ht hsubject
    obtain ⟨b, hb, hkey⟩ := hline.refresh t ht
    exact (ha.subject_ne hc hb).1 (hsubject.symm.trans hkey)

/-- A statement of the logout deletes nothing. -/
theorem RpStmt.keeps {hint : IdTokenClaims} {s : Stmt} (hs : RpStmt hint s) {ctx : Ctx} {w : World}
    (hfree : Unreferenced hint.sub w.db) : (Stmt.exec ctx s w).2.db = w.db := by
  have howned : ∀ userId, userId ≠ hint.sub → ownedBy w.db.users hint.sub userId = false := by
    intro userId hne
    simp [ownedBy, hfree.user, hne]
  have hsame : ∀ d : DbStmt, (d.exec (w.now + ctx.elapsed) w.db).2 = w.db →
      (Stmt.exec ctx (.db d) w).2.db = w.db := by
    intro d hd
    obtain ⟨elapsed, fault⟩ := ctx
    cases fault with
    | none => exact hd
    | some fault =>
      cases fault with
      | refused | conflict => rfl
      | lostReply => exact hd
  rcases hs with rfl | rfl | rfl | ⟨id, rfl⟩
  · apply hsame
    have hall : w.db.accessTokens.filter (fun r =>
        !(r.clientId = hint.aud && ownedBy w.db.users hint.sub r.userId)) = w.db.accessTokens := by
      apply List.filter_eq_self.mpr
      intro t ht
      simp [howned _ (hfree.access t ht)]
    rw [hfree.plain.1]
    simp only [DbStmt.exec, AccessTokenStmt.exec, hall]
  · apply hsame
    have hall : w.db.refreshTokens.filter (fun r =>
        !(r.clientId = hint.aud && ownedBy w.db.users hint.sub r.userId)) = w.db.refreshTokens := by
      apply List.filter_eq_self.mpr
      intro t ht
      simp [howned _ (hfree.refresh t ht)]
    rw [hfree.plain.1]
    simp only [DbStmt.exec, RefreshTokenStmt.exec, hall]
  · apply hsame
    have hall : w.db.sessions.filter (fun r =>
        some r.userId ≠ subjectOf w.db.users hint.sub) = w.db.sessions := by
      apply List.filter_eq_self.mpr
      intro t _
      simp [hfree.user]
    rw [hfree.plain.2]
    simp only [DbStmt.exec, SessionStmt.exec, hall]
  · exact hsame _ rfl

/-! ## Signed tokens and what they should end -/

/-- The server has signed the ID token for a user and a client: it has
    answered a token request with it, and the access token of the answer is
    one of the client for the user. -/
structure SignedFor (c : (server).Conf) (hint : IdTokenClaims) (userKey clientId : Str) :
    Prop where
  answered : ∃ i response, c.Returned i (.ok (.tokens response)) ∧
    response.idToken = some hint ∧ ∃ e t, (i, e) ∈ c.trace ∧
      Answered (.accessToken (.save t)) () e ∧ t.tokenHash = hashBearer response.accessToken ∧
      t.clientId = clientId ∧ subjectOf e.before.db.users userKey = some t.userId

/-- Nothing is left of the user at the client: no live access token, no live
    and unused refresh token, no session. -/
structure Ended (userKey clientId : Str) (now : Timestamp) (db : Db) : Prop where
  access : ∀ t ∈ db.accessTokens, t.clientId = clientId →
    subjectOf db.users userKey = some t.userId → t.expiresAt < now
  refresh : ∀ t ∈ db.refreshTokens, t.clientId = clientId →
    subjectOf db.users userKey = some t.userId → t.used = true ∨ t.expiresAt < now
  sessions : ∀ s ∈ db.sessions, subjectOf db.users userKey ≠ some s.userId

/-- A new access token is saved. -/
theorem answered_saveAccess {e : Entry machine} {t : OidcAccessToken}
    (hs : e.stmt = .db (.accessToken (.save t))) (hfault : e.ctx.fault = none)
    (hnew : (e.before.db.accessTokens.any fun q => q.tokenHash = t.tokenHash) = false) :
    Answered (.accessToken (.save t)) () e :=
  ⟨hs, hfault, by simp [DbStmt.exec, AccessTokenStmt.exec, hnew]⟩

/-- The world that a logout with the hint leaves. -/
def logoutWith (cfg : Config) (request : RpLogoutRequest) (cs : Nat → Ctx) (w : World) : World :=
  ((Call.program ⟨cfg, .rpLogout request⟩).runAlone cs w).2.1

/-- A logout leaves every row where it is. -/
theorem db_logoutWith {now : Timestamp} {c : (server).Conf} (hc : Reachable (World.fresh now) c)
    {hint : IdTokenClaims} {userKey clientId : Str} (hsigned : SignedFor c hint userKey clientId)
    {cfg : Config} {request : RpLogoutRequest} (hrequest : request.idTokenHint = some hint)
    (cs : Nat → Ctx) : (logoutWith cfg request cs c.state).db = c.state.db := by
  obtain ⟨i, response, hret, hhint, -⟩ := hsigned.answered
  obtain ⟨a, ha, hsubject⟩ := subject_of_idToken hc hret hhint
  have hfree : Unreferenced hint.sub c.state.db := hsubject ▸ unreferenced_subject hc ha
  have honly : Prog.Only (RpStmt hint) (Call.program ⟨cfg, .rpLogout request⟩) :=
    rpLogout_only hrequest
  apply honly.runAlone (P := fun w => w.db = c.state.db)
  · intro s ctx w hs hdb
    rw [← hdb] at hfree ⊢
    exact hs.keeps hfree
  · rfl

/-- **The logout of a client.** With a hint that the server has signed, the
    logout leaves nothing of the user at the client exactly if nothing was
    left before. -/
theorem logout_ends_iff {now : Timestamp} {c : (server).Conf} (hc : Reachable (World.fresh now) c)
    {hint : IdTokenClaims} {userKey clientId : Str} (hsigned : SignedFor c hint userKey clientId)
    (cfg : Config) {request : RpLogoutRequest} (hrequest : request.idTokenHint = some hint)
    (cs : Nat → Ctx) :
    let w := logoutWith cfg request cs c.state
    Ended userKey clientId w.now w.db ↔ Ended userKey clientId w.now c.state.db := by
  intro w
  have hdb : w.db = c.state.db := db_logoutWith hc hsigned hrequest cs
  rw [hdb]

end

namespace Sample

/-- The tokens that request `i` has been answered with. -/
def tokensOf (c : (server).Conf) (i : Nat) : Option TokenResponse :=
  match c.outcome i with
  | some (.ok (.tokens response)) => some response
  | _ => none

theorem returned_tokensOf {c : (server).Conf} {i : Nat} {response : TokenResponse}
    (h : tokensOf c i = some response) : c.Returned i (.ok (.tokens response)) := by
  unfold tokensOf at h
  split at h
  · next r hout =>
    cases h
    exact Conf.returned_of_outcome hout
  · cases h

/-- An entry of request 3 that saves an access token of Alice's client. -/
def savesForAlice (token : Str) (x : Nat × Entry machine) : Bool :=
  x.1 = 3 && x.2.ctx.fault = none && match x.2.stmt with
    | .db (.accessToken (.save t)) =>
      t.tokenHash = hashBearer token && t.clientId = clientId &&
        subjectOf x.2.before.db.users alice = some t.userId &&
        !(x.2.before.db.accessTokens.any fun q => q.tokenHash = t.tokenHash)
    | _ => false

theorem exists_save {token : Str} {x : Nat × Entry machine} (h : savesForAlice token x = true) :
    ∃ t, x.1 = 3 ∧ Answered (.accessToken (.save t)) () x.2 ∧ t.tokenHash = hashBearer token ∧
      t.clientId = clientId ∧ subjectOf x.2.before.db.users alice = some t.userId := by
  obtain ⟨i, ctx, s, w⟩ := x
  simp only [savesForAlice, Bool.and_eq_true, decide_eq_true_eq] at h
  obtain ⟨⟨hi, hfault⟩, hsave⟩ := h
  cases s with
  | db d =>
    cases d with
    | accessToken a =>
      cases a with
      | save t =>
        simp only [Bool.and_eq_true, decide_eq_true_eq, Bool.not_eq_true'] at hsave
        obtain ⟨⟨⟨hhash, hclient⟩, huser⟩, hnew⟩ := hsave
        exact ⟨t, hi, answered_saveAccess rfl hfault hnew, hhash, hclient, huser⟩
      | _ => cases hsave
    | _ => cases hsave
  | _ => cases hsave

/-- The access token and the ID token that Alice's client was given. -/
def aliceAccess : Str := numbered 't' 12

def aliceHint : IdTokenClaims where
  iss := "https://auth.example".toList
  sub := numbered 'u' 9
  aud := clientId
  exp := 300
  iat := 0
  authTime := 0
  sid := aliceSession
  nonce := none
  email := none
  emailVerified := none
  preferredUsername := none

theorem signedFor_alice : SignedFor (after exchanged) aliceHint alice clientId := by
  have hresponse : (tokensOf (after exchanged) 3).map (fun r => (r.accessToken, r.idToken)) =
      some (aliceAccess, some aliceHint) := by decide +kernel
  obtain ⟨response, hres, hfields⟩ := Option.map_eq_some_iff.mp hresponse
  obtain ⟨haccess, hhint⟩ := Prod.mk.inj hfields
  have hany : (after exchanged).trace.any (savesForAlice aliceAccess) = true := by decide +kernel
  obtain ⟨⟨i, e⟩, hmem, hsaves⟩ := List.any_eq_true.mp hany
  obtain ⟨t, rfl, ht, hhash, hclient, huser⟩ := exists_save hsaves
  exact ⟨3, response, returned_tokensOf hres, hhint, e, t, hmem, ht, haccess ▸ hhash, hclient, huser⟩

/-- The logout of Alice's client. -/
def aliceLogout : RpLogoutRequest := ⟨some aliceHint, none, none⟩

/-- Alice's session survives the logout. -/
theorem session_survives : ¬ ∀ (now : Timestamp) (c : (server).Conf) (hint : IdTokenClaims)
    (userKey clientId : Str) (cfg : Config) (request : RpLogoutRequest) (cs : Nat → Ctx),
    Reachable (World.fresh now) c → SignedFor c hint userKey clientId →
    request.idTokenHint = some hint → (verifyIdTokenHint cfg hint).isSome = true →
    (∀ n, (cs n).fault = none) →
    let w := logoutWith cfg request cs c.state
    Ended userKey clientId w.now w.db := by
  intro hall
  have hended := hall 0 (after exchanged) aliceHint alice clientId config aliceLogout
    (fun _ => Ctx.calm) (after_reachable exchanged) signedFor_alice rfl (by decide +kernel)
    fun _ => rfl
  have hleft : (logoutWith config aliceLogout (fun _ => Ctx.calm)
      (after exchanged).state).db.sessions.any (fun s =>
        subjectOf (logoutWith config aliceLogout (fun _ => Ctx.calm)
          (after exchanged).state).db.users alice = some s.userId) = true := by decide +kernel
  obtain ⟨session, hmem, howner⟩ := List.any_eq_true.mp hleft
  exact hended.sessions session hmem (by simpa using howner)

theorem logout_ends_iff_alice :
    let w := logoutWith config aliceLogout (fun _ => Ctx.calm) (after exchanged).state
    Ended alice clientId w.now w.db ↔ Ended alice clientId w.now (after exchanged).state.db :=
  logout_ends_iff (after_reachable exchanged) signedFor_alice config rfl fun _ => Ctx.calm

end Sample

end SoulAuth
