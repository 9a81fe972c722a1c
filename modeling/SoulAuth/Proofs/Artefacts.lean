import SoulAuth.Proofs.LiveSids
import SoulAuth.Proofs.SingleUse

/-! # Artefacts and what they are traded for

Codes, tokens, sessions and challenges are presented by requests that obtain
others for them. What stands in a table of the run was put there by one
request, and that request has presented an artefact of the same human.
-/

namespace SoulAuth

open Framework Framework.System

section

variable [Platform]

/-! ## Rows that are written -/

/-- At place `n` request `j` saves the access token. -/
def AccessSavedAt (c : (server).Conf) (n j : Nat) (t : OidcAccessToken) : Prop :=
  ∃ e, c.trace[n]? = some (j, e) ∧ Executes (.accessToken (.save t)) e

/-- At place `n` request `j` saves the refresh token. -/
def RefreshSavedAt (c : (server).Conf) (n j : Nat) (t : OidcRefreshToken) : Prop :=
  ∃ e, c.trace[n]? = some (j, e) ∧ Executes (.refreshToken (.save t)) e

/-- At place `n` request `j` saves the code, for a user of this actor. -/
def CodeSavedAt (c : (server).Conf) (n j : Nat) (row : OidcAuthorizationCode)
    (actorKey : Str) : Prop :=
  ∃ e userKey, c.trace[n]? = some (j, e) ∧ Executes (.code (.save row userKey)) e ∧
    subjectOf e.before.db.users userKey = some actorKey

/-- At place `n` request `j` creates the session. -/
def SessionCreatedAt (c : (server).Conf) (n j : Nat) (s : Session) : Prop :=
  ∃ e, c.trace[n]? = some (j, e) ∧ Executes (.session (.create s)) e

/-! ## Artefacts -/

/-- What a user or a client holds. A bearer and a cookie belong to a session,
    and of the texts of codes and tokens the database has the hashes. -/
inductive Artefact
  | code (h : Hashed Str)
  | refreshToken (h : Hashed Str)
  | accessToken (h : Hashed Str)
  | bearer (claims : Claims)
  | cookie (claims : BrowserSessionClaims)
  | challenge (claims : MfaChallengeClaims)

/-- The artefact has been issued to the user with these keys. -/
def IssuedToUser (c : (server).Conf) (userKey actorKey : Str) : Artefact → Prop
  | .code h => ∃ n j row, CodeSavedAt c n j row actorKey ∧ row.codeHash = h
  | .refreshToken h => ∃ n j t, RefreshSavedAt c n j t ∧ t.tokenHash = h ∧ t.userId = actorKey
  | .accessToken h => ∃ n j t, AccessSavedAt c n j t ∧ t.tokenHash = h ∧ t.userId = actorKey
  | .bearer claims => ∃ n j s, SessionCreatedAt c n j s ∧ s.tokenHash = hashBearer claims ∧
      s.userId = actorKey
  | .cookie claims => normalizeUserId claims.sub = userKey ∧
      ∃ n j s, SessionCreatedAt c n j s ∧ s.key = claims.sid ∧ s.userId = actorKey
  | .challenge claims => claims.sub = userKey ∧
      ∃ j method, c.Returned j (.ok (.mfaRequired claims method))

/-- Request number `j` presents the credentials to `authorize`. -/
def PresentsCredentials (c : (server).Conf) (j : Nat) (credentials : AuthorizeCredentials) :
    Prop :=
  ∃ cfg request, c.reqOf j = some ⟨cfg, .authorize request credentials⟩

/-- Request number `j` completes a login with the challenge. -/
def PresentsChallenge (c : (server).Conf) (j : Nat) (claims : MfaChallengeClaims) : Prop :=
  ∃ cfg factor ip, c.reqOf j = some ⟨cfg, .mfaLoginVerify claims factor ip⟩

/-- At place `n` request `j`, which has presented the first artefact, obtains
    the second. A bearer or a cookie is traded for codes of its session and its
    user. No endpoint issues anything for an access token. -/
inductive Trades (c : (server).Conf) (n j : Nat) : Artefact → Artefact → Prop
  | codeForAccess (code : Str) (t : OidcAccessToken) (presents : PresentsCode c j code)
      (saved : AccessSavedAt c n j t) :
      Trades c n j (.code (hashBearer code)) (.accessToken t.tokenHash)
  | codeForRefresh (code : Str) (t : OidcRefreshToken) (presents : PresentsCode c j code)
      (saved : RefreshSavedAt c n j t) :
      Trades c n j (.code (hashBearer code)) (.refreshToken t.tokenHash)
  | refreshForAccess (token : Str) (t : OidcAccessToken) (presents : PresentsRefresh c j token)
      (saved : AccessSavedAt c n j t) :
      Trades c n j (.refreshToken (hashBearer token)) (.accessToken t.tokenHash)
  | refreshForRefresh (token : Str) (t : OidcRefreshToken) (presents : PresentsRefresh c j token)
      (saved : RefreshSavedAt c n j t) :
      Trades c n j (.refreshToken (hashBearer token)) (.refreshToken t.tokenHash)
  | bearerForCode (credentials : AuthorizeCredentials) (claims : Claims)
      (row : OidcAuthorizationCode) (presents : PresentsCredentials c j credentials)
      (presented : credentials.bearer = some claims) (saved : CodeSavedAt c n j row claims.sub)
      (session : row.authSessionRef = claims.sessionId) :
      Trades c n j (.bearer claims) (.code row.codeHash)
  | cookieForCode (credentials : AuthorizeCredentials) (claims : BrowserSessionClaims)
      (row : OidcAuthorizationCode) (actorKey : Str) (e : Entry machine)
      (presents : PresentsCredentials c j credentials)
      (presented : credentials.cookie = some claims) (place : c.trace[n]? = some (j, e))
      (saved : Executes (.code (.save row (normalizeUserId claims.sub))) e)
      (user : subjectOf e.before.db.users (normalizeUserId claims.sub) = some actorKey)
      (session : row.authSessionRef = some claims.sid) :
      Trades c n j (.cookie claims) (.code row.codeHash)
  | challengeForBearer (challenge : MfaChallengeClaims) (s : Session) (claims : Claims)
      (presents : PresentsChallenge c j challenge) (created : SessionCreatedAt c n j s)
      (names : s.tokenHash = hashBearer claims) :
      Trades c n j (.challenge challenge) (.bearer claims)
  | challengeForCookie (challenge : MfaChallengeClaims) (s : Session)
      (claims : BrowserSessionClaims) (presents : PresentsChallenge c j challenge)
      (created : SessionCreatedAt c n j s) (names : s.key = claims.sid)
      (user : normalizeUserId claims.sub = normalizeUserId challenge.sub) :
      Trades c n j (.challenge challenge) (.cookie claims)

section

variable {now : Timestamp} {w : World} {c : (server).Conf} {i j k n m : Nat} {e : Entry machine}

/-! ## Where rows come from -/

/-- A statement that changes something is executed. -/
theorem executes_of_change {s : DbStmt} (hs : e.stmt = .db s)
    (hne : e.after.db ≠ e.before.db) : Executes s e := by
  rcases db_executed e with ⟨s', hs'⟩ | ⟨-, hsame⟩
  · cases hs.symm.trans hs'.stmt
    exact hs'
  · exact absurd hsame hne

/-- What holds before a place, and not in a fresh world, holds since an
    earlier place. -/
theorem holds_since_place {P : World → Prop} (hfresh : ¬ P (World.fresh now))
    (h : Steps (S := server) (World.fresh now) (c.trace.take k) w) (hP : P w) :
    ∃ n j e, n < k ∧ c.trace[n]? = some (j, e) ∧ P e.after ∧ ¬ P e.before ∧
      ∀ m j' e', n < m → m < k → c.trace[m]? = some (j', e') → P e'.after := by
  obtain ⟨n, j, e, hat, hafter, hbefore, hkept⟩ := h.since hP hfresh
  have hn : n < k ∧ c.trace[n]? = some (j, e) := by
    rw [List.getElem?_take] at hat
    split at hat
    · next hlt => exact ⟨hlt, hat⟩
    · cases hat
  refine ⟨n, j, e, hn.1, hn.2, hafter, hbefore, ?_⟩
  intro m j' e' hnm hmk hat'
  apply hkept m j' e' hnm
  rw [List.getElem?_take, if_pos hmk]
  exact hat'

/-- A session in the table was created, and has been there since. -/
theorem session_since {s : Session}
    (h : Steps (S := server) (World.fresh now) (c.trace.take k) w) (hs : s ∈ w.db.sessions) :
    ∃ n j, n < k ∧ SessionCreatedAt c n j s ∧ ∀ m j' e', n < m → m < k →
      c.trace[m]? = some (j', e') → s ∈ e'.after.db.sessions := by
  obtain ⟨n, j, e, hlt, hat, hafter, hbefore, hkept⟩ :=
    holds_since_place (P := fun w => s ∈ w.db.sessions) List.not_mem_nil h hs
  have hcreates : Executes (.session (.create s)) e := by
    rcases session_before hafter with hold | hs
    · exact absurd hold hbefore
    · apply executes_of_change hs
      intro hsame
      exact hbefore (hsame ▸ hafter)
  exact ⟨n, j, hlt, ⟨e, hat, hcreates⟩, hkept⟩

/-- So was an access token. -/
theorem access_since {t : OidcAccessToken}
    (h : Steps (S := server) (World.fresh now) (c.trace.take k) w) (ht : t ∈ w.db.accessTokens) :
    ∃ n j, n < k ∧ AccessSavedAt c n j t ∧ ∀ m j' e', n < m → m < k →
      c.trace[m]? = some (j', e') → t ∈ e'.after.db.accessTokens := by
  obtain ⟨n, j, e, hlt, hat, hafter, hbefore, hkept⟩ :=
    holds_since_place (P := fun w => t ∈ w.db.accessTokens) List.not_mem_nil h ht
  exact ⟨n, j, hlt, ⟨e, hat, (access_before hafter).resolve_left hbefore⟩, hkept⟩

/-- And a refresh token, as long as it has not been used. -/
theorem unused_since {t : OidcRefreshToken} (hunused : t.used = false)
    (h : Steps (S := server) (World.fresh now) (c.trace.take k) w) (ht : t ∈ w.db.refreshTokens) :
    ∃ n j, n < k ∧ RefreshSavedAt c n j t ∧ ∀ m j' e', n < m → m < k →
      c.trace[m]? = some (j', e') → t ∈ e'.after.db.refreshTokens := by
  obtain ⟨n, j, e, hlt, hat, hafter, hbefore, hkept⟩ :=
    holds_since_place (P := fun w => t ∈ w.db.refreshTokens) List.not_mem_nil h ht
  exact ⟨n, j, hlt, ⟨e, hat, (unused_before hafter hunused).resolve_left hbefore⟩, hkept⟩

/-- A refresh token in the table, used or not, was saved with its hash and
    its owner. -/
theorem refresh_savedAt {t : OidcRefreshToken}
    (h : Steps (S := server) (World.fresh now) (c.trace.take k) w) (ht : t ∈ w.db.refreshTokens) :
    ∃ n j t₀, RefreshSavedAt c n j t₀ ∧ t₀.tokenHash = t.tokenHash ∧ t₀.userId = t.userId := by
  have hfresh : ¬ ∃ t₀ ∈ (World.fresh now).db.refreshTokens,
      t₀.tokenHash = t.tokenHash ∧ t₀.userId = t.userId :=
    fun h => absurd h.choose_spec.1 List.not_mem_nil
  obtain ⟨n, j, e, -, hat, ⟨t₁, ht₁, hhash, huser⟩, hbefore, -⟩ :=
    holds_since_place (P := fun w => ∃ t₀ ∈ w.db.refreshTokens,
      t₀.tokenHash = t.tokenHash ∧ t₀.userId = t.userId) hfresh h ⟨t, ht, rfl, rfl⟩
  rcases refresh_before ht₁ with ⟨t₀, ht₀, heq⟩ | hs
  · rw [heq] at hhash huser
    exact absurd ⟨t₀, ht₀, hhash, huser⟩ hbefore
  · refine ⟨n, j, t₁, ⟨e, hat, executes_of_change hs ?_⟩, hhash, huser⟩
    intro hsame
    exact hbefore ⟨t₁, hsame ▸ ht₁, hhash, huser⟩

/-- A code in the table was saved with its hash, for its owner. -/
theorem code_savedAt {row : OidcAuthorizationCode}
    (h : Steps (S := server) (World.fresh now) (c.trace.take k) w) (hrow : row ∈ w.db.codes) :
    ∃ n j saved, CodeSavedAt c n j saved row.userId ∧ saved.codeHash = row.codeHash := by
  have hfresh : ¬ ∃ r ∈ (World.fresh now).db.codes,
      r.codeHash = row.codeHash ∧ r.userId = row.userId :=
    fun h => absurd h.choose_spec.1 List.not_mem_nil
  obtain ⟨n, j, e, -, hat, ⟨r, hr, hhash, huser⟩, hbefore, -⟩ :=
    holds_since_place (P := fun w => ∃ r ∈ w.db.codes, r.codeHash = row.codeHash ∧
      r.userId = row.userId) hfresh h ⟨row, hrow, rfl, rfl⟩
  rcases code_before hr with ⟨r₀, hr₀, huser₀, hsame⟩ | ⟨saved, key, hs, howner, hsaved⟩
  · exact absurd ⟨r₀, hr₀, hsame.codeHash.symm.trans hhash, huser₀.trans huser⟩ hbefore
  · refine ⟨n, j, saved, ⟨e, key, hat, executes_of_change hs ?_, huser ▸ howner⟩,
      hsaved.codeHash.symm.trans hhash⟩
    intro hsame
    exact hbefore ⟨r, hsame ▸ hr, hhash, huser⟩

/-! ## Who wrote a row -/

/-- A text that a request had drawn before a place is among all it draws. -/
theorem token_mem_of_drawn {h : Hashed Str}
    (hd : ∃ text ∈ tokensOf (entriesOf (S := server) i (c.trace.take n)), h = hashBearer text) :
    h.of ∈ tokensOf (entriesOf (S := server) i c.trace) := by
  obtain ⟨text, htext, rfl⟩ := hd
  rw [← List.take_append_drop n c.trace, entriesOf_append, tokensOf_append]
  exact List.mem_append_left _ htext

theorem AccessSavedAt.drawn (hc : Reachable (World.fresh now) c) {t : OidcAccessToken}
    (h : AccessSavedAt c n i t) :
    t.tokenHash.of ∈ tokensOf (entriesOf (S := server) i c.trace) := by
  obtain ⟨e, hat, hs⟩ := h
  obtain ⟨r, -, hissues⟩ := conducted_at hc (split_at hat)
  unfold Conducted at hissues
  rw [hs.stmt] at hissues
  exact token_mem_of_drawn hissues.drawn

theorem RefreshSavedAt.drawn (hc : Reachable (World.fresh now) c) {t : OidcRefreshToken}
    (h : RefreshSavedAt c n i t) :
    t.tokenHash.of ∈ tokensOf (entriesOf (S := server) i c.trace) := by
  obtain ⟨e, hat, hs⟩ := h
  obtain ⟨r, -, hissues⟩ := conducted_at hc (split_at hat)
  unfold Conducted at hissues
  rw [hs.stmt] at hissues
  exact token_mem_of_drawn hissues.drawn

/-- The random text of a token is drawn by one request, which alone saves it. -/
theorem AccessSavedAt.request_unique (hc : Reachable (World.fresh now) c)
    {t t' : OidcAccessToken} (h : AccessSavedAt c n i t) (h' : AccessSavedAt c m j t')
    (hhash : t.tokenHash = t'.tokenHash) : i = j :=
  draws_thread isDraw_token hc (h.drawn hc) (hhash ▸ h'.drawn hc)

theorem RefreshSavedAt.request_unique (hc : Reachable (World.fresh now) c)
    {t t' : OidcRefreshToken} (h : RefreshSavedAt c n i t) (h' : RefreshSavedAt c m j t')
    (hhash : t.tokenHash = t'.tokenHash) : i = j :=
  draws_thread isDraw_token hc (h.drawn hc) (hhash ▸ h'.drawn hc)

/-- The key of a session is drawn by the request that creates it. -/
theorem SessionCreatedAt.request_unique (hc : Reachable (World.fresh now) c) {s : Session}
    (h : SessionCreatedAt c n i s) (h' : SessionCreatedAt c m j s) : i = j := by
  have hdrawn : ∀ {n i}, SessionCreatedAt c n i s →
      s.key ∈ uuidsOf (entriesOf (S := server) i c.trace) := by
    intro n i hs
    obtain ⟨e, hat, hs⟩ := hs
    obtain ⟨r, -, hopens⟩ := conducted_at hc (split_at hat)
    unfold Conducted at hopens
    rw [hs.stmt] at hopens
    rw [← List.take_append_drop n c.trace, entriesOf_append, uuidsOf_append]
    exact List.mem_append_left _ hopens.keyDrawn
  exact draws_thread isDraw_uuid hc (hdrawn h) (hdrawn h')

theorem SessionCreatedAt.opened {s : Session} (h : SessionCreatedAt c n j s) : Opened c s := by
  obtain ⟨e, hat, hs⟩ := h
  exact ⟨j, e, List.mem_of_getElem? hat, hs.stmt⟩

/-- A code is saved at one place, for one owner. -/
theorem CodeSavedAt.owner_unique (hc : Reachable (World.fresh now) c)
    {row row' : OidcAuthorizationCode} {a a' : Str} (h : CodeSavedAt c n i row a)
    (h' : CodeSavedAt c m j row' a') (hhash : row.codeHash = row'.codeHash) : a = a' := by
  have hissues : ∀ {n i a e key} {row : OidcAuthorizationCode}, c.trace[n]? = some (i, e) →
      Executes (.code (.save row key)) e → subjectOf e.before.db.users key = some a →
      IssuesAt tokenOf c .saveCode row.codeHash.of n i e := by
    intro n i a e key row hat hs _
    obtain ⟨r, -, hconduct⟩ := conducted_at hc (split_at hat)
    unfold Conducted at hconduct
    rw [hs.stmt] at hconduct
    obtain ⟨request, credentials, -, hgrants⟩ := hconduct
    obtain ⟨text, htext, heq⟩ := hgrants.drawn
    exact ⟨hat, by rw [hs.stmt]; rfl, by rw [heq]; exact htext, hgrants.once⟩
  obtain ⟨e, key, hat, hs, howner⟩ := h
  obtain ⟨e', key', hat', hs', howner'⟩ := h'
  have hfirst := hissues hat hs howner
  have hsecond := hissues hat' hs' howner'
  rw [hhash] at hfirst
  obtain rfl := hfirst.unique isDraw_token hc hsecond
  cases hat.symm.trans hat'
  cases hs.stmt.symm.trans hs'.stmt
  exact Option.some.inj (howner.symm.trans howner')

/-! ## What a request presented -/

/-- Before place `n` request `j` has redeemed an artefact of the owner. -/
def RedeemedFor (c : (server).Conf) (n j : Nat) (owner : Str) : Prop :=
  ∃ cfg request clientId userId scope, c.reqOf j = some ⟨cfg, .token request⟩ ∧
    owner = normalizeActorId userId ∧
    Redeemed request (entriesOf (S := server) j (c.trace.take n)) clientId userId scope

theorem AccessSavedAt.redeemed (hc : Reachable (World.fresh now) c) {t : OidcAccessToken}
    (h : AccessSavedAt c n j t) : RedeemedFor c n j t.userId := by
  obtain ⟨e, hat, hs⟩ := h
  obtain ⟨⟨cfg, endpoint⟩, hreq, hissues⟩ := conducted_at hc (split_at hat)
  unfold Conducted at hissues
  rw [hs.stmt] at hissues
  obtain ⟨request, userId, rfl, howner, hredeemed⟩ := hissues.redeemed
  exact ⟨cfg, request, _, userId, _, hreq, howner, hredeemed⟩

theorem RefreshSavedAt.redeemed (hc : Reachable (World.fresh now) c) {t : OidcRefreshToken}
    (h : RefreshSavedAt c n j t) : RedeemedFor c n j t.userId := by
  obtain ⟨e, hat, hs⟩ := h
  obtain ⟨⟨cfg, endpoint⟩, hreq, hissues⟩ := conducted_at hc (split_at hat)
  unfold Conducted at hissues
  rw [hs.stmt] at hissues
  obtain ⟨request, userId, rfl, howner, hredeemed⟩ := hissues.redeemed
  exact ⟨cfg, request, _, userId, _, hreq, howner, hredeemed⟩

/-- Tokens for a code belong to the owner of the code. -/
theorem RedeemedFor.owner_of_code (hc : Reachable (World.fresh now) c) {owner code a : Str}
    {row : OidcAuthorizationCode} (h : RedeemedFor c n j owner) (hp : PresentsCode c j code)
    (hsaved : CodeSavedAt c m i row a) (hhash : row.codeHash = hashBearer code)
    (hplain : normalizeActorId (actorAddress a) = a) : owner = a := by
  obtain ⟨cfg, request, clientId, userId, scope, hreq, rfl, hredeemed⟩ := h
  obtain ⟨cfg', request', hreq', hgrant, hcode⟩ := hp
  cases hreq.symm.trans hreq'
  cases hredeemed with
  | code code' client read accepted won =>
    obtain rfl : code' = code := Option.some.inj (accepted.presented.symm.trans hcode)
    obtain ⟨k, e, hlt, hat, hread⟩ := heard_before accepted.rowRead
    have hreply := hread.reply
    simp only [DbStmt.exec, CodeStmt.exec, Except.ok.injEq, Option.map_eq_some_iff] at hreply
    obtain ⟨stored, hfind, rfl⟩ := hreply
    have hstored : stored.codeHash = hashBearer code' := by simpa using List.find?_some hfind
    obtain ⟨l, k', saved, hsaved', hhash'⟩ :=
      code_savedAt (steps_before hc hat) (List.mem_of_find?_eq_some hfind)
    have howner := hsaved'.owner_unique hc hsaved
      (hhash'.trans (hstored.trans hhash.symm))
    show normalizeActorId (actorAddress stored.userId) = a
    rw [howner, hplain]
  | refresh token scope client stored accepted won narrowed =>
    exact absurd (accepted.grant.symm.trans hgrant) (by decide)

/-- What a request that presents a refresh token has done before it saves a
    token: it consumed the row, which was there unused, and the new token is
    for the owner of a row with this hash. -/
structure Rotated (c : (server).Conf) (n j : Nat) (token owner : Str) : Prop where
  consumed : ∃ k e r, k < n ∧ c.trace[k]? = some (j, e) ∧
    Answered (.refreshToken (.consume (hashBearer token))) 1 e ∧
    r ∈ e.before.db.refreshTokens ∧ r.used = false ∧ r.tokenHash = hashBearer token
  saved : ∃ m i t, RefreshSavedAt c m i t ∧ t.tokenHash = hashBearer token ∧
    owner = normalizeActorId (actorAddress t.userId)

theorem RedeemedFor.rotated (hc : Reachable (World.fresh now) c) {owner token : Str}
    (h : RedeemedFor c n j owner) (hp : PresentsRefresh c j token) : Rotated c n j token owner := by
  obtain ⟨cfg, request, clientId, userId, scope, hreq, rfl, hredeemed⟩ := h
  obtain ⟨cfg', request', hreq', hgrant, htoken⟩ := hp
  cases hreq.symm.trans hreq'
  cases hredeemed with
  | code code client row accepted won =>
    exact absurd (accepted.grant.symm.trans hgrant) (by decide)
  | refresh token' scope client stored accepted won narrowed =>
    obtain rfl : token' = token := Option.some.inj (accepted.presented.symm.trans htoken)
    constructor
    · obtain ⟨k, e, hlt, hat, hwon⟩ := heard_before won
      have hone : e.before.db.refreshTokens.countP
          (OidcRefreshToken.isUnused (hashBearer token')) = 1 := by
        simpa [DbStmt.exec, RefreshTokenStmt.exec] using hwon.reply
      obtain ⟨r, hr, hunused⟩ := List.countP_pos_iff.mp (by rw [hone]; exact Nat.one_pos)
      obtain ⟨hhash, hused⟩ := Bool.and_eq_true_iff.mp hunused
      exact ⟨k, e, r, hlt, hat, hwon, hr, by simpa using hused, by simpa using hhash⟩
    · obtain ⟨k, e, hlt, hat, hread⟩ := heard_before accepted.storedRead
      have hreply := hread.reply
      simp only [DbStmt.exec, RefreshTokenStmt.exec, Except.ok.injEq,
        Option.map_eq_some_iff] at hreply
      obtain ⟨row, hfind, rfl⟩ := hreply
      have hhash : row.tokenHash = hashBearer token' := by simpa using List.find?_some hfind
      obtain ⟨m, i, t, hsaved, hhash', huser⟩ :=
        refresh_savedAt (steps_before hc hat) (List.mem_of_find?_eq_some hfind)
      exact ⟨m, i, t, hsaved, hhash'.trans hhash, by rw [huser]⟩

/-- The account for which a challenge is completed. -/
theorem SessionCreatedAt.challenged (hc : Reachable (World.fresh now) c) {s : Session}
    {challenge : MfaChallengeClaims} (h : SessionCreatedAt c n j s)
    (hp : PresentsChallenge c j challenge) :
    ∃ u, Seen c u ∧ u.subjectId = some s.userId ∧ u.key = idArgumentKey challenge.sub := by
  obtain ⟨e, hat, hs⟩ := h
  obtain ⟨cfg, factor, ip, hreq⟩ := hp
  obtain ⟨r, hr, hopens⟩ := conducted_at hc (split_at hat)
  obtain rfl := Option.some.inj (hr.symm.trans hreq)
  unfold Conducted at hopens
  rw [hs.stmt] at hopens
  rcases hopens.owner with ⟨proof, hproof, -⟩ | ⟨u, hread, howner, -, hkey, -⟩
  · cases hproof
  · exact ⟨u, seen_of_lastUserRead (split_at hat) hread, howner, hkey⟩

/-- A statement that asks whether a session is live. -/
def Stmt.ChecksSession (s : Stmt) : Prop :=
  (∃ h t, s = .db (.session (.isActive h t))) ∨ ∃ key t, s = .db (.session (.isActiveByKey key t))

/-- Before it saves a code, `authorize` has found the session to which the
    code refers. -/
theorem CodeSavedAt.checked (hc : Reachable (World.fresh now) c) {a : Str}
    {row : OidcAuthorizationCode} (h : CodeSavedAt c n j row a) :
    ∃ (sid : Str) (k : Nat) (e : Entry machine) (s : Session),
      row.authSessionRef = some sid ∧ c.trace[k]? = some (j, e) ∧
      e.stmt.ChecksSession ∧ s ∈ e.before.db.sessions ∧ s.key = sid := by
  obtain ⟨e₁, key, hat, hs, -⟩ := h
  obtain ⟨r, -, hconduct⟩ := conducted_at hc (split_at hat)
  unfold Conducted at hconduct
  rw [hs.stmt] at hconduct
  obtain ⟨request, credentials, -, hgrants⟩ := hconduct
  obtain ⟨u, sid, -, -, -, href, hvouched⟩ := hgrants.owner
  cases hvouched with
  | bearer claims x t presented session live passed linked =>
    obtain ⟨k, e, -, hat', hactive⟩ := heard_before live
    obtain ⟨s, hs', htoken⟩ := live_session hactive
    obtain ⟨-, hsid⟩ := (opened_of_mem hc (List.mem_of_getElem? hat') hs').bearer hc htoken
    exact ⟨sid, k, e, s, href, hat', .inl ⟨_, _, hactive.stmt⟩, hs',
      Option.some.inj (hsid.symm.trans session)⟩
  | cookie claims t presented session live user =>
    obtain ⟨k, e, -, hat', hactive⟩ := heard_before live
    have hreply := hactive.reply
    simp only [DbStmt.exec, SessionStmt.exec, Except.ok.injEq] at hreply
    obtain ⟨s, hs', hlive⟩ := List.any_eq_true.mp hreply
    exact ⟨sid, k, e, s, href, hat', .inr ⟨_, _, hactive.stmt⟩, hs',
      by simpa using (Bool.and_eq_true_iff.mp hlive).1⟩

end

end

end SoulAuth
