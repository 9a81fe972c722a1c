import SoulAuth.Framework.Alone
import SoulAuth.Proofs.Tables

/-! # Refreshes that end in an error

The grant uses the presented token up, deletes the access token it was
issued with, and only then looks at the scope, the user and the session.
Nothing puts the token back when one of these is found wanting.
-/

namespace SoulAuth

open Framework Framework.Prog

section

variable [Platform]

/-! ## Runs without failing statements -/

/-- Every statement on the database has answered. -/
def Sound (t : List (Entry machine)) : Prop :=
  ∀ e ∈ t, ∀ s, e.stmt = .db s → ∃ a, Answered s a e

/-- The outcome, the world and the statements of a grant that is on its
    own. -/
def grantAlone (cfg : Config) (request : TokenRequest) (cs : Nat → Ctx) (w : World) :
    Except OidcError TokenResponse × World × List (Entry machine) :=
  (handleRefreshTokenGrant cfg request).runAlone cs w

/-! ## The request and its token -/

/-- The request presents the token with this row: not used, not expired,
    and issued to the client of the request. -/
structure Presents (request : TokenRequest) (stored : OidcRefreshToken) (w : World) : Prop where
  found : ∃ token, request.refreshToken = some token ∧
    w.db.refreshTokens.find? (fun r => r.tokenHash = hashBearer token) = some stored
  unused : stored.used = false
  issuedTo : stored.clientId = request.clientIdStr
  unexpired : ¬ stored.expiresAt < w.now

/-- The client of the request is active, it is who it says, and it may
    refresh. -/
def Served (request : TokenRequest) (db : Db) : Prop :=
  ∃ client, db.clients.find? (fun c => c.clientId = request.clientIdStr && c.isActive) =
      some client ∧ client.admits request.clientSecret = .ok () ∧
    .refreshToken ∈ client.allowedGrantTypes

/-- The time at which the grant checks the expiry: it has looked for the
    client and for the token by then. -/
def checkedAt (cs : Nat → Ctx) (w : World) : Timestamp :=
  w.now + (cs 0).elapsed + (cs 1).elapsed + (cs 2).elapsed

/-- The token is unused, its access token is there, and there are no other
    tokens than before. -/
structure Untouched (stored : OidcRefreshToken) (db db' : Db) : Prop where
  unused : ∃ r ∈ db'.refreshTokens, r.tokenHash = stored.tokenHash ∧ r.used = false
  access : ∀ r ∈ db.accessTokens, r.tokenHash = stored.accessTokenHash → r ∈ db'.accessTokens
  noAccess : ∀ r ∈ db'.accessTokens, ∃ r₀ ∈ db.accessTokens, r₀.tokenHash = r.tokenHash
  noRefresh : ∀ r ∈ db'.refreshTokens, ∃ r₀ ∈ db.refreshTokens, r₀.tokenHash = r.tokenHash

/-- The token has a row, and all its rows are used. -/
structure Consumed (h : Hashed Str) (db : Db) : Prop where
  there : ∃ r ∈ db.refreshTokens, r.tokenHash = h
  used : ∀ r ∈ db.refreshTokens, r.tokenHash = h → r.used = true

section

variable {cfg : Config} {request : TokenRequest} {stored : OidcRefreshToken} {w : World}
  {h : Hashed Str} {e : Entry machine}

omit [Platform] in
theorem Presents.mem (hp : Presents request stored w) : stored ∈ w.db.refreshTokens := by
  obtain ⟨token, -, hfind⟩ := hp.found
  exact List.mem_of_find?_eq_some hfind

omit [Platform] in
/-- A grant that has written nothing leaves everything as it was. -/
theorem Presents.untouched (hp : Presents request stored w) : Untouched stored w.db w.db where
  unused := ⟨stored, hp.mem, rfl, hp.unused⟩
  access _ hr _ := hr
  noAccess r hr := ⟨r, hr, rfl⟩
  noRefresh r hr := ⟨r, hr, rfl⟩

omit [Platform] in
theorem Consumed.not_untouched {db db' : Db} (hc : Consumed stored.tokenHash db') :
    ¬ Untouched stored db db' := by
  intro hu
  obtain ⟨r, hr, hhash, hunused⟩ := hu.unused
  have hused := hc.used r hr hhash
  rw [hunused] at hused
  cases hused

/-! ## A consumed token stays consumed -/

/-- What the grant writes after its checks. -/
def grantEffects : List Effect := [.consumeRefresh, .deleteAccess, .saveAccess, .saveRefresh]

omit [Platform] in
/-- The conditional update uses every row of the token up, and it leaves the
    rows that are used. -/
theorem consumed_of_exec (users : List User) {rows : List OidcRefreshToken} {k : Hashed Str}
    {r₀ : OidcRefreshToken} (hr₀ : r₀ ∈ rows) (hhash₀ : r₀.tokenHash = h)
    (hused : ∀ r ∈ rows, r.tokenHash = h → r.isUnused k = false → r.used = true) :
    let rows' := (RefreshTokenStmt.exec users (.consume k) rows).2
    (∃ r ∈ rows', r.tokenHash = h) ∧ ∀ r ∈ rows', r.tokenHash = h → r.used = true := by
  constructor
  · refine ⟨_, List.mem_map_of_mem hr₀, ?_⟩
    by_cases hunused : r₀.isUnused k
    · rw [if_pos hunused]
      exact hhash₀
    · rw [if_neg hunused]
      exact hhash₀
  · intro r hr hhash
    obtain ⟨r₁, hr₁, rfl⟩ := List.mem_map.mp hr
    by_cases hunused : r₁.isUnused k
    · rw [if_pos hunused]
    · rw [if_neg hunused] at hhash ⊢
      exact hused r₁ hr₁ hhash (by simpa using hunused)

theorem consumed_of_answered {n : Nat} (ha : Answered (.refreshToken (.consume h)) n e)
    (hthere : ∃ r ∈ e.before.db.refreshTokens, r.tokenHash = h) : Consumed h e.after.db := by
  obtain ⟨r₀, hr₀, hhash₀⟩ := hthere
  have hconsumed := consumed_of_exec e.before.db.users (k := h) hr₀ hhash₀ (by
    intro r _ hhash hunused
    simpa [OidcRefreshToken.isUnused, hhash] using hunused)
  rw [ha.after]
  exact ⟨hconsumed.1, hconsumed.2⟩

theorem Consumed.kept (hw : e.stmt.Within grantEffects) (hc : Consumed h e.before.db) :
    Consumed h e.after.db := by
  rcases refreshTokens_after e with hsame | ⟨s, hs, hafter⟩
  · exact ⟨hsame ▸ hc.there, hsame ▸ hc.used⟩
  have hwithin : ∀ x, (DbStmt.refreshToken s).effect = some x → x ∈ grantEffects := by
    intro x hx
    apply hw x
    rw [hs]
    exact hx
  obtain ⟨⟨r₀, hr₀, hhash₀⟩, hused⟩ := hc
  cases s with
  | get _ => exact ⟨hafter ▸ ⟨r₀, hr₀, hhash₀⟩, hafter ▸ hused⟩
  | consume k =>
    have hconsumed := consumed_of_exec e.before.db.users (k := k) hr₀ hhash₀
      fun r hr hhash _ => hused r hr hhash
    exact ⟨hafter ▸ hconsumed.1, hafter ▸ hconsumed.2⟩
  | save t =>
    -- a token with the same hash is refused
    simp only [RefreshTokenStmt.exec] at hafter
    split at hafter
    · exact ⟨hafter ▸ ⟨r₀, hr₀, hhash₀⟩, hafter ▸ hused⟩
    · next hnew =>
      constructor
      · exact ⟨r₀, hafter ▸ List.mem_append_left _ hr₀, hhash₀⟩
      · intro r hr hhash
        rw [hafter, List.mem_append, List.mem_singleton] at hr
        rcases hr with hr | rfl
        · exact hused r hr hhash
        · exact absurd (List.any_eq_true.mpr ⟨r₀, hr₀, by simp [hhash₀, hhash]⟩) hnew
  | revokeForClient _ _ => exact absurd (hwithin .deleteRefresh rfl) (by decide)
  | revokeAll _ => exact absurd (hwithin .deleteRefresh rfl) (by decide)
  | deleteExpired _ => exact absurd (hwithin .deleteRefresh rfl) (by decide)

/-! ## The grant alone -/

section

variable {α : Type} {Q : Except OidcError α → World → List (Entry machine) → Prop}

theorem sound_cons {t : List (Entry machine)} (hs : Sound (e :: t)) : Sound t :=
  fun e' he' => hs e' (List.mem_cons_of_mem _ he')

/-- In a sound run a query has its answer. -/
theorem alone_query_bind {s : DbStmt} {f : s.Reply → Req OidcError α}
    (hok : ∀ e a, Answered s a e → e.before = w →
      Alone (f a) e.after fun r w' t => Sound t → Q r w' (e :: t)) :
    Alone (query s >>= f) w fun r w' t => Sound t → Q r w' t := by
  rw [query_bind]
  apply alone_step
  intro ctx
  by_cases hanswered : ∃ a, Answered s a ⟨ctx, .db s, w⟩
  · obtain ⟨a, ha⟩ := hanswered
    have hresp : (Stmt.exec ctx (.db s) w).1 = .ok a := by
      have hsound : ctx.fault = none := ha.sound
      have hreply := ha.reply
      unfold Stmt.exec
      rw [hsound]
      exact hreply
    show Alone (onResponse f (Stmt.exec ctx (.db s) w).1) _ _
    rw [hresp]
    exact Alone.weaken (hok _ a ha rfl) fun r w' t hq hs => hq (sound_cons hs)
  · intro cs hs
    exact absurd (hs _ List.mem_cons_self s rfl) hanswered

theorem alone_getNow_bind {f : Timestamp → Req OidcError α}
    (hok : ∀ e, SawTime (clock e) e → e.before = w →
      Alone (f (clock e)) e.after fun r w' t => Sound t → Q r w' (e :: t)) :
    Alone (getNow >>= f) w fun r w' t => Sound t → Q r w' t := by
  apply alone_step
  intro ctx
  exact Alone.weaken (hok ⟨ctx, .now, w⟩ ⟨rfl, rfl⟩ rfl) fun r w' t hq hs => hq (sound_cons hs)

end

/-- Once the grant has used the token up, nothing that it still does brings
    the token back. -/
theorem alone_consume_bind {α : Type} {f : Nat → Req OidcError α}
    (hthere : ∃ r ∈ w.db.refreshTokens, r.tokenHash = h)
    (hf : ∀ n, Within grantEffects (f n)) :
    Alone (query (.refreshToken (.consume h)) >>= f) w fun _ w' t =>
      Sound t → Consumed h w'.db := by
  apply alone_query_bind
  intro e n ha hbefore
  have hconsumed : Consumed h e.after.db := by
    apply consumed_of_answered ha
    rw [hbefore]
    exact hthere
  have hkept := (hf n).alone (P := fun w => Consumed h w.db) (fun _ => Consumed.kept) hconsumed
  exact hkept.weaken fun _ _ _ hc _ => hc

/-- What a grant that presents a good token has done when it ends. -/
inductive GrantEnds (request : TokenRequest) (stored : OidcRefreshToken) (w w' : World) :
    List (Entry machine) → Prop
  | refused (t : List (Entry machine)) (client : ¬ Served request w.db)
      (db : w'.db = w.db) : GrantEnds request stored w w' t
  | checked (e₁ e₂ e₃ : Entry machine) (t : List (Entry machine)) (client : Served request w.db)
      (time : clock e₃ = w.now + e₁.ctx.elapsed + e₂.ctx.elapsed + e₃.ctx.elapsed)
      (expired : stored.expiresAt < clock e₃ → w'.db = w.db)
      (consumed : ¬ stored.expiresAt < clock e₃ → Consumed stored.tokenHash w'.db) :
      GrantEnds request stored w w' (e₁ :: e₂ :: e₃ :: t)

theorem handleRefreshTokenGrant_alone (hp : Presents request stored w) :
    Alone (handleRefreshTokenGrant cfg request) w fun _ w' t =>
      Sound t → GrantEnds request stored w w' t := by
  obtain ⟨token, htoken, hfind⟩ := hp.found
  unfold handleRefreshTokenGrant authenticateClient getClient getRefreshToken
    consumeRefreshTokenByHash
  simp only [bind_assoc, pure_bind]
  apply alone_orThrow_bind
  swap
  · intro hnone
    cases htoken.symm.trans hnone
  intro token' htoken'
  cases htoken.symm.trans htoken'
  -- the client
  apply alone_query_bind
  intro e₁ row ha₁ hbefore₁
  have hdb₁ : e₁.after.db = w.db := by rw [ha₁.after, hbefore₁]; rfl
  have hrow : w.db.clients.find? (fun c => c.clientId = request.clientIdStr && c.isActive) = row := by
    have hreply := ha₁.reply
    rw [hbefore₁] at hreply
    exact Except.ok.inj hreply
  apply alone_orThrow_bind
  swap
  · intro hnone _
    refine .refused _ ?_ hdb₁
    intro hserves
    obtain ⟨client, hclient, -⟩ := hserves
    cases hclient.symm.trans (hrow.trans hnone)
  intro client hclient
  have hserved : Served request w.db ↔
      client.admits request.clientSecret = .ok () ∧ .refreshToken ∈ client.allowedGrantTypes := by
    constructor
    · intro hserved
      obtain ⟨client', hclient', hadmits⟩ := hserved
      cases (hrow.trans hclient).symm.trans hclient'
      exact hadmits
    · intro hadmits
      exact ⟨client, hrow.trans hclient, hadmits⟩
  apply alone_ofExcept_bind
  swap
  · intro x hrefuses _
    refine .refused _ ?_ hdb₁
    rw [hserved]
    intro hadmits
    cases hrefuses.symm.trans hadmits.1
  intro _ hadmits
  apply alone_ensure_bind
  swap
  · intro hdenied _
    refine .refused _ ?_ hdb₁
    rw [hserved]
    intro hallowed
    exact hdenied hallowed.2
  intro hallowed
  -- the token
  apply Alone.weaken (Q := fun _ w' t => Sound t → GrantEnds request stored w w' (e₁ :: t))
    ?_ fun _ _ _ hq => hq
  apply alone_query_bind
  intro e₂ row₂ ha₂ hbefore₂
  have hdb₂ : e₂.after.db = w.db := by rw [ha₂.after, hbefore₂, ← hdb₁]; rfl
  have hrow₂ : row₂ = some { stored with userId := actorAddress stored.userId } := by
    have hreply := ha₂.reply
    simp only [hbefore₂, DbStmt.exec, RefreshTokenStmt.exec, hdb₁, hfind] at hreply
    exact (Except.ok.inj hreply).symm
  rw [hrow₂]
  apply alone_orThrow_bind
  swap
  · intro hnone
    cases hnone
  intro row hsome
  cases hsome
  apply alone_ensure_bind
  swap
  · intro hother
    exact absurd hp.issuedTo hother
  intro _
  -- the time
  apply Alone.weaken (Q := fun _ w' t => Sound t → GrantEnds request stored w w' (e₁ :: e₂ :: t))
    ?_ fun _ _ _ hq => hq
  apply alone_getNow_bind
  intro e₃ hsaw hbefore₃
  have hdb₃ : e₃.after.db = w.db := by
    rw [← hdb₂, ← hbefore₃]
    obtain ⟨ctx, s, w₃⟩ := e₃
    obtain ⟨rfl, -⟩ := hsaw
    rfl
  have htime : clock e₃ = w.now + e₁.ctx.elapsed + e₂.ctx.elapsed + e₃.ctx.elapsed := by
    unfold clock
    rw [hbefore₃, after_now, clock, hbefore₂, after_now, clock, hbefore₁]
  apply alone_ensure_bind
  swap
  · intro hexpired _
    have hlate : stored.expiresAt < clock e₃ := by simpa using hexpired
    exact .checked e₁ e₂ e₃ [] (hserved.mpr ⟨hadmits, hallowed⟩) htime (fun _ => hdb₃)
      fun hearly => absurd hlate hearly
  intro hearly
  have hunexpired : ¬ stored.expiresAt < clock e₃ := hearly
  rw [if_neg (by rw [hp.unused]; decide)]
  refine (alone_consume_bind (h := stored.tokenHash) ?_ ?_).weaken ?_
  · exact ⟨stored, hdb₃ ▸ hp.mem, rfl⟩
  · intro n
    refine .bind within_ensure fun _ => .bind (within_write rfl (by decide)) fun _ => ?_
    exact .bind within_ofExcept fun _ => generateTokens_within (by decide) (by decide)
  · intro _ _ _ hconsumed hs
    exact .checked e₁ e₂ e₃ _ (hserved.mpr ⟨hadmits, hallowed⟩) htime
      (fun hlate => absurd hlate hunexpired) fun _ => hconsumed hs

/-- **Refreshes that fail.** A refresh that presents a good token and has all
    its statements answered leaves the token, its access token and the
    tables of tokens as they were exactly if it is refused before the token
    is used up: the client is not served, or the token has expired when it
    is checked. After any other error the token is lost. -/
theorem refresh_untouched_iff (cs : Nat → Ctx) (hp : Presents request stored w)
    (hsound : Sound (grantAlone cfg request cs w).2.2) :
    Untouched stored w.db (grantAlone cfg request cs w).2.1.db ↔
      ¬ Served request w.db ∨ stored.expiresAt < checkedAt cs w := by
  have hends : GrantEnds request stored w (grantAlone cfg request cs w).2.1
      (grantAlone cfg request cs w).2.2 := handleRefreshTokenGrant_alone hp cs hsound
  have hctx : ∀ i e, (grantAlone cfg request cs w).2.2[i]? = some e → e.ctx = cs i := by
    intro i e hat
    exact runAlone_ctx hat
  generalize grantAlone cfg request cs w = run at hends hctx ⊢
  obtain ⟨r, w', t⟩ := run
  cases hends with
  | refused _ client db =>
    have huntouched : Untouched stored w.db w'.db := by
      rw [db]
      exact hp.untouched
    exact ⟨fun _ => .inl client, fun _ => huntouched⟩
  | checked e₁ e₂ e₃ t client time expired consumed =>
    have hclock : clock e₃ = checkedAt cs w := by
      rw [time, hctx 0 e₁ rfl, hctx 1 e₂ rfl, hctx 2 e₃ rfl]
      rfl
    rw [hclock] at expired consumed
    constructor
    · intro huntouched
      by_cases hlate : stored.expiresAt < checkedAt cs w
      · exact .inr hlate
      · exact absurd huntouched (consumed hlate).not_untouched
    · intro hrefused
      have hlate : stored.expiresAt < checkedAt cs w := by
        rcases hrefused with hclient | hlate
        · exact absurd client hclient
        · exact hlate
      show Untouched stored w.db w'.db
      rw [expired hlate]
      exact hp.untouched

end

end

namespace Sample

/-- A refresh by the client of Alice, in the world that the exchange of her
    code has left. -/
def aliceRotation : TokenRequest := rotation (numbered 't' 13)

/-- The row of the refresh token that a request presents. -/
def rowOf (request : TokenRequest) (w : World) : Option OidcRefreshToken :=
  request.refreshToken.bind fun token =>
    w.db.refreshTokens.find? fun r => r.tokenHash = hashBearer token

def presentsGood (request : TokenRequest) (w : World) : Bool :=
  (rowOf request w).any fun r =>
    !r.used && r.clientId = request.clientIdStr && !(r.expiresAt < w.now)

theorem presents_of {request : TokenRequest} {w : World} (h : presentsGood request w = true) :
    ∃ stored, Presents request stored w := by
  unfold presentsGood at h
  rcases hrow : rowOf request w with _ | stored
  · rw [hrow] at h
    cases h
  · simp only [hrow, Option.any_some, Bool.and_eq_true, Bool.not_eq_true', decide_eq_true_eq,
      decide_eq_false_iff_not] at h
    obtain ⟨token, htoken, hfind⟩ := Option.bind_eq_some_iff.mp hrow
    exact ⟨stored, ⟨token, htoken, hfind⟩, h.1.1, h.1.2, h.2⟩

/-- Whether a statement on the database has been answered. -/
def answeredEntry : Entry machine → Bool
  | ⟨ctx, .db s, w⟩ => ctx.fault = none && (s.exec (w.now + ctx.elapsed) w.db).1.toBool
  | _ => true

theorem sound_of {t : List (Entry machine)} (h : t.all answeredEntry = true) : Sound t := by
  intro e he s hs
  have hanswered := List.all_eq_true.mp h e he
  obtain ⟨ctx, s', w⟩ := e
  obtain rfl : s' = .db s := hs
  simp only [answeredEntry, Bool.and_eq_true, decide_eq_true_eq] at hanswered
  cases hreply : (s.exec (w.now + ctx.elapsed) w.db).1 with
  | ok a => exact ⟨a, rfl, hanswered.1, hreply⟩
  | error x =>
    rw [hreply] at hanswered
    cases hanswered.2

/-- The client presents a wrong secret. -/
def unauthenticated : TokenRequest := { aliceRotation with clientSecret := some [] }

theorem refresh_untouched_unauthenticated :
    ∃ stored, Presents unauthenticated stored (after exchanged).state ∧
      Untouched stored (after exchanged).state.db
        (grantAlone config unauthenticated (fun _ => Ctx.calm) (after exchanged).state).2.1.db := by
  obtain ⟨stored, hp⟩ : ∃ stored, Presents unauthenticated stored (after exchanged).state :=
    presents_of (by decide +kernel)
  refine ⟨stored, hp, (refresh_untouched_iff _ hp (sound_of (by decide +kernel))).mpr (.inl ?_)⟩
  intro hserved
  obtain ⟨client, hclient, hadmits, -⟩ := hserved
  have hrefused : ((after exchanged).state.db.clients.find? fun c =>
      c.clientId = unauthenticated.clientIdStr && c.isActive).all (fun c =>
        !(c.admits unauthenticated.clientSecret).toBool) = true := by decide +kernel
  rw [hclient] at hrefused
  simp only [Option.all_some, hadmits] at hrefused
  cases hrefused

/-- The client asks for more than the user has granted. -/
def excessive : TokenRequest := { aliceRotation with scope := some "openid email".toList }

/-- The client is refused the scope, and its refresh token is gone. -/
theorem refresh_error_untouched_fails : ¬ ∀ (cfg : Config) (request : TokenRequest)
    (stored : OidcRefreshToken) (cs : Nat → Ctx) (w : World) (x : OidcError),
    Presents request stored w → (grantAlone cfg request cs w).1 = .error x →
    Sound (grantAlone cfg request cs w).2.2 →
    Untouched stored w.db (grantAlone cfg request cs w).2.1.db := by
  intro hall
  obtain ⟨stored, hp⟩ : ∃ stored, Presents excessive stored (after exchanged).state :=
    presents_of (by decide +kernel)
  have hfails : (grantAlone config excessive (fun _ => Ctx.calm) (after exchanged).state).1 =
      .error (.message "Requested scope exceeds the original grant") := by decide +kernel
  obtain ⟨r, hr, -, hunused⟩ := (hall config excessive stored (fun _ => Ctx.calm) _ _ hp hfails
    (sound_of (by decide +kernel))).unused
  have hlost : (grantAlone config excessive (fun _ => Ctx.calm)
      (after exchanged).state).2.1.db.refreshTokens.all (fun r => r.used) = true := by
    decide +kernel
  have hused := List.all_eq_true.mp hlost r hr
  rw [hunused] at hused
  cases hused

end Sample

end SoulAuth
