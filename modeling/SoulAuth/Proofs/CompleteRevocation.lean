import SoulAuth.Proofs.ReplayRevocation

/-! # Logging out everywhere

`logout_all` and `reset_password` delete the sessions and the tokens of a
user. Codes and challenges are not deleted, and a request that has passed its
check or has consumed its artefact goes on, so that what was issued before can
yield tokens and sessions afterwards. Nothing else can.
-/

namespace SoulAuth

open Framework Framework.System

section

variable [Platform]

/-! ## The operation -/

/-- The user is there, with this actor. -/
def IsUser (c : (server).Conf) (userKey actorKey : Str) : Prop :=
  ∃ u ∈ c.state.db.users, u.key = userKey ∧ u.subjectId = some actorKey

/-- Request `i` has ended the access of the user: a `logout_all`, or a
    `reset_password` of its account. -/
inductive EndsAccess (c : (server).Conf) (i : Nat) (userKey : Str) : Prop
  | logoutAll (cfg : Config) (request : c.reqOf i = some ⟨cfg, .logoutAll userKey⟩)
      (returned : c.Returned i (.ok .ok))
  | resetPassword (cfg : Config) (token newPassword : Str) (u : User)
      (request : c.reqOf i = some ⟨cfg, .resetPassword token newPassword⟩)
      (account : lastUserRead (entriesOf (S := server) i c.trace) = some u)
      (user : u.key = userKey) (returned : c.Returned i (.ok .ok))

/-- The request that starts next after `c₀` has ended the access of the user
    in `c`. -/
structure Revocation (now : Timestamp) (c₀ c : (server).Conf) (userKey actorKey : Str) :
    Prop where
  reachable : Reachable (World.fresh now) c₀
  later : ∃ as, c = c₀.run as
  user : IsUser c₀ userKey actorKey
  ended : EndsAccess c c₀.threads.length userKey

/-- What was issued to the user before the operation began, and all that has
    been obtained with it. -/
inductive Stems (c₀ c : (server).Conf) (userKey actorKey : Str) : Artefact → Prop
  | issued {x : Artefact} (before : IssuedToUser c₀ userKey actorKey x) :
      Stems c₀ c userKey actorKey x
  | traded {x y : Artefact} {n j : Nat} (held : Stems c₀ c userKey actorKey x)
      (trade : Trades c n j x y) : Stems c₀ c userKey actorKey y

/-- No session and no token that is live has been obtained with such an
    artefact. -/
structure RevokedCompletely (c₀ c : (server).Conf) (userKey actorKey : Str) : Prop where
  sessions : ∀ s ∈ c.state.db.sessions, c.state.now < s.expiresAt → ∀ x n j claims,
    s.tokenHash = hashBearer claims → Stems c₀ c userKey actorKey x →
      ¬ Trades c n j x (.bearer claims)
  accessTokens : ∀ t ∈ c.state.db.accessTokens, ¬ t.expiresAt < c.state.now → ∀ x n j,
    Stems c₀ c userKey actorKey x → ¬ Trades c n j x (.accessToken t.tokenHash)
  refreshTokens : ∀ t ∈ c.state.db.refreshTokens, t.used = false →
    ¬ t.expiresAt < c.state.now → ∀ x n j, Stems c₀ c userKey actorKey x →
      ¬ Trades c n j x (.refreshToken t.tokenHash)

/-! ## Late uses -/

/-- Place `n` comes before a statement that request `i` executes. -/
def Precedes (c : (server).Conf) (n i : Nat) (s : DbStmt) : Prop :=
  ∃ m e, n < m ∧ c.trace[m]? = some (i, e) ∧ Executes s e

/-- The three deletions. -/
def endSessions (userKey : Str) : DbStmt := .session (.deleteByUser userKey)

def endAccessTokens (userKey : Str) : DbStmt := .accessToken (.revokeAll userKey)

def endRefreshTokens (userKey : Str) : DbStmt := .refreshToken (.revokeAll userKey)

/-- A code of the user that was there before request `i` began, or that comes
    from a session check before `i` deleted the sessions. -/
def StaleCode (c₀ c : (server).Conf) (userKey actorKey : Str) (h : Hashed Str) : Prop :=
  ∃ n j row, CodeSavedAt c n j row actorKey ∧ row.codeHash = h ∧
    (n < c₀.trace.length ∨ ∃ k e, c.trace[k]? = some (j, e) ∧ e.stmt.ChecksSession ∧
      Precedes c k c₀.threads.length (endSessions userKey))

/-- All tokens that request `j` saves, it saves before request `i` deletes
    those of the user. -/
structure SavesInTime (c : (server).Conf) (i j : Nat) (userKey : Str) : Prop where
  access : ∀ n t, AccessSavedAt c n j t → Precedes c n i (endAccessTokens userKey)
  refresh : ∀ n t, RefreshSavedAt c n j t → Precedes c n i (endRefreshTokens userKey)

/-- Codes and challenges of the user from before the operation yield nothing
    after its deletions, and neither does a refresh token that was consumed
    before. -/
structure NoLateUse (c₀ c : (server).Conf) (userKey actorKey : Str) : Prop where
  codes : ∀ j code, PresentsCode c j code →
    StaleCode c₀ c userKey actorKey (hashBearer code) →
    SavesInTime c c₀.threads.length j userKey
  refreshes : ∀ j k e r token, c.trace[k]? = some (j, e) →
    Answered (.refreshToken (.consume (hashBearer token))) 1 e →
    r ∈ e.before.db.refreshTokens → r.tokenHash = hashBearer token → r.userId = actorKey →
    Precedes c k c₀.threads.length (endRefreshTokens userKey) →
    SavesInTime c c₀.threads.length j userKey
  challenges : ∀ j challenge n s, PresentsChallenge c j challenge →
    IssuedToUser c₀ userKey actorKey (.challenge challenge) → SessionCreatedAt c n j s →
    Precedes c n c₀.threads.length (endSessions userKey)

/-! ## What is doomed -/

/-- A session of the user that request `i` deletes after it was created. -/
def SessionDoomed (c : (server).Conf) (i : Nat) (userKey actorKey sid : Str) : Prop :=
  ∃ s, Opened c s ∧ s.key = sid ∧ s.userId = actorKey ∧
    ∀ n j, SessionCreatedAt c n j s → Precedes c n i (endSessions userKey)

/-- What becomes of an artefact that stems from before the operation. An access
    token is traded for nothing. -/
def Doomed (c₀ c : (server).Conf) (userKey actorKey : Str) : Artefact → Prop
  | .code h => StaleCode c₀ c userKey actorKey h
  | .refreshToken h => ∀ n j t, RefreshSavedAt c n j t → t.tokenHash = h →
      t.userId = actorKey ∧ Precedes c n c₀.threads.length (endRefreshTokens userKey)
  | .accessToken _ => True
  | .bearer claims => claims.sub = actorKey ∧ ∃ sid, claims.sessionId = some sid ∧
      SessionDoomed c c₀.threads.length userKey actorKey sid
  | .cookie claims => normalizeUserId claims.sub = userKey ∧
      SessionDoomed c c₀.threads.length userKey actorKey claims.sid
  | .challenge claims => IssuedToUser c₀ userKey actorKey (.challenge claims)

section

variable {now : Timestamp} {c₀ c : (server).Conf} {userKey actorKey : Str} {i j k n m : Nat}
  {e : Entry machine}

/-! ## The user -/

theorem Revocation.reachable_later (h : Revocation now c₀ c userKey actorKey) :
    Reachable (World.fresh now) c := by
  obtain ⟨as, rfl⟩ := h.later
  exact h.reachable.run as

theorem Revocation.trace (h : Revocation now c₀ c userKey actorKey) :
    ∃ tr, c.trace = c₀.trace ++ tr := by
  obtain ⟨as, rfl⟩ := h.later
  obtain ⟨tr, htr, -⟩ := c₀.run_trace as
  exact ⟨tr, htr⟩

/-- The human of the user. -/
theorem Revocation.conceived (h : Revocation now c₀ c userKey actorKey) :
    ∃ g, Conceived c.trace g ∧ g.user.key = userKey ∧ g.actor.key = actorKey := by
  obtain ⟨u, hu, hkey, hsubject⟩ := h.user
  obtain ⟨g, hg, hsame⟩ := (lineage_holds h.reachable).users u hu
  obtain ⟨tr, htr⟩ := h.trace
  refine ⟨g, by rw [htr]; exact hg.mono tr, hsame.key.symm.trans hkey, ?_⟩
  have hlinked := (hg.linked h.reachable).1
  exact Option.some.inj (hlinked.symm.trans (hsame.subjectId.symm.trans hsubject))

theorem Revocation.plain (h : Revocation now c₀ c userKey actorKey) :
    IsPlainKey userKey ∧ IsPlainKey actorKey := by
  obtain ⟨g, hg, rfl, rfl⟩ := h.conceived
  have hc := h.reachable_later
  exact ⟨(hg.isPlainKey hc (by simp [HumanAggregate.keys])).1,
    (hg.isPlainKey hc (by simp [HumanAggregate.keys])).1⟩

theorem Revocation.normalizeActorId_address (h : Revocation now c₀ c userKey actorKey) :
    normalizeActorId (actorAddress actorKey) = actorKey := by
  obtain ⟨g, hg, -, rfl⟩ := h.conceived
  have hplain := hg.isPlainKey h.reachable_later (v := g.actor.key) (by simp [HumanAggregate.keys])
  exact hplain.1.normalizeActorId_address hplain.2

/-- The key of the user leads to its actor, if to any. -/
theorem Revocation.actor_eq (h : Revocation now c₀ c userKey actorKey) (hm : (j, e) ∈ c.trace)
    {a : Str} (ha : subjectOf e.before.db.users userKey = some a) : a = actorKey := by
  obtain ⟨g, hg, rfl, rfl⟩ := h.conceived
  have hc := h.reachable_later
  obtain ⟨v, hv, hsubject⟩ := Option.bind_eq_some_iff.mp ha
  obtain ⟨g', hg', hsame⟩ := ((lineage_along hc).2 _ hm).users v (List.mem_of_find?_eq_some hv)
  have hvkey : v.key = g.user.key := by simpa using List.find?_some hv
  obtain rfl := hg.unique hc hg' (v := g.user.key) (by simp [HumanAggregate.keys])
    (by simp [HumanAggregate.keys, hsame.key.symm.trans hvkey])
  exact Option.some.inj (hsubject.symm.trans (hsame.subjectId.trans (hg.linked hc).1))

/-- From the beginning of the operation on it does. -/
theorem Revocation.subject (h : Revocation now c₀ c userKey actorKey)
    (hat : c.trace[n]? = some (j, e)) (hle : c₀.trace.length ≤ n) :
    subjectOf e.before.db.users userKey = some actorKey := by
  have hc := h.reachable_later
  obtain ⟨tr, htr⟩ := h.trace
  have htake : c.trace.take n = c₀.trace ++ tr.take (n - c₀.trace.length) := by
    rw [htr, List.take_append, List.take_of_length_le hle]
  have hsteps := steps_before hc hat
  obtain ⟨w, hw, hrest⟩ := hsteps.split htake
  obtain rfl := hw.state_eq h.reachable.steps
  have hkept : ∃ v ∈ e.before.db.users, v.key = userKey := by
    apply users_kept_along hc _ hrest
    · obtain ⟨u, hu, hkey, -⟩ := h.user
      exact ⟨u, hu, hkey⟩
    · intro x hx
      rw [htr]
      exact List.mem_append_right _ (List.mem_of_mem_take hx)
  obtain ⟨v, hv, hkey⟩ := hkept
  have hm := List.mem_of_getElem? hat
  rcases ha : subjectOf e.before.db.users userKey with _ | a
  · -- every user has an actor
    exfalso
    rcases hfind : e.before.db.users.find? fun x => x.key = userKey with _ | x
    · have hnone := List.find?_eq_none.mp hfind v hv
      simp [hkey] at hnone
    · obtain ⟨g, hg, hsame⟩ := ((lineage_along hc).2 _ hm).users x (List.mem_of_find?_eq_some hfind)
      unfold subjectOf at ha
      rw [hfind, Option.bind_some, hsame.subjectId, (hg.linked hc).1] at ha
      cases ha
  · rw [h.actor_eq hm ha]

/-! ## The deletions -/

/-- The statements of the operation come after all that was there before. -/
theorem Revocation.place_le (h : Revocation now c₀ c userKey actorKey)
    (hat : c.trace[n]? = some (c₀.threads.length, e)) : c₀.trace.length ≤ n := by
  by_contra hlt
  obtain ⟨tr, htr⟩ := h.trace
  rw [htr, List.getElem?_append_left (Nat.lt_of_not_le hlt)] at hat
  have hknown := (conduct_holds h.reachable).known _ (List.mem_of_getElem? hat)
  exact absurd hknown (Nat.lt_irrefl _)

/-- The operation makes the three deletions. -/
theorem Revocation.deletions (h : Revocation now c₀ c userKey actorKey) :
    Heard (entriesOf (S := server) c₀.threads.length c.trace) (endSessions userKey) () ∧
      Heard (entriesOf (S := server) c₀.threads.length c.trace) (endAccessTokens userKey) () ∧
      Heard (entriesOf (S := server) c₀.threads.length c.trace) (endRefreshTokens userKey) () := by
  have hplain := h.plain.1
  have huser : normalizeUserId userKey = userKey := hplain.normalizeId (by decide)
  have howner : ownerKey userKey = userKey := by
    unfold ownerKey
    rw [huser]
    exact hplain.normalizeId (by decide)
  have hrevoked : RevokedAll (entriesOf (S := server) c₀.threads.length c.trace) userKey := by
    cases h.ended with
    | logoutAll cfg request returned =>
      obtain ⟨r, hr, hout⟩ := (conduct_holds h.reachable_later).returned returned
      obtain rfl := Option.some.inj (hr.symm.trans request)
      exact hout.1 userKey rfl
    | resetPassword cfg token newPassword u request account user returned =>
      obtain ⟨r, hr, hout⟩ := (conduct_holds h.reachable_later).returned returned
      obtain rfl := Option.some.inj (hr.symm.trans request)
      obtain ⟨v, hread, hrevoked⟩ := hout.2 token newPassword rfl
      obtain rfl := Option.some.inj (hread.symm.trans account)
      exact user ▸ hrevoked
  obtain ⟨hsessions, haccess, hrefresh⟩ := hrevoked
  rw [huser] at hsessions
  rw [howner] at haccess hrefresh
  exact ⟨hsessions, haccess, hrefresh⟩

/-- What was there before the operation precedes its statements. -/
theorem Revocation.precedes (h : Revocation now c₀ c userKey actorKey) {s : DbStmt} {a : s.Reply}
    (hs : Heard (entriesOf (S := server) c₀.threads.length c.trace) s a)
    (hn : n < c₀.trace.length) : Precedes c n c₀.threads.length s := by
  obtain ⟨e, hm, ha⟩ := heard_mem hs fun _ he => he
  obtain ⟨m, hat⟩ := List.mem_iff_getElem?.mp hm
  exact ⟨m, e, Nat.lt_of_lt_of_le hn (h.place_le hat), hat, ha.executes⟩

/-- The deletions leave nothing of the user. -/
theorem Revocation.sessions_deleted (h : Revocation now c₀ c userKey actorKey)
    (hat : c.trace[n]? = some (c₀.threads.length, e)) (he : Executes (endSessions userKey) e) :
    ∀ s ∈ e.after.db.sessions, s.userId ≠ actorKey := by
  intro s hs howner
  have hsubject := h.subject hat (h.place_le hat)
  rw [he.after] at hs
  have hkept := List.of_mem_filter hs
  simp [hsubject, howner] at hkept

theorem Revocation.access_deleted (h : Revocation now c₀ c userKey actorKey)
    (hat : c.trace[n]? = some (c₀.threads.length, e)) (he : Executes (endAccessTokens userKey) e) :
    ∀ t ∈ e.after.db.accessTokens, t.userId ≠ actorKey := by
  intro t ht howner
  have hsubject := h.subject hat (h.place_le hat)
  rw [he.after] at ht
  have hkept := List.of_mem_filter ht
  simp [ownedBy, hsubject, howner] at hkept

theorem Revocation.refresh_deleted (h : Revocation now c₀ c userKey actorKey)
    (hat : c.trace[n]? = some (c₀.threads.length, e)) (he : Executes (endRefreshTokens userKey) e) :
    ∀ t ∈ e.after.db.refreshTokens, t.userId ≠ actorKey := by
  intro t ht howner
  have hsubject := h.subject hat (h.place_le hat)
  rw [he.after] at ht
  have hkept := List.of_mem_filter ht
  simp [ownedBy, hsubject, howner] at hkept

/-! ## Rows that outlast a deletion -/

/-- A row that has been there since place `n` is deleted only after place
    `k`. -/
theorem Precedes.not_before {s : DbStmt} {P : World → Prop} (hp : Precedes c n i s)
    (hgone : ∀ (m : Nat) (e : Entry machine), c.trace[m]? = some (i, e) → Executes s e →
      ¬ P e.after)
    (hkept : ∀ (m j : Nat) (e : Entry machine), n < m → m < k → c.trace[m]? = some (j, e) →
      P e.after) :
    ∃ m e, k ≤ m ∧ c.trace[m]? = some (i, e) ∧ Executes s e := by
  obtain ⟨m, e, hlt, hat, he⟩ := hp
  refine ⟨m, e, ?_, hat, he⟩
  by_contra hle
  exact hgone m e hat he (hkept m i e hlt (Nat.lt_of_not_le hle) hat)

/-- A row that has been there to the end was not deleted. -/
theorem Precedes.false_of_kept {s : DbStmt} {P : World → Prop} (hp : Precedes c n i s)
    (hgone : ∀ (m : Nat) (e : Entry machine), c.trace[m]? = some (i, e) → Executes s e →
      ¬ P e.after)
    (hkept : ∀ (m j : Nat) (e : Entry machine), n < m → m < c.trace.length →
      c.trace[m]? = some (j, e) → P e.after) : False := by
  obtain ⟨m, e, hle, hat, -⟩ := Precedes.not_before hp hgone hkept
  have hlt := (List.getElem?_eq_some_iff.mp hat).1
  omega

theorem steps_to_end (hc : Reachable (World.fresh now) c) :
    Steps (S := server) (World.fresh now) (c.trace.take c.trace.length) c.state := by
  rw [List.take_length]
  exact hc.steps

/-- A doomed session is not there at the end. -/
theorem SessionDoomed.absent (h : Revocation now c₀ c userKey actorKey) {sid : Str}
    (hd : SessionDoomed c c₀.threads.length userKey actorKey sid) {s : Session}
    (hs : s ∈ c.state.db.sessions) : s.key ≠ sid := by
  intro hkey
  have hc := h.reachable_later
  obtain ⟨n, j, -, hcreated, hkept⟩ := session_since (steps_to_end hc) hs
  obtain ⟨s₀, hopened, hkey₀, howner, hprecedes⟩ := hd
  obtain rfl := hopened.eq_of_key hc hcreated.opened (hkey₀.trans hkey.symm)
  apply Precedes.false_of_kept (P := fun w => s₀ ∈ w.db.sessions) (hprecedes n j hcreated) _ hkept
  intro m e hat he hin
  exact h.sessions_deleted hat he s₀ hin howner

/-- A check that finds a doomed session comes before the deletion. -/
theorem SessionDoomed.checked (h : Revocation now c₀ c userKey actorKey) {sid : Str}
    (hd : SessionDoomed c c₀.threads.length userKey actorKey sid) {s : Session}
    (hat : c.trace[k]? = some (j, e)) (hcheck : e.stmt.ChecksSession)
    (hs : s ∈ e.before.db.sessions) (hkey : s.key = sid) :
    Precedes c k c₀.threads.length (endSessions userKey) := by
  have hc := h.reachable_later
  obtain ⟨n, i, -, hcreated, hkept⟩ := session_since (steps_before hc hat) hs
  obtain ⟨s₀, hopened, hkey₀, howner, hprecedes⟩ := hd
  obtain rfl := hopened.eq_of_key hc hcreated.opened (hkey₀.trans hkey.symm)
  obtain ⟨m, e', hle, hat', he⟩ := Precedes.not_before (P := fun w => s₀ ∈ w.db.sessions)
    (hprecedes n i hcreated) (fun m e hat he hin => h.sessions_deleted hat he s₀ hin howner) hkept
  refine ⟨m, e', ?_, hat', he⟩
  by_contra hnot
  obtain rfl : m = k := by omega
  cases hat.symm.trans hat'
  rcases hcheck with ⟨_, _, hs'⟩ | ⟨_, _, hs'⟩
  · cases hs'.symm.trans he.stmt
  · cases hs'.symm.trans he.stmt

/-! ## The artefacts -/

/-- What was issued before the operation is doomed. -/
theorem IssuedToUser.doomed (h : Revocation now c₀ c userKey actorKey) {x : Artefact}
    (hx : IssuedToUser c₀ userKey actorKey x) : Doomed c₀ c userKey actorKey x := by
  have hc := h.reachable_later
  obtain ⟨hsessions, haccess, hrefresh⟩ := h.deletions
  obtain ⟨tr, htr⟩ := h.trace
  have hplace : ∀ {n x}, c₀.trace[n]? = some x → n < c₀.trace.length ∧ c.trace[n]? = some x := by
    intro n x hat
    have hlt := (List.getElem?_eq_some_iff.mp hat).1
    exact ⟨hlt, by rw [htr, List.getElem?_append_left hlt]; exact hat⟩
  -- a session is created once, and it was before
  have hsession : ∀ {n j s}, SessionCreatedAt c₀ n j s → s.userId = actorKey →
      SessionDoomed c c₀.threads.length userKey actorKey s.key := by
    intro n j s hs howner
    obtain ⟨e, hat, hs⟩ := hs
    obtain ⟨hlt, hat'⟩ := hplace hat
    refine ⟨s, ⟨j, e, List.mem_of_getElem? hat', hs.stmt⟩, rfl, howner, ?_⟩
    intro m k hs'
    obtain ⟨e', hat'', hs'⟩ := hs'
    have hissues : ∀ {n j e}, c.trace[n]? = some (j, e) → Executes (.session (.create s)) e →
        IssuesAt uuidOf c .createSession s.key n j e := by
      intro n j e hat hs
      obtain ⟨r, -, hopens⟩ := conducted_at hc (split_at hat)
      unfold Conducted at hopens
      rw [hs.stmt] at hopens
      exact ⟨hat, by rw [hs.stmt]; rfl, hopens.keyDrawn, hopens.once⟩
    obtain rfl := (hissues hat' hs).unique isDraw_uuid hc (hissues hat'' hs')
    exact h.precedes hsessions hlt
  cases x with
  | code hash =>
    obtain ⟨n, j, row, ⟨e, key, hat, hs, howner⟩, hhash⟩ := hx
    obtain ⟨hlt, hat'⟩ := hplace hat
    exact ⟨n, j, row, ⟨e, key, hat', hs, howner⟩, hhash, .inl hlt⟩
  | refreshToken hash =>
    obtain ⟨n, j, t, ⟨e, hat, hs⟩, hhash, howner⟩ := hx
    obtain ⟨hlt, hat'⟩ := hplace hat
    have hissues : ∀ {n j e t}, c.trace[n]? = some (j, e) → Executes (.refreshToken (.save t)) e →
        t.tokenHash = hash → IssuesAt tokenOf c .saveRefresh hash.of n j e := by
      intro n j e t hat hs hhash
      obtain ⟨r, -, hissues⟩ := conducted_at hc (split_at hat)
      unfold Conducted at hissues
      rw [hs.stmt] at hissues
      obtain ⟨text, htext, heq⟩ := hissues.drawn
      rw [← hhash, heq]
      exact ⟨hat, by rw [hs.stmt]; rfl, htext, hissues.once⟩
    intro m k t' hs' hhash'
    obtain ⟨e', hat'', hs'⟩ := hs'
    obtain rfl := (hissues hat' hs hhash).unique isDraw_token hc (hissues hat'' hs' hhash')
    cases hat'.symm.trans hat''
    cases hs.stmt.symm.trans hs'.stmt
    exact ⟨howner, h.precedes hrefresh hlt⟩
  | accessToken hash => trivial
  | bearer claims =>
    obtain ⟨n, j, s, hs, hhash, howner⟩ := hx
    have hdoomed := hsession hs howner
    obtain ⟨e, hat, hs⟩ := hs
    have hopened : Opened c s := ⟨j, e, List.mem_of_getElem? (hplace hat).2, hs.stmt⟩
    obtain ⟨hsub, hsid⟩ := hopened.bearer hc hhash
    exact ⟨hsub.trans howner, s.key, hsid, hdoomed⟩
  | cookie claims =>
    obtain ⟨huser, n, j, s, hs, hkey, howner⟩ := hx
    exact ⟨huser, hkey ▸ hsession hs howner⟩
  | challenge claims => exact hx

/-- A doomed code yields tokens of the user, in time. -/
theorem code_in_time (h : Revocation now c₀ c userKey actorKey)
    (hlate : NoLateUse c₀ c userKey actorKey) {code : Str} (hp : PresentsCode c j code)
    (hd : Doomed c₀ c userKey actorKey (.code (hashBearer code))) :
    SavesInTime c c₀.threads.length j userKey ∧
      ∀ n owner, RedeemedFor c n j owner → owner = actorKey := by
  constructor
  · exact hlate.codes j code hp hd
  · intro n owner hredeemed
    obtain ⟨m, i, row, hsaved, hhash, -⟩ := hd
    exact hredeemed.owner_of_code h.reachable_later hp hsaved hhash h.normalizeActorId_address

/-- So does a doomed refresh token: it was consumed before the deletion, or
    not at all. -/
theorem refresh_in_time (h : Revocation now c₀ c userKey actorKey)
    (hlate : NoLateUse c₀ c userKey actorKey) {token owner : Str} (hp : PresentsRefresh c j token)
    (hd : Doomed c₀ c userKey actorKey (.refreshToken (hashBearer token)))
    (hredeemed : RedeemedFor c n j owner) :
    SavesInTime c c₀.threads.length j userKey ∧ owner = actorKey := by
  have hc := h.reachable_later
  obtain ⟨⟨k, e, r, -, hat, hwon, hr, hunused, hhash⟩, m, i, t, hsaved, hhash', howner⟩ :=
    hredeemed.rotated hc hp
  obtain ⟨n', i', -, hsaved', hkept⟩ := unused_since hunused (steps_before hc hat) hr
  obtain ⟨hruser, hprecedes⟩ := hd n' i' r hsaved' hhash
  constructor
  · apply hlate.refreshes j k e r token hat hwon hr hhash hruser
    obtain ⟨l, e', hle, hat', he⟩ := Precedes.not_before (P := fun w => r ∈ w.db.refreshTokens)
      hprecedes (fun m e hat he hin => h.refresh_deleted hat he r hin hruser) hkept
    refine ⟨l, e', ?_, hat', he⟩
    by_contra hnot
    obtain rfl : l = k := by omega
    cases hat.symm.trans hat'
    cases hwon.stmt.symm.trans he.stmt
  · obtain ⟨huser, -⟩ := hd m i t hsaved hhash'
    rw [howner, huser]
    exact h.normalizeActorId_address

/-- An access token that a doomed artefact yields is saved in time. -/
theorem Trades.access_in_time (h : Revocation now c₀ c userKey actorKey)
    (hlate : NoLateUse c₀ c userKey actorKey) {x : Artefact} {hash : Hashed Str}
    (hd : Doomed c₀ c userKey actorKey x) (ht : Trades c n j x (.accessToken hash))
    {t : OidcAccessToken} (hs : AccessSavedAt c m k t) (hhash : t.tokenHash = hash) :
    t.userId = actorKey ∧ Precedes c m c₀.threads.length (endAccessTokens userKey) := by
  have hc := h.reachable_later
  cases ht with
  | codeForAccess code t' presents saved =>
    obtain rfl := hs.request_unique hc saved hhash
    obtain ⟨htime, howner⟩ := code_in_time h hlate presents hd
    exact ⟨howner m _ (hs.redeemed hc), htime.access m t hs⟩
  | refreshForAccess token t' presents saved =>
    obtain rfl := hs.request_unique hc saved hhash
    obtain ⟨htime, howner⟩ := refresh_in_time h hlate presents hd (hs.redeemed hc)
    exact ⟨howner, htime.access m t hs⟩

/-- **One trade.** What a doomed artefact yields is doomed. -/
theorem Trades.doomed (h : Revocation now c₀ c userKey actorKey)
    (hlate : NoLateUse c₀ c userKey actorKey) {x y : Artefact}
    (hd : Doomed c₀ c userKey actorKey x) (ht : Trades c n j x y) :
    Doomed c₀ c userKey actorKey y := by
  have hc := h.reachable_later
  -- a session of a completed login is of the user of the challenge
  have hsession : ∀ {challenge s}, PresentsChallenge c j challenge → SessionCreatedAt c n j s →
      IssuedToUser c₀ userKey actorKey (.challenge challenge) →
      s.userId = actorKey ∧ SessionDoomed c c₀.threads.length userKey actorKey s.key := by
    intro challenge s hp hs hissued
    obtain ⟨u, hu, hsubject, hkey⟩ := hs.challenged hc hp
    have howner : s.userId = actorKey := by
      rw [hissued.1, h.plain.1.idArgumentKey] at hkey
      obtain ⟨g, hg, hgkey, hgsubject⟩ := hu.conceived hc
      obtain ⟨g', hg', hgkey', hactor⟩ := h.conceived
      have hkeys : g.user.key = g'.user.key := by rw [← hgkey, hkey, hgkey']
      obtain rfl := hg.unique hc hg' (v := g.user.key) (by simp [HumanAggregate.keys])
        (by simp [HumanAggregate.keys, hkeys])
      rw [← hactor]
      exact Option.some.inj (hsubject.symm.trans hgsubject)
    refine ⟨howner, s, hs.opened, rfl, howner, ?_⟩
    intro m k hs'
    obtain rfl := hs'.request_unique hc hs
    exact hlate.challenges k challenge m s hp hissued hs'
  cases ht with
  | codeForAccess code t presents saved => trivial
  | refreshForAccess token t presents saved => trivial
  | codeForRefresh code t presents saved =>
    intro m k t' hs hhash
    obtain rfl := hs.request_unique hc saved hhash
    obtain ⟨htime, howner⟩ := code_in_time h hlate presents hd
    exact ⟨howner m _ (hs.redeemed hc), htime.refresh m t' hs⟩
  | refreshForRefresh token t presents saved =>
    intro m k t' hs hhash
    obtain rfl := hs.request_unique hc saved hhash
    obtain ⟨htime, howner⟩ := refresh_in_time h hlate presents hd (hs.redeemed hc)
    exact ⟨howner, htime.refresh m t' hs⟩
  | bearerForCode credentials claims row presents presented saved session =>
    obtain ⟨hsub, sid, hsid, hdoomed⟩ := hd
    obtain ⟨sid', k, e, s, href, hat, hcheck, hs, hkey⟩ := saved.checked hc
    obtain rfl : sid' = sid := Option.some.inj (href.symm.trans (session.trans hsid))
    exact ⟨n, j, row, hsub ▸ saved, rfl, .inr ⟨k, e, hat, hcheck,
      hdoomed.checked h hat hcheck hs hkey⟩⟩
  | cookieForCode credentials claims row a e presents presented place saved user session =>
    obtain ⟨huser, hdoomed⟩ := hd
    rw [huser] at saved user
    obtain rfl := h.actor_eq (List.mem_of_getElem? place) user
    have hsaved : CodeSavedAt c n j row a := ⟨e, userKey, place, saved, user⟩
    obtain ⟨sid, k, e', s, href, hat, hcheck, hs, hkey⟩ := hsaved.checked hc
    obtain rfl : sid = claims.sid := Option.some.inj (href.symm.trans session)
    exact ⟨n, j, row, hsaved, rfl, .inr ⟨k, e', hat, hcheck,
      hdoomed.checked h hat hcheck hs hkey⟩⟩
  | challengeForBearer challenge s claims presents created names =>
    obtain ⟨howner, hdoomed⟩ := hsession presents created hd
    obtain ⟨hsub, hsid⟩ := created.opened.bearer hc names
    exact ⟨hsub.trans howner, s.key, hsid, hdoomed⟩
  | challengeForCookie challenge s claims presents created names user =>
    obtain ⟨-, hdoomed⟩ := hsession presents created hd
    constructor
    · rw [user, hd.1]
      exact h.plain.1.normalizeId (by decide)
    · rw [← names]
      exact hdoomed

/-- All that stems from before the operation is doomed. -/
theorem Stems.doomed (h : Revocation now c₀ c userKey actorKey)
    (hlate : NoLateUse c₀ c userKey actorKey) {x : Artefact}
    (hx : Stems c₀ c userKey actorKey x) : Doomed c₀ c userKey actorKey x := by
  induction hx with
  | issued before => exact before.doomed h
  | traded held trade ih => exact trade.doomed h hlate ih

/-- **Complete revocation.** In every run, once a `logout_all` or a
    `reset_password` of a user has succeeded, nothing that was issued to the
    user before yields a session or a token that is live, provided that the
    codes and the challenges from before, and the requests that had consumed a
    refresh token, yield nothing after the deletions. -/
theorem revocation_complete_when (h : Revocation now c₀ c userKey actorKey)
    (hlate : NoLateUse c₀ c userKey actorKey) :
    RevokedCompletely c₀ c userKey actorKey := by
  have hc := h.reachable_later
  constructor
  · intro s hs _ x n j claims hhash hx htrade
    obtain ⟨-, sid, hsid, hdoomed⟩ := htrade.doomed h hlate (hx.doomed h hlate)
    apply hdoomed.absent h hs
    obtain ⟨m, k, -, hcreated, -⟩ := session_since (steps_to_end hc) hs
    obtain ⟨-, hsid'⟩ := hcreated.opened.bearer hc hhash
    exact Option.some.inj (hsid'.symm.trans hsid)
  · intro t ht _ x n j hx htrade
    obtain ⟨m, k, -, hsaved, hkept⟩ := access_since (steps_to_end hc) ht
    obtain ⟨howner, hprecedes⟩ :=
      htrade.access_in_time h hlate (hx.doomed h hlate) hsaved rfl
    apply Precedes.false_of_kept (P := fun w => t ∈ w.db.accessTokens) hprecedes _ hkept
    intro l e hat he hin
    exact h.access_deleted hat he t hin howner
  · intro t ht hunused _ x n j hx htrade
    obtain ⟨m, k, -, hsaved, hkept⟩ := unused_since hunused (steps_to_end hc) ht
    obtain ⟨howner, hprecedes⟩ := htrade.doomed h hlate (hx.doomed h hlate) m k t hsaved rfl
    apply Precedes.false_of_kept (P := fun w => t ∈ w.db.refreshTokens) hprecedes _ hkept
    intro l e hat he hin
    exact h.refresh_deleted hat he t hin howner

end

end

end SoulAuth

namespace SoulAuth.Sample

open Framework Framework.System

/-- After the code was issued, Alice logs out everywhere; then the client
    redeems the code. -/
def loggedOutEverywhere : List (server).Action := start config (.logoutAll alice) :: steps 3 3

def redeemedAfterwards : List (server).Action :=
  loggedOutEverywhere ++ start config (redeem code) :: steps 4 18

/-- After the code was redeemed, Alice logs out everywhere; then the client
    presents the refresh token. -/
def refreshedAfterwards : List (server).Action :=
  start config (.logoutAll alice) :: steps 4 3 ++
    start config (refresh refreshToken) :: steps 5 5

/-- Whether the user is there. -/
def hasUser (c : (server).Conf) (userKey actorKey : Str) : Bool :=
  c.state.db.users.any fun u => u.key = userKey && u.subjectId = some actorKey

theorem hasUser_spec {c : (server).Conf} {userKey actorKey : Str}
    (h : hasUser c userKey actorKey = true) : IsUser c userKey actorKey := by
  obtain ⟨u, hu, hboth⟩ := List.any_eq_true.mp h
  obtain ⟨hkey, hsubject⟩ := Bool.and_eq_true_iff.mp hboth
  exact ⟨u, hu, of_decide_eq_true hkey, of_decide_eq_true hsubject⟩

/-- Whether request `i` executes the statement after place `n`. -/
def precedes (c : (server).Conf) (n i : Nat) (s : DbStmt) : Bool :=
  (List.range c.trace.length).any fun m =>
    match c.trace[m]? with
    | some (j, e) => n < m && j = i && decide (Executes s e)
    | none => false

theorem precedes_spec {c : (server).Conf} {n i : Nat} {s : DbStmt}
    (h : precedes c n i s = true) : Precedes c n i s := by
  obtain ⟨m, -, hm⟩ := List.any_eq_true.mp h
  split at hm
  · next j e hat =>
    simp only [Bool.and_eq_true, decide_eq_true_eq] at hm
    obtain ⟨⟨hlt, rfl⟩, he⟩ := hm
    exact ⟨m, e, hlt, hat, he⟩
  · cases hm

/-- Whether all that is issued is issued before request `i` deletes it. -/
def issuesInTime (c : (server).Conf) (i : Nat) (userKey : Str) : Bool :=
  (List.range c.trace.length).all fun n =>
    match c.trace[n]? with
    | some (_, e) =>
      match e.stmt with
      | .db (.accessToken (.save _)) => precedes c n i (endAccessTokens userKey)
      | .db (.refreshToken (.save _)) => precedes c n i (endRefreshTokens userKey)
      | .db (.session (.create _)) => precedes c n i (endSessions userKey)
      | _ => true
    | none => true

theorem issuesInTime_spec {c₀ c : (server).Conf} {userKey actorKey : Str}
    (h : issuesInTime c c₀.threads.length userKey = true) :
    NoLateUse c₀ c userKey actorKey := by
  have hplace : ∀ {n j e}, c.trace[n]? = some (j, e) → n ∈ List.range c.trace.length :=
    fun hat => List.mem_range.mpr (List.getElem?_eq_some_iff.mp hat).1
  have hsaves : ∀ j, SavesInTime c c₀.threads.length j userKey := by
    intro j
    constructor
    · intro n t hs
      obtain ⟨e, hat, hs⟩ := hs
      have hall := List.all_eq_true.mp h n (hplace hat)
      simp only [hat, hs.stmt] at hall
      exact precedes_spec hall
    · intro n t hs
      obtain ⟨e, hat, hs⟩ := hs
      have hall := List.all_eq_true.mp h n (hplace hat)
      simp only [hat, hs.stmt] at hall
      exact precedes_spec hall
  constructor
  · intro j _ _ _
    exact hsaves j
  · intro j _ _ _ _ _ _ _ _ _ _
    exact hsaves j
  · intro j _ n s _ _ hs
    obtain ⟨e, hat, hs⟩ := hs
    have hall := List.all_eq_true.mp h n (hplace hat)
    simp only [hat, hs.stmt] at hall
    exact precedes_spec hall

theorem refreshedAfterwards_facts :
    let c := (after exchanged).run refreshedAfterwards
    hasUser (after exchanged) alice aliceActor = true ∧ (after exchanged).threads.length = 4 ∧
      c.reqOf 4 = some ⟨config, .logoutAll alice⟩ ∧ c.outcome 4 = some (.ok .ok) ∧
      issuesInTime c 4 alice = true := by
  decide +kernel

/-- The refresh token of the exchange yields nothing. -/
theorem revocation_complete_when_refreshed :
    RevokedCompletely (after exchanged) ((after exchanged).run refreshedAfterwards) alice
      aliceActor := by
  obtain ⟨huser, hlength, hreq, hout, htime⟩ := refreshedAfterwards_facts
  rw [← hlength] at hreq hout htime
  have hrevocation : Revocation 0 (after exchanged)
      ((after exchanged).run refreshedAfterwards) alice aliceActor :=
    ⟨after_reachable _, ⟨_, rfl⟩, hasUser_spec huser,
      .logoutAll config hreq (Conf.returned_of_outcome hout)⟩
  exact revocation_complete_when hrevocation (issuesInTime_spec htime)

/-- Whether the code was saved at place `n` for Alice. -/
def savesCodeAt (c : (server).Conf) (n : Nat) : Bool :=
  match c.trace[n]? with
  | some (_, e) =>
    match e.stmt with
    | .db (.code (.save row userKey)) =>
      e.ctx.fault = none && row.codeHash = hashBearer code &&
        subjectOf e.before.db.users userKey = some aliceActor
    | _ => false
  | none => false

theorem savesCodeAt_spec {c : (server).Conf} {n : Nat} (h : savesCodeAt c n = true) :
    IssuedToUser c alice aliceActor (.code (hashBearer code)) := by
  unfold savesCodeAt at h
  split at h
  · next j e hat =>
    split at h
    · next row userKey hs =>
      simp only [Bool.and_eq_true, decide_eq_true_eq] at h
      obtain ⟨⟨hfault, hhash⟩, howner⟩ := h
      exact ⟨n, j, row, ⟨e, userKey, hat, ⟨hs, .inl hfault⟩, howner⟩, hhash⟩
    · cases h
  · cases h

theorem redeemedAfterwards_facts :
    let c := (after authorized).run redeemedAfterwards
    hasUser (after authorized) alice aliceActor = true ∧ (after authorized).threads.length = 3 ∧
      c.reqOf 3 = some ⟨config, .logoutAll alice⟩ ∧ c.outcome 3 = some (.ok .ok) ∧
      c.reqOf 4 = some ⟨config, redeem code⟩ ∧ savesCodeAt (after authorized) 37 = true ∧
      leavesLive c 51 4 = true := by
  decide +kernel

/-- The code yields an access token after Alice has logged out everywhere. -/
theorem revocation_complete_fails : ¬ ∀ (c₀ c : (server).Conf) (userKey actorKey : Str),
    Revocation 0 c₀ c userKey actorKey → RevokedCompletely c₀ c userKey actorKey := by
  intro hclaim
  obtain ⟨huser, hlength, hreq, hout, hreq', hcode, hlive⟩ := redeemedAfterwards_facts
  rw [← hlength] at hreq hout
  have hrevocation : Revocation 0 (after authorized)
      ((after authorized).run redeemedAfterwards) alice aliceActor :=
    ⟨after_reachable _, ⟨_, rfl⟩, hasUser_spec huser,
      .logoutAll config hreq (Conf.returned_of_outcome hout)⟩
  obtain ⟨t, ht, -, -, hexpiry, hsaved⟩ := leavesLive_spec hlive
  apply (hclaim _ _ _ _ hrevocation).accessTokens t ht hexpiry (.code (hashBearer code)) 51 4
  · exact .issued (savesCodeAt_spec hcode)
  · exact .codeForAccess code t ⟨config, redemption code, hreq', rfl, rfl⟩ hsaved

end SoulAuth.Sample
