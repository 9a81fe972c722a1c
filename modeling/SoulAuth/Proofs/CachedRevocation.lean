import SoulAuth.Proofs.CacheConduct
import SoulAuth.Proofs.CachedAuth

/-! # Revocation under a cache

An operation that ends sessions deletes them and clears the cache. A request
that had found the session alive before may put it into the cache after the
last clearing, and nothing removes that entry before it expires. Where no
request does so, the tokens of the sessions are refused from then on.
-/

namespace SoulAuth

open Framework Framework.System

/-! ## Where the entries of the cache come from -/

/-- The call removes what the cache has under this token for this user. -/
def CacheStmt.Drops (token : Claims) (userId : Str) : CacheStmt → Prop
  | invalidateToken token' => token' = token
  | invalidateUser userId' => userId' = userId
  | _ => False

namespace AuthCache

variable {cache : AuthCache} {token : Claims} {userId : Str} {user : User} {now : Timestamp}
  {x : CacheEntry}

theorem mem_makeRoom {entries : List CacheEntry} (h : x ∈ makeRoom entries now) : x ∈ entries := by
  unfold makeRoom at h
  split at h
  · split at h
    · cases h
    · exact (List.mem_filter.mp h).1
  · exact h

theorem mem_upsert {k : Hashed Claims} {y : CacheEntry} {entries : List CacheEntry}
    (h : x ∈ KeyedTable.upsert CacheEntry.key k (fun _ => y) entries) : x ∈ entries ∨ x = y := by
  unfold KeyedTable.upsert at h
  split at h
  · obtain ⟨r, hr, rfl⟩ := List.mem_map.mp h
    split
    · exact .inr rfl
    · exact .inl hr
  · rcases List.mem_append.mp h with h | h
    · exact .inl h
    · exact .inr (List.mem_singleton.mp h)

theorem mem_insert (h : x ∈ (cache.insert token userId user now).entries) :
    x ∈ cache.entries ∨
      cache.ttl ≠ none ∧ x.key = key token ∧ x.user = user ∧ x.userId = userId := by
  unfold insert at h
  rcases httl : cache.ttl with _ | ttl
  · rw [httl] at h
    exact .inl h
  · rw [httl] at h
    rcases mem_upsert h with h | rfl
    · exact .inl (mem_makeRoom h)
    · exact .inr ⟨Option.some_ne_none _, rfl, rfl, rfl⟩

theorem get_some (h : cache.get token now = some user) :
    cache.ttl ≠ none ∧ ∃ x ∈ cache.entries, x.key = key token ∧ x.user = user := by
  unfold get at h
  rcases httl : cache.ttl with _ | ttl
  · rw [httl] at h
    cases h
  · rcases hrow : KeyedTable.rowAt CacheEntry.key (key token) cache.entries with _ | x
    · rw [httl, hrow] at h
      cases h
    · simp only [httl, hrow, Option.bind_eq_bind, Option.bind_some] at h
      split at h
      · cases h
      · exact ⟨Option.some_ne_none _, x, KeyedTable.mem_of_rowAt hrow, KeyedTable.key_of_rowAt hrow,
          Option.some.inj h⟩

end AuthCache

/-- A call leaves an entry where it was, or has inserted it. -/
theorem CacheStmt.mem_exec {s : CacheStmt} {now : Timestamp} {cache : AuthCache} {x : CacheEntry}
    (httl : cache.ttl ≠ none) (h : x ∈ (s.exec now cache).2.entries) :
    (x ∈ cache.entries ∧ ∀ token, x.key = AuthCache.key token → ¬ s.Drops token x.userId) ∨
      ∃ token, s = .insert token x.userId x.user ∧ x.key = AuthCache.key token := by
  obtain ⟨ttl, hsome⟩ := Option.ne_none_iff_exists'.mp httl
  cases s with
  | get token => exact .inl ⟨h, fun _ _ => id⟩
  | insert token userId user =>
    rcases AuthCache.mem_insert h with h | ⟨-, hkey, rfl, rfl⟩
    · exact .inl ⟨h, fun _ _ => id⟩
    · exact .inr ⟨token, rfl, hkey⟩
  | invalidateToken token =>
    simp only [CacheStmt.exec, AuthCache.invalidateToken, hsome, List.mem_filter,
      decide_eq_true_eq] at h
    left
    refine ⟨h.1, ?_⟩
    intro token' hkey hdrops
    obtain rfl : token = token' := hdrops
    exact h.2 hkey
  | invalidateUser userId =>
    simp only [CacheStmt.exec, AuthCache.invalidateUser, hsome, List.mem_filter,
      decide_eq_true_eq] at h
    left
    refine ⟨h.1, ?_⟩
    intro token' _ hdrops
    exact h.2 (Eq.symm hdrops)
  | purgeExpired =>
    simp only [CacheStmt.exec, AuthCache.purgeExpired, hsome, AuthCache.live,
      List.mem_filter] at h
    exact .inl ⟨h.1, fun _ _ => id⟩

theorem CacheStmt.exec_ttl {s : CacheStmt} {now : Timestamp} {cache : AuthCache} :
    (s.exec now cache).2.ttl = cache.ttl := by
  cases s with
  | get => rfl
  | insert =>
    show (AuthCache.insert _ _ _ _ _).ttl = _
    unfold AuthCache.insert
    split <;> rfl
  | invalidateToken =>
    show (AuthCache.invalidateToken _ _).ttl = _
    unfold AuthCache.invalidateToken
    split <;> rfl
  | invalidateUser =>
    show (AuthCache.invalidateUser _ _).ttl = _
    unfold AuthCache.invalidateUser
    split <;> rfl
  | purgeExpired =>
    show (AuthCache.purgeExpired _ _).ttl = _
    unfold AuthCache.purgeExpired
    split <;> rfl

section

variable [Platform] {w w' : World × AuthCache} {tr : List (Nat × Entry authCache.machine)}
  {x : CacheEntry}

/-- The lifetime of the entries never changes. -/
theorem ttl_along (h : Steps (S := cachingServer) w tr w') : w'.2.ttl = w.2.ttl := by
  apply h.preserves (P := fun w' => w'.2.ttl = w.2.ttl) rfl
  intro i e _ hbefore
  obtain ⟨ctx, s | s, u⟩ := e
  · exact hbefore
  · exact (CacheStmt.exec_ttl (s := s)).trans hbefore

/-- The entry has been inserted, and no call has dropped it since. -/
def Stands (x : CacheEntry) (tr : List (Nat × Entry authCache.machine)) : Prop :=
  ∃ token tr₁ j e tr₂, tr = tr₁ ++ (j, e) :: tr₂ ∧ x.key = AuthCache.key token ∧
    e.stmt = .inr (.insert token x.userId x.user) ∧ e.before.2.ttl ≠ none ∧
    ∀ i d s, (i, d) ∈ tr₂ → d.stmt = .inr s → ¬ s.Drops token x.userId

/-- An entry of the trace that drops nothing leaves it standing. -/
theorem Stands.snoc {i : Nat} {e : Entry authCache.machine} (h : Stands x tr)
    (he : ∀ token s, x.key = AuthCache.key token → e.stmt = .inr s → ¬ s.Drops token x.userId) :
    Stands x (tr ++ [(i, e)]) := by
  obtain ⟨token, tr₁, j, e₁, tr₂, rfl, hkey, hs, hon, hkept⟩ := h
  refine ⟨token, tr₁, j, e₁, tr₂ ++ [(i, e)], by simp, hkey, hs, hon, ?_⟩
  intro i' d s hd hs'
  rcases List.mem_append.mp hd with hd | hd
  · exact hkept i' d s hd hs'
  · obtain ⟨-, rfl⟩ := Prod.mk.inj (List.mem_singleton.mp hd)
    exact he token s hkey hs'

/-- Every entry of the cache stands. -/
theorem stands_of_mem (h : Steps (S := cachingServer) w tr w') (hw : w.2.entries = [])
    (httl : w.2.ttl ≠ none) : ∀ x ∈ w'.2.entries, Stands x tr := by
  apply h.accumulates (P := fun tr w' => ∀ x ∈ w'.2.entries, Stands x tr)
  · intro x hx
    rw [hw] at hx
    cases hx
  · intro tr i e hsteps ih x hx
    have hlive : e.before.2.ttl ≠ none := by
      rw [ttl_along hsteps]
      exact httl
    obtain ⟨ctx, s | s, u⟩ := e
    · apply (ih x hx).snoc
      intro token s' _ hs
      cases hs
    · rcases CacheStmt.mem_exec (s := s) hlive hx with ⟨hold, hnot⟩ | ⟨token, rfl, hkey⟩
      · apply (ih x hold).snoc
        intro token s' hkey hs
        cases hs
        exact hnot token hkey
      · refine ⟨token, tr, i, _, [], rfl, hkey, rfl, hlive, ?_⟩
        intro _ _ _ hd
        exact absurd hd List.not_mem_nil

end

/-! ## What the server sees of a run -/

/-- A run of the server that executes the same statements and reaches the
    same state. -/
structure View [Platform] (now : Timestamp) (c : (cachingServer).Conf) (c₀ : (server).Conf) :
    Prop where
  reachable : Reachable (World.fresh now) c₀
  state : c₀.state = c.state.1
  trace : c₀.trace.map Prod.snd = baseTrace (S := server) c.trace

/-- The key of the identity root that a token names. -/
def Claims.actorKey (token : Claims) : Str :=
  idArgumentKey (actorAddress (normalizeActorId token.sub))

section

variable [Platform] {now : Timestamp} {ttl : Nat} {c : (cachingServer).Conf}
  {c₀ : (server).Conf} {i j k : Nat} {tr t₁ t₂ : List (Nat × Entry authCache.machine)}
  {d e : Entry authCache.machine} {e₀ : Entry machine} {token : Claims} {user u v : User}
  {r : CachedCall} {a : Str}

theorem exists_view (hc : Reachable (S := cachingServer) (World.fresh now, AuthCache.new ttl) c) :
    ∃ c₀, View now c c₀ := by
  obtain ⟨c₀, hc₀, hstate, htrace⟩ := hc.shadow cachedCall_shadows
  exact ⟨c₀, hc₀, hstate, htrace⟩

theorem cacheConduct_holds
    (hc : Reachable (S := cachingServer) (World.fresh now, AuthCache.new ttl) c) :
    cacheConduct.Inv c :=
  hc.rule cacheConduct_met fun _ => trivial

/-- The view of a run that is cut at an entry. -/
theorem View.split (hv : View now c c₀) (htr : c.trace = t₁ ++ (i, e) :: t₂)
    (he : e.base? = some e₀) :
    ∃ u₁ j u₂, c₀.trace = u₁ ++ (j, e₀) :: u₂ ∧ u₁.map Prod.snd = baseTrace (S := server) t₁ ∧
      u₂.map Prod.snd = baseTrace (S := server) t₂ := by
  have htrace := hv.trace
  have hcut : baseTrace (S := server) (t₁ ++ (i, e) :: t₂) =
      baseTrace (S := server) t₁ ++ e₀ :: baseTrace (S := server) t₂ := by
    rw [baseTrace_append]
    congr 1
    exact List.filterMap_cons_some he
  rw [htr, hcut] at htrace
  obtain ⟨u₁, u', hu, hu₁, hu'⟩ := List.map_eq_append_iff.mp htrace
  obtain ⟨⟨j, e'⟩, u₂, rfl, he', hu₂⟩ := List.map_eq_cons_iff.mp hu'
  obtain rfl : e' = e₀ := he'
  exact ⟨u₁, j, u₂, hu, hu₁, hu₂⟩

theorem mem_of_map {tr : List (Nat × Entry machine)} {l : List (Entry machine)}
    (h : tr.map Prod.snd = l) (hmem : e₀ ∈ l) : ∃ j, (j, e₀) ∈ tr := by
  rw [← h] at hmem
  obtain ⟨⟨j, e'⟩, hin, rfl⟩ := List.mem_map.mp hmem
  exact ⟨j, hin⟩

theorem mem_baseTrace (hmem : (i, e) ∈ tr) (he : e.base? = some e₀) :
    e₀ ∈ baseTrace (S := server) tr :=
  List.mem_filterMap.mpr ⟨e, List.mem_map_of_mem hmem, he⟩

/-- An entry of the machine among those of a request. -/
theorem mem_baseEntries (h : e₀ ∈ baseEntries (entriesOf (S := cachingServer) i tr)) :
    ∃ e, (i, e) ∈ tr ∧ e.base? = some e₀ := by
  obtain ⟨e, he, hbase⟩ := List.mem_filterMap.mp h
  exact ⟨e, mem_entriesOf.mp he, hbase⟩

theorem View.mem (hv : View now c c₀)
    (h : e₀ ∈ baseEntries (entriesOf (S := cachingServer) i c.trace)) :
    ∃ j, (j, e₀) ∈ c₀.trace := by
  obtain ⟨e, hmem, hbase⟩ := mem_baseEntries h
  exact mem_of_map hv.trace (mem_baseTrace hmem hbase)

/-! ## Users that a request knows -/

/-- The user that is loaded from a token has the root that the token names. -/
theorem Loaded.seen (hv : View now c c₀)
    (h : Loaded token user (baseEntries (entriesOf (S := cachingServer) i c.trace))) :
    Seen c₀ user ∧ user.subjectId = some token.actorKey := by
  obtain ⟨-, a, hpassed, e, he, hrow⟩ := h
  obtain ⟨e', -, hroot⟩ := hpassed.found
  have hkey : a.key = token.actorKey := KeyedTable.key_of_rowAt hroot.rootAt
  have hreply := hrow.reply
  simp only [DbStmt.exec, IdentityStmt.exec, UserStmt.exec, Except.ok.injEq] at hreply
  have hsubject : user.subjectId = some a.key := by simpa using List.find?_some hreply
  obtain ⟨j, hmem⟩ := hv.mem he
  exact ⟨⟨j, e, hmem, List.mem_of_find?_eq_some hreply⟩, by rw [hsubject, hkey]⟩

/-- A user that the cache has was put there by a request that had loaded it,
    and has not been dropped since. -/
theorem inserted_of_get (hc : Reachable (S := cachingServer) (World.fresh now, AuthCache.new ttl) c)
    (htr : c.trace = t₁ ++ (k, e) :: t₂)
    (hget : e.before.2.get token e.before.1.now = some user) :
    ∃ p₁ j x p₂, t₁ = p₁ ++ (j, x) :: p₂ ∧ x.stmt = .inr (.insert token user.key user) ∧
      x.before.2.ttl ≠ none ∧ Loaded token user (baseEntries (entriesOf (S := cachingServer) j p₁)) ∧
      ∀ i d s, (i, d) ∈ p₂ → d.stmt = .inr s → ¬ s.Drops token user.key := by
  obtain ⟨hon, x, hx, hkey, rfl⟩ := AuthCache.get_some hget
  have hsteps := hc.steps
  rw [htr] at hsteps
  have hbefore := hsteps.split_entry.1
  have httl : (AuthCache.new ttl).ttl ≠ none := by
    rw [ttl_along hbefore] at hon
    exact hon
  obtain ⟨token', p₁, j, y, p₂, rfl, hkey', hs, hy, hkept⟩ := stands_of_mem hbefore rfl httl x hx
  obtain rfl : token = token' := hashBearer_inj.mp (hkey.symm.trans hkey')
  have hcut : c.trace = p₁ ++ (j, y) :: (p₂ ++ (k, e) :: t₂) := by
    rw [htr]
    simp
  obtain ⟨r, -, hconduct⟩ := (cacheConduct_holds hc).entries _ _ _ _ hcut
  obtain ⟨hid, hloaded⟩ := hconduct.inserts token x.userId x.user hs
  rw [hid] at hs hkept
  exact ⟨p₁, j, y, p₂, rfl, hs, hy, hloaded, hkept⟩

/-- The user that a request knows has the root that its token names. -/
theorem Known.seen (hc : Reachable (S := cachingServer) (World.fresh now, AuthCache.new ttl) c)
    (hv : View now c c₀) (h : Known token user (entriesOf (S := cachingServer) i c.trace)) :
    Seen c₀ user ∧ user.subjectId = some token.actorKey := by
  rcases h with ⟨⟨e, he, -, hget⟩, -⟩ | hloaded
  · obtain ⟨t₁, t₂, htr⟩ := List.append_of_mem (mem_entriesOf.mp he)
    obtain ⟨p₁, j, x, p₂, rfl, -, -, hloaded, -⟩ := inserted_of_get hc htr hget
    apply Loaded.seen (i := j) hv
    have hcut : c.trace = p₁ ++ ((j, x) :: p₂ ++ (i, e) :: t₂) := by
      rw [htr]
      simp
    rw [hcut, entriesOf_append, baseEntries_append]
    exact hloaded.mono _
  · exact hloaded.seen hv

/-- A user that a request has found stood in a table. -/
theorem seen_of_read (hv : View now c c₀)
    (he : e₀ ∈ baseEntries (entriesOf (S := cachingServer) i c.trace))
    (hu : u ∈ e₀.before.db.users) : Seen c₀ u := by
  obtain ⟨j, hmem⟩ := hv.mem he
  exact ⟨j, e₀, hmem, hu⟩

/-- Of two credential writes of a password reset, both are of one actor. -/
theorem writes_one (hc : Reachable (S := cachingServer) (World.fresh now, AuthCache.new ttl) c)
    {cfg : Config} {resetToken newPassword : Str} {b : Str} {x y : Entry machine}
    (hr : c.reqOf i = some (.resetPassword cfg resetToken newPassword))
    (hx : x ∈ baseEntries (entriesOf (S := cachingServer) i c.trace))
    (hy : y ∈ baseEntries (entriesOf (S := cachingServer) i c.trace))
    (ha : x.stmt.writesCredentialOf a) (hb : y.stmt.writesCredentialOf b) : a = b := by
  -- the later write is of the actor of the earlier one
  have hlater : ∀ {x y : Entry authCache.machine} {x₀ y₀ : Entry machine} {a b : Str}
      {l₁ l₂ l₃ : List (Entry authCache.machine)},
      entriesOf (S := cachingServer) i c.trace = l₁ ++ x :: (l₂ ++ y :: l₃) →
      x.base? = some x₀ → y.base? = some y₀ → x₀.stmt.writesCredentialOf a →
      y₀.stmt.writesCredentialOf b → a = b := by
    intro x y x₀ y₀ a b l₁ l₂ l₃ hl hx hy ha hb
    have hl' : entriesOf (S := cachingServer) i c.trace = (l₁ ++ x :: l₂) ++ y :: l₃ := by
      rw [hl]
      simp
    obtain ⟨tr₁, tr₂, htr, htr₁, -⟩ := entriesOf_split hl'
    obtain ⟨r, hr', hconduct⟩ := (cacheConduct_holds hc).entries _ _ _ _ htr
    obtain rfl : _ = r := Option.some.inj (hr.symm.trans hr')
    obtain ⟨ctx, s | s, w⟩ := y
    · cases hy
      apply hconduct.writes s b a rfl hb ⟨cfg, resetToken, newPassword, rfl⟩
      refine ⟨x₀, ?_, ha⟩
      rw [htr₁]
      exact List.mem_filterMap.mpr ⟨x, by simp, hx⟩
    · cases hy
  obtain ⟨x', hx', hxbase⟩ := List.mem_filterMap.mp hx
  obtain ⟨y', hy', hybase⟩ := List.mem_filterMap.mp hy
  rcases split_members hx' hy' with heq | ⟨l₁, l₂, l₃, hl⟩ | ⟨l₁, l₂, l₃, hl⟩
  · subst heq
    cases hxbase.symm.trans hybase
    have hone : ∀ s : Stmt, s.writesCredentialOf a → s.writesCredentialOf b → a = b := by
      intro s ha hb
      unfold Stmt.writesCredentialOf at ha hb
      split at ha
      · exact ha.symm.trans hb
      · exact ha.symm.trans hb
      · cases ha
    exact hone _ ha hb
  · exact hlater hl hxbase hybase ha hb
  · exact (hlater hl hybase hxbase hb ha).symm

namespace CachedCall

/-- The user whose sessions an operation ends stood in a table. -/
theorem Owner.seen (hc : Reachable (S := cachingServer) (World.fresh now, AuthCache.new ttl) c)
    (hv : View now c c₀) (h : r.Owner (entriesOf (S := cachingServer) i c.trace) u) :
    Seen c₀ u := by
  cases r with
  | authed bearer action =>
    cases action with
    | logoutAll => exact (Known.seen hc hv h).1
    | updateAccountStatus userId status =>
      obtain ⟨e, he, hfound⟩ := h
      exact seen_of_read hv he (key_of_findById hfound).1
    | _ => cases h
  | resetPassword cfg resetToken newPassword =>
    obtain ⟨⟨email, e, he, hfound⟩, -⟩ := h
    exact seen_of_read hv he hfound.findByEmail
  | _ => cases h

/-- An operation ends the sessions of one user. -/
theorem Owner.key_eq (hc : Reachable (S := cachingServer) (World.fresh now, AuthCache.new ttl) c)
    (hview : View now c c₀) (hr : c.reqOf i = some r)
    (hu : r.Owner (entriesOf (S := cachingServer) i c.trace) u)
    (hv : r.Owner (entriesOf (S := cachingServer) i c.trace) v) : v.key = u.key := by
  have hsu := hu.seen hc hview
  have hsv := hv.seen hc hview
  have hsame : ∀ b, u.subjectId = some b → v.subjectId = some b → v.key = u.key := by
    intro b hb hb'
    exact hsv.key_eq hview.reachable hsu hb' hb
  cases r with
  | authed bearer action =>
    cases action with
    | logoutAll => exact hsame _ (Known.seen hc hview hu).2 (Known.seen hc hview hv).2
    | updateAccountStatus userId status =>
      obtain ⟨e, -, he⟩ := hu
      obtain ⟨e', -, he'⟩ := hv
      exact (key_of_findById he').2.trans (key_of_findById he).2.symm
    | _ => cases hu
  | resetPassword cfg resetToken newPassword =>
    obtain ⟨-, b, hb, x, hx, hxwrites⟩ := hu
    obtain ⟨-, b', hb', y, hy, hywrites⟩ := hv
    obtain rfl := writes_one hc hr hx hy hxwrites hywrites
    exact hsame b hb hb'
  | _ => cases hu

theorem Owner.mono {h : List (Entry authCache.machine)} (ho : r.Owner h u)
    (t : List (Entry authCache.machine)) : r.Owner (h ++ t) u := by
  cases r with
  | authed bearer action =>
    cases action with
    | logoutAll => exact Known.mono ho t
    | updateAccountStatus userId status =>
      show Heard (baseEntries _) _ _
      rw [baseEntries_append]
      exact Heard.mono ho _
    | _ => cases ho
  | resetPassword cfg resetToken newPassword =>
    show Replaced u (baseEntries _)
    rw [baseEntries_append]
    exact Replaced.mono ho _
  | _ => cases ho

end CachedCall

end

/-! ## What an operation revokes -/

section

variable [Platform] {now : Timestamp} {ttl : Nat} {c c' : (cachingServer).Conf}
  {c₀ : (server).Conf} {i j k : Nat} {tr t₁ t₂ : List (Nat × Entry authCache.machine)}
  {d e : Entry authCache.machine} {d₀ e₀ : Entry machine} {token : Claims} {user u : User}
  {r : CachedCall} {s : Session}

/-- A token that the operation `r` ends, which serves request `i` and is about
    to delete sessions after `t₁`: the token that logs out, or any session
    token of the user. -/
structure Affected (r : CachedCall) (i : Nat) (t₁ : List (Nat × Entry authCache.machine))
    (token : Claims) (s : Session) : Prop where
  created : ∃ j e, (j, e) ∈ t₁ ∧ e.stmt = .inl (.db (.session (.create s)))
  bearer : s.tokenHash = hashBearer token
  owner : r = .authed token .logout ∨
    ∃ u, r.Owner (entriesOf (S := cachingServer) i t₁) u ∧ u.subjectId = some s.userId

/-- The session of a token has the root that the token names. -/
theorem actorKey_of_session (hc₀ : Reachable (World.fresh now) c₀)
    (hcreate : (j, e₀) ∈ c₀.trace) (hs : e₀.stmt = .db (.session (.create s)))
    (hhash : s.tokenHash = hashBearer token) (hplain : IsPlainKey s.userId) :
    token.actorKey = s.userId := by
  obtain ⟨tr₁, tr₂, htr⟩ := List.append_of_mem hcreate
  obtain ⟨r, -, hconduct⟩ := conducted_at hc₀ htr
  obtain ⟨ctx, stmt, w⟩ := e₀
  obtain rfl : stmt = .db (.session (.create s)) := hs
  have hopens : Opens r _ s := hconduct
  obtain ⟨claims, hclaims, hsub, -⟩ := hopens.bearer
  obtain rfl : claims = token := hashBearer_inj.mp (hclaims.symm.trans hhash)
  unfold Claims.actorKey
  rw [hsub]
  have hnormal : normalizeActorId s.userId = s.userId := hplain.normalizeId (by decide)
  rw [hnormal]
  exact hplain.idArgumentKey_address (by decide)

/-- The deletion covers the sessions of the affected tokens. -/
theorem Affected.covers
    (hc : Reachable (S := cachingServer) (World.fresh now, AuthCache.new ttl) c)
    (hr : c.reqOf i = some r) (hends : r.Ends) (htr : c.trace = t₁ ++ (i, d) :: t₂)
    (hd : d.base? = some d₀) (hdeletes : DeletesSessions d.stmt)
    (h : Affected r i t₁ token s) : Covers d₀ s := by
  obtain ⟨r', hr', hconduct⟩ := (cacheConduct_holds hc).entries _ _ _ _ htr
  obtain rfl : r = r' := Option.some.inj (hr.symm.trans hr')
  obtain ⟨ctx, stmt | stmt, w⟩ := d
  · cases hd
    unfold DeletesSessions at hdeletes
    split at hdeletes
    · next hash hs =>
      obtain rfl := Sum.inl.inj hs
      obtain ⟨bearer, rfl, rfl⟩ := hconduct.deletesToken hash rfl hends
      left
      rcases h.owner with hlogout | ⟨u, hu, -⟩
      · cases hlogout
        rw [h.bearer]
      · cases hu
    · next key hs =>
      obtain rfl := Sum.inl.inj hs
      obtain ⟨v, hv, rfl⟩ := hconduct.deletesUser key rfl hends
      right
      rcases h.owner with rfl | ⟨u, hu, hsubject⟩
      · cases hv
      · obtain ⟨c₁, hc₁, htrace, hstate⟩ := hc.before htr
        obtain ⟨c₀, hview⟩ := exists_view hc
        obtain ⟨c₁₀, hview₁⟩ := exists_view hc₁
        obtain ⟨late, hlate⟩ : ∃ late, entriesOf (S := cachingServer) i c.trace =
            entriesOf (S := cachingServer) i t₁ ++ late := by
          rw [htr, entriesOf_append]
          exact ⟨_, rfl⟩
        have hkey : v.key = u.key := by
          apply CachedCall.Owner.key_eq hc hview hr
          · rw [hlate]
            exact hu.mono _
          · rw [hlate]
            exact hv.mono _
        subst htrace
        have hseen : Seen c₁₀ u := hu.seen hc₁ hview₁
        have hplain := (hseen.plain hview₁.reachable hsubject).1
        have hnormal : normalizeUserId u.key = u.key := hplain.normalizeId (by decide)
        have hfound := hseen.subjectOf hview₁.reachable hsubject
        rw [hview₁.state, hstate] at hfound
        refine ⟨_, rfl, ?_⟩
        rw [hkey, hnormal]
        exact hfound
    · cases hdeletes
  · cases hd

/-- The request has found the session of the token alive. -/
def FoundAlive (token : Claims) (h : List (Entry authCache.machine)) : Prop :=
  ∃ t, Heard (baseEntries h) (.session (.isActive (hashBearer token) t)) true

/-- Whoever loads the user of an affected token has found its session alive
    before the deletion. -/
theorem found_before
    (hc : Reachable (S := cachingServer) (World.fresh now, AuthCache.new ttl) c)
    (htr : c.trace = t₁ ++ (i, d) :: t₂) (hd : d.base? = some d₀) (hcovers : Covers d₀ s)
    (heffect : TookEffect d₀)
    (hcreate : ∃ j e, (j, e) ∈ t₁ ∧ e.stmt = .inl (.db (.session (.create s))))
    (hhash : s.tokenHash = hashBearer token) (hsub : ∀ x ∈ tr, x ∈ c.trace)
    (h : Loaded token user (baseEntries (entriesOf (S := cachingServer) j tr))) :
    FoundAlive token (entriesOf (S := cachingServer) j t₁) := by
  obtain ⟨⟨t, q₀, hq₀, hlive⟩, -⟩ := h
  obtain ⟨q, hq, hbase⟩ := mem_baseEntries hq₀
  have hmem : (j, q) ∈ t₁ ++ (i, d) :: t₂ := by
    rw [← htr]
    exact hsub _ hq
  rcases List.mem_append.mp hmem with hearly | hlate
  · exact ⟨t, q₀, List.mem_filterMap.mpr ⟨q, mem_entriesOf.mpr hearly, hbase⟩, hlive⟩
  exfalso
  obtain ⟨c₀, hview⟩ := exists_view hc
  obtain ⟨u₁, j', u₂, htr₀, hu₁, hu₂⟩ := hview.split htr hd
  rcases List.mem_cons.mp hlate with heq | hlate
  · -- the deletion itself is no look-up
    obtain ⟨rfl, rfl⟩ := Prod.mk.inj heq
    cases hbase.symm.trans hd
    rcases hcovers with hs | ⟨key, hs, -⟩
    · cases hs.symm.trans hlive.stmt
    · cases hs.symm.trans hlive.stmt
  · obtain ⟨j₁, e, hin, hs⟩ := hcreate
    obtain ⟨ctx, stmt, w⟩ := e
    obtain rfl : stmt = .inl (.db (.session (.create s))) := hs
    obtain ⟨j₂, hin₀⟩ := mem_of_map hu₁ (mem_baseTrace hin rfl)
    obtain ⟨k, hq'⟩ := mem_of_map hu₂ (mem_baseTrace hlate hbase)
    exact session_gone hview.reachable htr₀ ⟨j₂, _, hin₀, rfl⟩ hhash (hcovers.deleted heffect)
      hq' hlive

/-- No request that has found the session alive before the deletion puts its
    user into the cache after request `i` has cleared it for the last time. -/
def InOrder (i : Nat) (t₁ : List (Nat × Entry authCache.machine)) (token : Claims)
    (c : (cachingServer).Conf) : Prop :=
  ∀ v₁ j e v₂ userId user, c.trace = v₁ ++ (j, e) :: v₂ →
    e.stmt = .inr (.insert token userId user) → e.before.2.ttl ≠ none →
    FoundAlive token (entriesOf (S := cachingServer) j t₁) → ∃ x, (i, x) ∈ v₂ ∧ Clears x.stmt

/-- No identity root under this key is active from `c` on. -/
def RootInactive (key : Str) (c c' : (cachingServer).Conf) : Prop :=
  ∀ tr, c'.trace = c.trace ++ tr → ∀ x ∈ tr, ∀ a ∈ x.2.before.1.db.identity.actors,
    a.key = key → a.status ≠ .active

/-- The request is refused, and does nothing but look things up. -/
structure Rejected (c : (cachingServer).Conf) (k : Nat) (token : Claims) : Prop where
  unknown : ∀ user, ¬ Known token user (entriesOf (S := cachingServer) k c.trace)
  refused : ∀ reply, ¬ c.Returned k (.ok reply)
  lookups : ∀ e ∈ entriesOf (S := cachingServer) k c.trace, IsLookup e.stmt

/-- A request that never knows a user is rejected. -/
theorem rejected_of_unknown {action : UserAction}
    (hc : Reachable (S := cachingServer) (World.fresh now, AuthCache.new ttl) c)
    (hk : c.reqOf k = some (.authed token action))
    (h : ∀ user, ¬ Known token user (entriesOf (S := cachingServer) k c.trace)) :
    Rejected c k token where
  unknown := h
  refused reply hret := by
    obtain ⟨r, hr, hconclude⟩ := (cacheConduct_holds hc).returned hret
    obtain rfl : _ = r := Option.some.inj (hk.symm.trans hr)
    obtain ⟨user, hknown⟩ := hconclude.admitted token action reply rfl rfl
    exact h user hknown
  lookups e he := by
    obtain ⟨tr₁, tr₂, htr⟩ := List.append_of_mem (mem_entriesOf.mp he)
    obtain ⟨r, hr, hconduct⟩ := (cacheConduct_holds hc).entries _ _ _ _ htr
    obtain rfl : _ = r := Option.some.inj (hk.symm.trans hr)
    rcases hconduct.admitted token action rfl with ⟨user, hknown⟩ | hlookup
    · exfalso
      apply h user
      rw [htr, entriesOf_append]
      exact hknown.mono _
    · exact hlookup

/-- What a later request has let in is of the user whose sessions ended. -/
theorem user_of_affected
    (hc : Reachable (S := cachingServer) (World.fresh now, AuthCache.new ttl) c)
    (hview : View now c c₀) (htr : c.trace = t₁ ++ t₂)
    (hcreate : ∃ j e, (j, e) ∈ t₁ ∧ e.stmt = .inl (.db (.session (.create s))))
    (hhash : s.tokenHash = hashBearer token)
    (hu : r.Owner (entriesOf (S := cachingServer) i t₁) u) (hsubject : u.subjectId = some s.userId) :
    token.actorKey = s.userId ∧ Seen c₀ u := by
  have hseen : Seen c₀ u := by
    apply CachedCall.Owner.seen (i := i) (r := r) hc hview
    rw [htr, entriesOf_append]
    exact hu.mono _
  obtain ⟨j, e, hin, hs⟩ := hcreate
  obtain ⟨ctx, stmt, w⟩ := e
  obtain rfl : stmt = .inl (.db (.session (.create s))) := hs
  have hin' : (j, ⟨ctx, .inl (.db (.session (.create s))), w⟩) ∈ c.trace := by
    rw [htr]
    exact List.mem_append_left _ hin
  obtain ⟨j', hin₀⟩ := mem_of_map hview.trace (mem_baseTrace hin' rfl)
  have hplain := (hseen.plain hview.reachable hsubject).2
  exact ⟨actorKey_of_session hview.reachable hin₀ rfl hhash hplain, hseen⟩

/-- A clearing by the operation drops the users of the affected tokens. -/
theorem drops_of_clears
    (hc : Reachable (S := cachingServer) (World.fresh now, AuthCache.new ttl) c)
    (hr : c.reqOf i = some r) (hends : r.Ends) (htr : c.trace = t₁ ++ t₂)
    (h : Affected r i t₁ token s) (hk : ∃ c₀, View now c c₀ ∧ Seen c₀ user)
    (huser : user.subjectId = some token.actorKey) (hmem : (i, e) ∈ c.trace)
    (hclears : Clears e.stmt) : ∃ q, e.stmt = .inr q ∧ q.Drops token user.key := by
  obtain ⟨p₁, p₂, hcut⟩ := List.append_of_mem hmem
  obtain ⟨r', hr', hconduct⟩ := (cacheConduct_holds hc).entries _ _ _ _ hcut
  obtain rfl : r = r' := Option.some.inj (hr.symm.trans hr')
  unfold Clears at hclears
  split at hclears
  · next bearer hs =>
    obtain rfl := hconduct.clearsToken bearer hs hends
    refine ⟨_, hs, ?_⟩
    rcases h.owner with hlogout | ⟨u, hu, -⟩
    · cases hlogout
      rfl
    · cases hu
  · next key hs =>
    obtain ⟨v, hv, rfl⟩ := hconduct.clearsUser key hs hends
    refine ⟨_, hs, ?_⟩
    rcases h.owner with rfl | ⟨u, hu, hsubject⟩
    · cases hv
    · obtain ⟨c₀, hview, hseen⟩ := hk
      obtain ⟨hactor, huseen⟩ := user_of_affected hc hview htr h.created h.bearer hu hsubject
      have hkeys : v.key = u.key := by
        apply CachedCall.Owner.key_eq hc hview hr
        · rw [htr, entriesOf_append]
          exact hu.mono _
        · rw [hcut, entriesOf_append]
          exact hv.mono _
      have hsame : user.key = u.key := by
        apply hseen.key_eq hview.reachable huseen _ hsubject
        rw [huser, hactor]
      show v.key = user.key
      rw [hkeys, hsame]
  · cases hclears

/-- With the clearings in order, no later request knows the user of an
    affected token. -/
theorem unknown_of_inOrder {tr : List (Nat × Entry authCache.machine)}
    (hc : Reachable (S := cachingServer) (World.fresh now, AuthCache.new ttl) c')
    (hr : c'.reqOf i = some r) (hends : r.Ends) (htr : c'.trace = t₁ ++ (i, d) :: t₂ ++ tr)
    (hd : d.base? = some d₀) (hcovers : Covers d₀ s) (heffect : TookEffect d₀)
    (h : Affected r i t₁ token s)
    (hlater : ∀ e, (k, e) ∈ c'.trace → (k, e) ∈ tr) (hdone : ∀ e, (i, e) ∉ tr)
    (hlast : ∀ e, (k, e) ∉ t₁)
    (horder : InOrder i t₁ token c') (user : User) :
    ¬ Known token user (entriesOf (S := cachingServer) k c'.trace) := by
  have hcut : c'.trace = t₁ ++ (i, d) :: (t₂ ++ tr) := by
    rw [htr]
    simp
  intro hknown
  obtain ⟨c₀, hview⟩ := exists_view hc
  have huser := hknown.seen hc hview
  rcases hknown with ⟨⟨g, hg, -, hget⟩, -⟩ | hloaded
  · have hmem := hlater g (mem_entriesOf.mp hg)
    obtain ⟨m₁, m₂, rfl⟩ := List.append_of_mem hmem
    have hat : c'.trace = (t₁ ++ (i, d) :: t₂ ++ m₁) ++ (k, g) :: m₂ := by
      rw [htr]
      simp
    obtain ⟨p₁, j, x, p₂, hp, hs, hon, hloaded, hkept⟩ := inserted_of_get hc hat hget
    have hins : c'.trace = p₁ ++ (j, x) :: (p₂ ++ (k, g) :: m₂) := by
      rw [hat, hp]
      simp
    have hearly : ∀ y ∈ p₁, y ∈ c'.trace := by
      intro y hy
      rw [hins]
      exact List.mem_append_left _ hy
    have halive := found_before hc hcut hd hcovers heffect h.created h.bearer hearly hloaded
    obtain ⟨y, hy, hclears⟩ := horder p₁ j x _ user.key user hins hs hon halive
    -- the clearing stands before the look-up: the operation has returned by then
    have hin : (i, y) ∈ p₂ := by
      rcases List.mem_append.mp hy with hy | hy
      · exact hy
      · exact absurd (List.mem_append_right _ hy) (hdone y)
    have hmem' : (i, y) ∈ c'.trace := by
      rw [hins]
      simp [hin]
    obtain ⟨q, hq, hdrops⟩ := drops_of_clears hc hr hends hcut h ⟨c₀, hview, huser.1⟩ huser.2
      hmem' hclears
    exact hkept i y q hin hq hdrops
  · obtain ⟨t, e₀, he₀, -⟩ := found_before hc hcut hd hcovers heffect h.created h.bearer
      (fun _ hx => hx) hloaded
    obtain ⟨e, hmem, -⟩ := mem_baseEntries he₀
    exact hlast e hmem

/-- While the identity root is not active, no request knows the user. -/
theorem unknown_of_inactive {tr : List (Nat × Entry authCache.machine)}
    (hc : Reachable (S := cachingServer) (World.fresh now, AuthCache.new ttl) c')
    (htr : c'.trace = c.trace ++ tr) (hcut : c.trace = t₁ ++ t₂)
    (hcreate : ∃ j e, (j, e) ∈ t₁ ∧ e.stmt = .inl (.db (.session (.create s))))
    (hhash : s.tokenHash = hashBearer token)
    (hu : r.Owner (entriesOf (S := cachingServer) i t₁) u) (hsubject : u.subjectId = some s.userId)
    (hlater : ∀ e, (k, e) ∈ c'.trace → (k, e) ∈ tr)
    (hinactive : RootInactive s.userId c c') (user : User) :
    ¬ Known token user (entriesOf (S := cachingServer) k c'.trace) := by
  obtain ⟨c₀, hview⟩ := exists_view hc
  have hall : c'.trace = t₁ ++ (t₂ ++ tr) := by
    rw [htr, hcut]
    simp
  obtain ⟨hactor, huseen⟩ := user_of_affected hc hview hall hcreate hhash hu hsubject
  have hplain := (huseen.plain hview.reachable hsubject).2
  -- the gate finds no active root under the key
  have hgate : ∀ key a, idArgumentKey (actorAddress (normalizeActorId key)) = s.userId →
      ¬ ActorPassed (baseEntries (entriesOf (S := cachingServer) k c'.trace)) key a := by
    intro key a hkey hpassed
    obtain ⟨e₀, he₀, hroot⟩ := hpassed.found
    obtain ⟨e, hmem, hbase⟩ := mem_baseEntries he₀
    have hrow := hroot.rootAt
    rw [hkey] at hrow
    obtain ⟨ctx, stmt | stmt, w⟩ := e
    · cases hbase
      exact hinactive tr htr _ (hlater _ hmem) a (KeyedTable.mem_of_rowAt hrow)
        (KeyedTable.key_of_rowAt hrow) hpassed.active
    · cases hbase
  intro hknown
  have huser := hknown.seen hc hview
  rcases hknown with ⟨-, a, key, ⟨e₀, he₀, hsub⟩, hpassed⟩ | ⟨-, a, hpassed, -⟩
  · have hbound : user.subjectId = some s.userId := by rw [huser.2, hactor]
    have hnormal : normalizeUserId user.key = user.key :=
      (huser.1.plain hview.reachable hbound).1.normalizeId (by decide)
    have hreply := hsub.reply
    simp only [DbStmt.exec, IdentityStmt.exec, UserStmt.exec, Except.ok.injEq, hnormal] at hreply
    obtain ⟨row, hfind, hrow⟩ := Option.bind_eq_some_iff.mp hreply
    obtain ⟨j, hmem⟩ := hview.mem he₀
    have hseen : Seen c₀ row := ⟨j, e₀, hmem, List.mem_of_find?_eq_some hfind⟩
    have hrowkey : row.key = user.key := by simpa using List.find?_some hfind
    have hkey : key = s.userId := by
      have hsame := hseen.subjectId_eq hview.reachable huser.1 hrowkey
      rw [hrow, hbound] at hsame
      exact Option.some.inj hsame
    apply hgate key a _ hpassed
    rw [hkey]
    have hnormal' : normalizeActorId s.userId = s.userId := hplain.normalizeId (by decide)
    rw [hnormal']
    exact hplain.idArgumentKey_address (by decide)
  · exact hgate token.sub a hactor hpassed

/-- A change of an account's status, whose deletion of sessions may fail
    unnoticed. -/
def CachedCall.ChangesStatus (r : CachedCall) : Prop :=
  ∃ token userId status, r = .authed token (.updateAccountStatus userId status)

/-- **Revocation under a cache.** An operation that ends sessions and has
    returned has deleted them, unless it changed a status. A request that
    presents one of their tokens from then on is rejected in every run in
    which the deletion took effect and nobody puts the token into the cache
    after it was last cleared; after a change of status also as long as the
    identity root is not active. -/
theorem cached_authentication_revoked
    (hc : Reachable (S := cachingServer) (World.fresh now, AuthCache.new ttl) c)
    (hr : c.reqOf i = some r) (hends : r.Ends) {reply : Reply} (hret : c.Returned i (.ok reply)) :
    (¬ r.ChangesStatus → ∃ t₁ d t₂, c.trace = t₁ ++ (i, d) :: t₂ ∧ DeletesSessions d.stmt ∧
      d.ctx.fault = none) ∧
    ∀ t₁ d d₀ t₂ token s, c.trace = t₁ ++ (i, d) :: t₂ → d.base? = some d₀ →
      DeletesSessions d.stmt → Affected r i t₁ token s → ∀ action as c',
      c' = (c.next (.start (.authed token action))).run as →
      (TookEffect d₀ ∧ InOrder i t₁ token c' ∨ r.ChangesStatus ∧ RootInactive s.userId c c') →
      Rejected c' c.threads.length token := by
  have hinv := cacheConduct_holds hc
  constructor
  · intro hnot
    obtain ⟨r', hr', hconclude⟩ := hinv.returned hret
    obtain rfl : r = r' := Option.some.inj (hr.symm.trans hr')
    obtain ⟨d, hd, hdeletes, hfault⟩ := hconclude.deletes reply rfl hends (by
      intro token userId status hstatus
      exact hnot ⟨token, userId, status, hstatus⟩)
    obtain ⟨t₁, t₂, htr⟩ := List.append_of_mem (mem_entriesOf.mp hd)
    exact ⟨t₁, d, t₂, htr, hdeletes, hfault⟩
  · intro t₁ d d₀ t₂ token s htr hd hdeletes haff action as c' hc' hcondition
    have hreach : Reachable (S := cachingServer) (World.fresh now, AuthCache.new ttl) c' := by
      rw [hc']
      exact (hc.next _).run as
    have hreq : c'.reqOf c.threads.length = some (.authed token action) := by
      rw [hc']
      apply Conf.reqOf_run
      simp [Conf.reqOf, Conf.next]
    have hreq' : c'.reqOf i = some r := by
      rw [hc']
      exact Conf.reqOf_run hr (.start (.authed token action) :: as)
    obtain ⟨tr, htrace, hquiet⟩ := c.run_trace (.start (.authed token action) :: as)
    rw [Conf.run_cons, ← hc'] at htrace
    have hdone : ∀ e, (i, e) ∉ tr := by
      intro e he
      have hnone := hquiet i _ hret
      have hin := mem_entriesOf.mpr he
      rw [hnone] at hin
      exact absurd hin List.not_mem_nil
    have hnew : ∀ e, (c.threads.length, e) ∉ c.trace := by
      intro e he
      exact absurd (hinv.known _ he) (Nat.lt_irrefl _)
    have hlater : ∀ e, (c.threads.length, e) ∈ c'.trace → (c.threads.length, e) ∈ tr := by
      intro e he
      rw [htrace] at he
      exact (List.mem_append.mp he).resolve_left (hnew e)
    apply rejected_of_unknown hreach hreq
    rcases hcondition with ⟨heffect, horder⟩ | ⟨⟨bearer, userId, status, rfl⟩, hinactive⟩
    · have hwhole : c'.trace = t₁ ++ (i, d) :: t₂ ++ tr := by rw [htrace, htr]
      have hlast : ∀ e, (c.threads.length, e) ∉ t₁ := by
        intro e he
        apply hnew e
        rw [htr]
        exact List.mem_append_left _ he
      exact unknown_of_inOrder hreach hreq' hends hwhole hd
        (haff.covers hc hr hends htr hd hdeletes) heffect haff hlater hdone hlast horder
    · rcases haff.owner with hlogout | ⟨u, hu, hsubject⟩
      · cases hlogout
      · exact unknown_of_inactive hreach htrace htr haff.created haff.bearer hu hsubject hlater
          hinactive

end

namespace Sample

/-- The choices of the scheduler, from a new instance whose cache keeps its
    entries for five seconds. -/
def cached (as : List (cachingServer).Action) : (cachingServer).Conf :=
  ((cachingServer).initial (World.fresh 0, AuthCache.new 5)).run as

theorem cached_reachable (as : List (cachingServer).Action) :
    Reachable (S := cachingServer) (World.fresh 0, AuthCache.new 5) (cached as) :=
  ⟨as, rfl⟩

def serve (i n : Nat) : List (cachingServer).Action := List.replicate n (.step i Ctx.calm)

/-- Alice's bearer on this instance. -/
def cachedBearer : Claims where
  sub := numbered 'u' 1
  exp := 3600
  iat := 0
  sessionId := some (numbered 'u' 7)
  subjectType := some .human

/-- Request 0 registers Alice, request 1 shows her account. -/
def shown (n : Nat) : List (cachingServer).Action :=
  .start (.call ⟨config, .register registration "ip".toList⟩) :: serve 0 20 ++
    .start (.authed cachedBearer .currentUser) :: serve 1 n

/-- Then request 2 logs her out. -/
def loggedOut (n : Nat) : List (cachingServer).Action :=
  shown n ++ .start (.authed cachedBearer .logout) :: serve 2 12

/-- A request is served where it has been started. -/
theorem reqOf_cached (as bs : List (cachingServer).Action) (r : CachedCall) {k : Nat}
    (hk : (cached as).threads.length = k) : (cached (as ++ .start r :: bs)).reqOf k = some r := by
  have hstart : ((cached as).next (.start r)).reqOf k = some r := by
    rw [← hk]
    simp [Conf.reqOf, Conf.next]
  unfold cached
  rw [Conf.run_append, Conf.run_cons]
  exact Conf.reqOf_run hstart bs

/-- Whether the statement inserts the session of the bearer. -/
def opensCached (e : Entry authCache.machine) : Bool :=
  match e.stmt with
  | .inl (.db (.session (.create s))) => s.tokenHash = hashBearer cachedBearer
  | _ => false

/-- Whether the statement deletes that session, and takes effect. -/
def endsCached (e : Entry authCache.machine) : Bool :=
  match e.stmt with
  | .inl (.db (.session (.deleteByToken _))) => e.ctx.fault = none
  | _ => false

def putsIntoCache (e : Entry authCache.machine) : Bool :=
  match e.stmt with
  | .inr (.insert _ _ _) => true
  | _ => false

def clearsToken (e : Entry authCache.machine) : Bool :=
  match e.stmt with
  | .inr (.invalidateToken _) => true
  | _ => false

/-- A logout that deletes the session at place `n` of the trace. -/
theorem logout_affects {c : (cachingServer).Conf} {i n : Nat}
    (hends : (c.trace[n]?.any fun x => x.1 = i && endsCached x.2) = true)
    (hopens : ((c.trace.take n).any fun x => opensCached x.2) = true) :
    ∃ d d₀ t₂ s, c.trace = c.trace.take n ++ (i, d) :: t₂ ∧ d.base? = some d₀ ∧
      TookEffect d₀ ∧ DeletesSessions d.stmt ∧
      Affected (.authed cachedBearer .logout) i (c.trace.take n) cachedBearer s := by
  rcases hat : c.trace[n]? with _ | ⟨j, ctx, stmt, w⟩
  · rw [hat] at hends
    cases hends
  · rw [hat] at hends
    obtain ⟨hj, hdel⟩ : j = i ∧ endsCached ⟨ctx, stmt, w⟩ = true := by
      simpa using hends
    subst hj
    obtain ⟨⟨k, ctx', stmt', w'⟩, hmem, hopen⟩ := List.any_eq_true.mp hopens
    unfold endsCached at hdel
    split at hdel
    · next hash hs =>
      obtain rfl : stmt = .inl (.db (.session (.deleteByToken hash))) := hs
      unfold opensCached at hopen
      split at hopen
      · next s hs' =>
        refine ⟨_, _, _, s, split_at hat, rfl, .inl (of_decide_eq_true hdel), trivial, ?_⟩
        exact ⟨⟨k, _, hmem, hs'⟩, of_decide_eq_true hopen, .inl rfl⟩
      · cases hopen
    · cases hdel

/-- Nothing is put into the cache after place `m` of the trace, where the
    request clears it. -/
theorem inOrder_of_last {c : (cachingServer).Conf} {i m : Nat}
    {t₁ : List (Nat × Entry authCache.machine)} {token : Claims}
    (hclears : (c.trace[m]?.any fun x => x.1 = i && clearsToken x.2) = true)
    (hnone : ((c.trace.drop m).all fun x => !putsIntoCache x.2) = true) :
    InOrder i t₁ token c := by
  intro v₁ j e v₂ userId user htr hs _ _
  rcases hat : c.trace[m]? with _ | ⟨k, x⟩
  · rw [hat] at hclears
    cases hclears
  · rw [hat] at hclears
    obtain ⟨hk, hclear⟩ : k = i ∧ clearsToken x = true := by
      simpa using hclears
    subst hk
    have hstmt : Clears x.stmt := by
      unfold clearsToken at hclear
      split at hclear
      · next hx =>
        rw [hx]
        trivial
      · cases hclear
    by_cases hlt : v₁.length < m
    · refine ⟨x, ?_, hstmt⟩
      rw [htr, List.getElem?_append_right (Nat.le_of_lt hlt)] at hat
      obtain ⟨l, hl⟩ : ∃ l, m - v₁.length = l + 1 := ⟨m - v₁.length - 1, by omega⟩
      rw [hl, List.getElem?_cons_succ] at hat
      exact List.mem_of_getElem? hat
    · -- an insertion at or after the place
      have hmem : (j, e) ∈ c.trace.drop m := by
        rw [htr, List.drop_append_of_le_length (Nat.le_of_not_lt hlt)]
        simp
      have hno := List.all_eq_true.mp hnone _ hmem
      simp [putsIntoCache, hs] at hno

/-- Alice is shown her account, logs out, and presents the bearer again: it is
    refused. -/
theorem logged_out_rejected :
    Rejected (((cached (loggedOut 10)).next (.start (.authed cachedBearer .currentUser))).run
      (serve 3 6)) 3 cachedBearer := by
  obtain ⟨d, d₀, t₂, s, htr, hd, heffect, hdeletes, haff⟩ := logout_affects
    (c := cached (loggedOut 10)) (i := 2) (n := 34) (by decide +kernel) (by decide +kernel)
  have hlen : (cached (loggedOut 10)).threads.length = 3 := by decide +kernel
  have hreq : (cached (loggedOut 10)).reqOf 2 = some (.authed cachedBearer .logout) :=
    reqOf_cached (shown 10) (serve 2 12) _ (by decide +kernel)
  have hret : (cached (loggedOut 10)).Returned 2 (.ok .ok) :=
    Conf.returned_of_outcome (by decide +kernel)
  have hrejected := (cached_authentication_revoked (cached_reachable _) hreq trivial hret).2 _ d d₀ t₂ cachedBearer s htr hd hdeletes haff .currentUser (serve 3 6) _ rfl
    (.inl ⟨heffect, inOrder_of_last (m := 36) (by decide +kernel) (by decide +kernel)⟩)
  rw [hlen] at hrejected
  exact hrejected

/-- The look-ups of request 1 are done when Alice logs out, and its insertion
    is not: her bearer is accepted after the logout. -/
theorem logged_out_accepted :
    ¬ ∀ (now : Timestamp) (ttl : Nat) (c : (cachingServer).Conf),
      Reachable (S := cachingServer) (World.fresh now, AuthCache.new ttl) c → ∀ i r reply,
        c.reqOf i = some r → r.Ends → c.Returned i (.ok reply) → ∀ t₁ d t₂ token s,
        c.trace = t₁ ++ (i, d) :: t₂ → DeletesSessions d.stmt → Affected r i t₁ token s →
        ∀ action as, Rejected ((c.next (.start (.authed token action))).run as)
          c.threads.length token := by
  intro h
  obtain ⟨d, d₀, t₂, s, htr, -, -, hdeletes, haff⟩ := logout_affects
    (c := cached (loggedOut 7)) (i := 2) (n := 35) (by decide +kernel) (by decide +kernel)
  have hlen : (cached (loggedOut 7)).threads.length = 3 := by decide +kernel
  have hreq : (cached (loggedOut 7)).reqOf 2 = some (.authed cachedBearer .logout) :=
    reqOf_cached (shown 7) (serve 2 12) _ (by decide +kernel)
  have hret : (cached (loggedOut 7)).Returned 2 (.ok .ok) :=
    Conf.returned_of_outcome (by decide +kernel)
  have hrejected := h 0 5 _ (cached_reachable (loggedOut 7)) 2 _ .ok hreq trivial hret _ d t₂
    cachedBearer s htr hdeletes haff .currentUser (serve 1 1 ++ serve 3 6)
  rw [hlen] at hrejected
  have hanswer : ((((cached (loggedOut 7)).next (.start (.authed cachedBearer .currentUser))).run
      (serve 1 1 ++ serve 3 6)).outcome 3).any (fun out => out.isOk) = true := by decide +kernel
  obtain ⟨out, hout, hok⟩ := (Option.any_eq_true ..).mp hanswer
  cases out with
  | ok reply => exact hrejected.refused reply (Conf.returned_of_outcome hout)
  | error x => cases hok

end Sample

end SoulAuth
