import SoulAuth.Proofs.Artefacts
import SoulAuth.Proofs.Tables

/-! # Replays of refresh tokens

A refresh token that comes back after it was consumed counts as stolen. A
request that sees the token as used deletes what the client holds for the
user. One that loses the conditional update deletes nothing, and a request in
flight may save its tokens after the deletion.
-/

namespace SoulAuth

open Framework Framework.System

section

variable [Platform]

/-! ## Tokens of a pair -/

/-- No live token of the client and the actor was saved by one of the first
    `k` requests. -/
structure PairCut (c : (server).Conf) (k : Nat) (clientId actorKey : Str) : Prop where
  access : ∀ t ∈ c.state.db.accessTokens, t.clientId = clientId → t.userId = actorKey →
    ¬ t.expiresAt < c.state.now → ∀ n j, AccessSavedAt c n j t → k ≤ j
  refresh : ∀ t ∈ c.state.db.refreshTokens, t.clientId = clientId → t.userId = actorKey →
    t.used = false → ¬ t.expiresAt < c.state.now → ∀ n j, RefreshSavedAt c n j t → k ≤ j

/-! ## The replay -/

/-- Request `i` presents a refresh token of the client and the actor of a
    human, which another request has consumed, and it is refused for that. -/
structure Replayed (c : (server).Conf) (i : Nat) (token clientId actorKey : Str) : Prop where
  presents : PresentsRefresh c i token
  human : ∃ g, Conceived c.trace g ∧ g.actor.key = actorKey
  pair : ∀ stored, Heard (entriesOf (S := server) i c.trace)
    (.refreshToken (.get (hashBearer token))) (some stored) →
    stored.clientId = clientId ∧ stored.userId = actorAddress actorKey
  consumed : ∃ j e, j ≠ i ∧ (j, e) ∈ c.trace ∧
    Answered (.refreshToken (.consume (hashBearer token))) 1 e
  refused : c.Returned i (.error (.oidc refreshTokenAlreadyUsed))

/-- The number of statements that request `i` still has before it after place
    `n`. -/
def toCome (c : (server).Conf) (i n : Nat) : Nat :=
  (entriesOf (S := server) i (c.trace.drop (n + 1))).length

/-- What makes a refusal effective. Either request `i` finds the token marked
    as used, and what one of the first `k` requests saves for the pair, it saves
    before the deletions, which are the last two statements of `i`. Or `i` loses
    the update while the pair has no token, and none of them saves one later. -/
inductive Secured (c : (server).Conf) (i k : Nat) (token clientId actorKey : Str) : Prop
  | seen
      (used : ∀ stored, Heard (entriesOf (S := server) i c.trace)
        (.refreshToken (.get (hashBearer token))) (some stored) → stored.used = true)
      (access : ∀ n j t, AccessSavedAt c n j t → j < k → t.clientId = clientId →
        t.userId = actorKey → 2 ≤ toCome c i n)
      (refresh : ∀ n j t, RefreshSavedAt c n j t → j < k → t.clientId = clientId →
        t.userId = actorKey → 1 ≤ toCome c i n)
  | lost (n : Nat) (e : Entry machine) (place : c.trace[n]? = some (i, e))
      (update : e.stmt = .db (.refreshToken (.consume (hashBearer token))))
      (noAccess : ∀ t ∈ e.before.db.accessTokens, ¬ (t.clientId = clientId ∧ t.userId = actorKey))
      (noRefresh : ∀ t ∈ e.before.db.refreshTokens, t.used = false →
        ¬ (t.clientId = clientId ∧ t.userId = actorKey))
      (access : ∀ m j t, n < m → AccessSavedAt c m j t → t.clientId = clientId →
        t.userId = actorKey → k ≤ j)
      (refresh : ∀ m j t, n < m → RefreshSavedAt c m j t → t.clientId = clientId →
        t.userId = actorKey → k ≤ j)

section

variable {now : Timestamp} {c : (server).Conf} {i j k n m : Nat} {token clientId actorKey : Str}
  {e : Entry machine}

/-! ## After a deletion -/

/-- After a place where the pair holds no access token, it holds those only
    that later requests save. -/
theorem access_cut (hc : Reachable (World.fresh now) c) (hat : c.trace[n]? = some (i, e))
    (hnone : ∀ t ∈ e.after.db.accessTokens, ¬ (t.clientId = clientId ∧ t.userId = actorKey))
    (hlate : ∀ m j t, n < m → AccessSavedAt c m j t → t.clientId = clientId →
      t.userId = actorKey → k ≤ j) :
    ∀ t ∈ c.state.db.accessTokens, t.clientId = clientId → t.userId = actorKey →
      ∀ m j, AccessSavedAt c m j t → k ≤ j := by
  refine hc.steps.holds_since (P := fun w => ∀ t ∈ w.db.accessTokens, t.clientId = clientId →
    t.userId = actorKey → ∀ m j, AccessSavedAt c m j t → k ≤ j) hat ?_ ?_
  · intro t ht hclient huser
    exact absurd ⟨hclient, huser⟩ (hnone t ht)
  · intro m j e' hlt hat' hold t ht hclient huser
    rcases access_before ht with ht | hsaves
    · exact hold t ht hclient huser
    · -- whoever else saves it is the same request
      intro m' j' hsaves'
      obtain rfl : j = j' := AccessSavedAt.request_unique hc ⟨e', hat', hsaves⟩ hsaves' rfl
      exact hlate m j t hlt ⟨e', hat', hsaves⟩ hclient huser

/-- The same for refresh tokens that have not been used. -/
theorem refresh_cut (hc : Reachable (World.fresh now) c) (hat : c.trace[n]? = some (i, e))
    (hnone : ∀ t ∈ e.after.db.refreshTokens, t.used = false →
      ¬ (t.clientId = clientId ∧ t.userId = actorKey))
    (hlate : ∀ m j t, n < m → RefreshSavedAt c m j t → t.clientId = clientId →
      t.userId = actorKey → k ≤ j) :
    ∀ t ∈ c.state.db.refreshTokens, t.clientId = clientId → t.userId = actorKey →
      t.used = false → ∀ m j, RefreshSavedAt c m j t → k ≤ j := by
  refine hc.steps.holds_since (P := fun w => ∀ t ∈ w.db.refreshTokens, t.clientId = clientId →
    t.userId = actorKey → t.used = false → ∀ m j, RefreshSavedAt c m j t → k ≤ j) hat ?_ ?_
  · intro t ht hclient huser hunused
    exact absurd ⟨hclient, huser⟩ (hnone t ht hunused)
  · intro m j e' hlt hat' hold t ht hclient huser hunused
    rcases unused_before ht hunused with ht | hsaves
    · exact hold t ht hclient huser hunused
    · intro m' j' hsaves'
      obtain rfl : j = j' := RefreshSavedAt.request_unique hc ⟨e', hat', hsaves⟩ hsaves' rfl
      exact hlate m j t hlt ⟨e', hat', hsaves⟩ hclient huser

/-- After a place of request `i`, fewer of its statements are to come. -/
theorem toCome_le {tr₁ tr₂ : List (Nat × Entry machine)}
    (htr : c.trace = tr₁ ++ (i, e) :: tr₂) (hlt : tr₁.length < m) :
    toCome c i m ≤ (entriesOf (S := server) i tr₂).length := by
  have hdrop : c.trace.drop (m + 1) = tr₂.drop (m - tr₁.length) := by
    have hsplit : c.trace = (tr₁ ++ [(i, e)]) ++ tr₂ := by rw [htr]; simp
    have hlen : (tr₁ ++ [(i, e)]).length = tr₁.length + 1 := by simp
    rw [hsplit, List.drop_append, List.drop_eq_nil_of_le (by omega), List.nil_append, hlen]
    congr 1
    omega
  unfold toCome
  rw [hdrop]
  apply List.Sublist.length_le
  exact (List.drop_sublist _ _).filterMap _

/-- What the deletion of a pair leaves. -/
theorem pair_deleted_access
    (h : Answered (.accessToken (.revokeForClient clientId actorKey)) () e) :
    ∀ t ∈ e.after.db.accessTokens, ¬ (t.clientId = clientId ∧ t.userId = actorKey) := by
  intro t ht hpair
  obtain ⟨hclient, huser⟩ := hpair
  rw [h.after] at ht
  have hkept := List.of_mem_filter ht
  simp [hclient, huser, ownedBy] at hkept

theorem pair_deleted_refresh
    (h : Answered (.refreshToken (.revokeForClient clientId actorKey)) () e) :
    ∀ t ∈ e.after.db.refreshTokens, ¬ (t.clientId = clientId ∧ t.userId = actorKey) := by
  intro t ht hpair
  obtain ⟨hclient, huser⟩ := hpair
  rw [h.after] at ht
  have hkept := List.of_mem_filter ht
  simp [hclient, huser, ownedBy] at hkept

/-- The two deletions of a request that saw the token as used. -/
theorem Replayed.deletions (hc : Reachable (World.fresh now) c)
    (h : Replayed c i token clientId actorKey)
    (hseen : ∀ stored, Heard (entriesOf (S := server) i c.trace)
      (.refreshToken (.get (hashBearer token))) (some stored) → stored.used = true) :
    ∃ before e₁ e₂, entriesOf (S := server) i c.trace = before ++ [e₁, e₂] ∧
      Answered (.accessToken (.revokeForClient clientId actorKey)) () e₁ ∧
      Answered (.refreshToken (.revokeForClient clientId actorKey)) () e₂ := by
  obtain ⟨cfg, request, hreq, -, htoken⟩ := h.presents
  obtain ⟨q, hq, hout⟩ := (conduct_holds hc).returned h.refused
  obtain rfl := Option.some.inj (hq.symm.trans hreq)
  have hrefused : RefusedAsUsed request (entriesOf (S := server) i c.trace) :=
    hout request rfl rfl
  cases hrefused with
  | seen token' client stored before e₁ e₂ accepted used history access refresh =>
    obtain rfl : token' = token := Option.some.inj (accepted.presented.symm.trans htoken)
    have hread : Heard (entriesOf (S := server) i c.trace)
        (.refreshToken (.get (hashBearer token'))) (some stored) := by
      rw [history]
      exact accepted.storedRead.mono _
    obtain ⟨hclient, huser⟩ := h.pair stored hread
    obtain ⟨g, hg, rfl⟩ := h.human
    rw [hclient, huser, hg.ownerKey_address hc] at access refresh
    exact ⟨before, e₁, e₂, history, access, refresh⟩
  | lost token' client stored n accepted used lost count =>
    -- the row was read unused
    obtain rfl : token' = token := Option.some.inj (accepted.presented.symm.trans htoken)
    rw [hseen stored accepted.storedRead] at used
    cases used

/-- What is known of a replay stays known. -/
theorem Replayed.run (h : Replayed c i token clientId actorKey) (as : List (server).Action) :
    Replayed (c.run as) i token clientId actorKey := by
  obtain ⟨tr, htr, hnone⟩ := c.run_trace as
  have hentries : entriesOf (S := server) i (c.run as).trace =
      entriesOf (S := server) i c.trace := by
    rw [htr, entriesOf_append, hnone i _ h.refused, List.append_nil]
  constructor
  · obtain ⟨cfg, request, hreq, hrest⟩ := h.presents
    exact ⟨cfg, request, Conf.reqOf_run hreq as, hrest⟩
  · obtain ⟨g, hg, hkey⟩ := h.human
    rw [htr]
    exact ⟨g, hg.mono tr, hkey⟩
  · rw [hentries]
    exact h.pair
  · obtain ⟨j, e, hne, hm, he⟩ := h.consumed
    exact ⟨j, e, hne, by rw [htr]; exact List.mem_append_left _ hm, he⟩
  · exact h.refused.run as

/-- Where the two deletions are made, they are the last two statements. -/
theorem Replayed.cut_of_seen (hc : Reachable (World.fresh now) c)
    (h : Replayed c i token clientId actorKey)
    (hused : ∀ stored, Heard (entriesOf (S := server) i c.trace)
      (.refreshToken (.get (hashBearer token))) (some stored) → stored.used = true)
    (haccess : ∀ n j t, AccessSavedAt c n j t → j < k → t.clientId = clientId →
      t.userId = actorKey → 2 ≤ toCome c i n)
    (hrefresh : ∀ n j t, RefreshSavedAt c n j t → j < k → t.clientId = clientId →
      t.userId = actorKey → 1 ≤ toCome c i n) : PairCut c k clientId actorKey := by
  obtain ⟨before, e₁, e₂, hentries, hdeleted, hdeleted'⟩ := h.deletions hc hused
  constructor
  · obtain ⟨tr₁, tr₂, htr, -, hrest⟩ := entriesOf_split hentries
    have hat : c.trace[tr₁.length]? = some (i, e₁) := by simp [htr]
    intro t ht hclient huser _
    apply access_cut hc hat (pair_deleted_access hdeleted) _ t ht hclient huser
    intro m j t' hlt hs hclient' huser'
    by_contra hearly
    have htwo := haccess m j t' hs (Nat.lt_of_not_le hearly) hclient' huser'
    have hone := toCome_le htr hlt
    rw [hrest, List.length_singleton] at hone
    omega
  · have hlast : entriesOf (S := server) i c.trace = (before ++ [e₁]) ++ e₂ :: [] := by
      rw [hentries]
      simp
    obtain ⟨tr₁, tr₂, htr, -, hrest⟩ := entriesOf_split hlast
    have hat : c.trace[tr₁.length]? = some (i, e₂) := by simp [htr]
    intro t ht hclient huser hunused _
    apply refresh_cut hc hat (fun t ht _ => pair_deleted_refresh hdeleted' t ht) _ t ht hclient
      huser hunused
    intro m j t' hlt hs hclient' huser'
    by_contra hearly
    have hone := hrefresh m j t' hs (Nat.lt_of_not_le hearly) hclient' huser'
    have hzero := toCome_le htr hlt
    rw [hrest, List.length_nil] at hzero
    omega

/-- An update of the refresh tokens adds no token. -/
theorem consume_adds_nothing {h : Hashed Str} (hs : e.stmt = .db (.refreshToken (.consume h))) :
    (∀ t ∈ e.after.db.accessTokens, t ∈ e.before.db.accessTokens) ∧
      ∀ t ∈ e.after.db.refreshTokens, t.used = false → t ∈ e.before.db.refreshTokens := by
  constructor
  · intro t ht
    rcases access_before ht with ht | hsaves
    · exact ht
    · cases hs.symm.trans hsaves.stmt
  · intro t ht hunused
    rcases unused_before ht hunused with ht | hsaves
    · exact ht
    · cases hs.symm.trans hsaves.stmt

/-- **Replay detection.** In every run, once a replayed refresh token has been
    refused, no live token of the client and the user was issued by a request
    that had started before, provided that the refusal is secured: the request
    deletes the tokens of the pair, or there are none, and none of those
    requests saves one after that. -/
theorem replay_detection_effective (hc : Reachable (World.fresh now) c)
    (hr : Replayed c i token clientId actorKey) (as : List (server).Action)
    (hsecured : Secured (c.run as) i c.threads.length token clientId actorKey) :
    PairCut (c.run as) c.threads.length clientId actorKey := by
  have hc' := hc.run as
  cases hsecured with
  | seen used access refresh => exact (hr.run as).cut_of_seen hc' used access refresh
  | lost n e place update noAccess noRefresh access refresh =>
    obtain ⟨hkept, hkept'⟩ := consume_adds_nothing update
    constructor
    · intro t ht hclient huser _
      exact access_cut hc' place (fun t ht => noAccess t (hkept t ht)) access t ht hclient huser
    · intro t ht hclient huser hunused _
      exact refresh_cut hc' place
        (fun t ht hunused => noRefresh t (hkept' t ht hunused) hunused) refresh t ht hclient huser
        hunused

end

end

end SoulAuth

namespace SoulAuth.Sample

open Framework Framework.System

/-- The refresh token of the exchange. -/
def refreshToken : Str := numbered 't' 13

/-- Requests 4 and 5 both read Alice's refresh token before request 4
    consumes it, so that request 5 loses the conditional update. -/
def lostReplay : List (server).Action :=
  exchanged ++ start config (refresh refreshToken) :: start config (refresh refreshToken) ::
    steps 4 3 ++ steps 5 3 ++ steps 4 1 ++ steps 5 1

/-- The winner goes on. -/
def winnerGoesOn : List (server).Action := steps 4 16

/-- The same, but request 5 reads the token after request 4 is done, and
    deletes what the pair holds. -/
def seenReplay : List (server).Action :=
  exchanged ++ start config (refresh refreshToken) :: steps 4 20 ++
    start config (refresh refreshToken) :: steps 5 5

/-- Whether a human with this root has been created. -/
def createsHuman (c : (server).Conf) (actorKey : Str) : Bool :=
  c.trace.any fun x =>
    match x.2.stmt with
    | .db (.identity (.createHuman a)) => a.actor.key = actorKey
    | _ => false

theorem createsHuman_spec {c : (server).Conf} {actorKey : Str}
    (h : createsHuman c actorKey = true) :
    ∃ g, Conceived c.trace g ∧ g.actor.key = actorKey := by
  obtain ⟨x, hx, hcreate⟩ := List.any_eq_true.mp h
  split at hcreate
  · next a hs => exact ⟨a, ⟨x.1, x.2, hx, hs⟩, of_decide_eq_true hcreate⟩
  · cases hcreate

/-- Whether all rows that request `i` reads under the hash of a refresh token
    satisfy `p`. -/
def readsRefresh (c : (server).Conf) (i : Nat) (token : Str) (p : OidcRefreshToken → Bool) :
    Bool :=
  (entriesOf (S := server) i c.trace).all fun e =>
    (e.before.db.refreshTokens.find? fun r => r.tokenHash = hashBearer token).all p

theorem readsRefresh_spec {c : (server).Conf} {i : Nat} {token : Str}
    {p : OidcRefreshToken → Bool} (h : readsRefresh c i token p = true)
    {stored : OidcRefreshToken} (hread : Heard (entriesOf (S := server) i c.trace)
      (.refreshToken (.get (hashBearer token))) (some stored)) :
    ∃ row, p row = true ∧ stored = { row with userId := actorAddress row.userId } := by
  obtain ⟨e, he, ha⟩ := hread
  have hreply := ha.reply
  simp only [DbStmt.exec, RefreshTokenStmt.exec, Except.ok.injEq,
    Option.map_eq_some_iff] at hreply
  obtain ⟨row, hfind, hrow⟩ := hreply
  have hall := List.all_eq_true.mp h e he
  rw [hfind] at hall
  exact ⟨row, hall, hrow.symm⟩

/-- Whether request `i` consumes the refresh token. -/
def consumes (c : (server).Conf) (i n : Nat) (token : Str) : Bool :=
  answersAt (entriesOf (S := server) i c.trace) n (.refreshToken (.consume (hashBearer token))) 1

/-- Whether request `i` still has two statements before it when an access
    token is saved, and one when a refresh token is saved. -/
def savesEarly (c : (server).Conf) (i : Nat) : Bool :=
  (List.range c.trace.length).all fun n =>
    match c.trace[n]? with
    | some (_, e) =>
      match e.stmt with
      | .db (.accessToken (.save _)) => decide (2 ≤ toCome c i n)
      | .db (.refreshToken (.save _)) => decide (1 ≤ toCome c i n)
      | _ => true
    | none => true

theorem savesEarly_spec {c : (server).Conf} {i : Nat} (h : savesEarly c i = true) :
    (∀ n j t, AccessSavedAt c n j t → 2 ≤ toCome c i n) ∧
      ∀ n j t, RefreshSavedAt c n j t → 1 ≤ toCome c i n := by
  have hplace : ∀ {n j e}, c.trace[n]? = some (j, e) → n ∈ List.range c.trace.length :=
    fun hat => List.mem_range.mpr (List.getElem?_eq_some_iff.mp hat).1
  constructor
  · intro n j t hs
    obtain ⟨e, hat, hs⟩ := hs
    have hall := List.all_eq_true.mp h n (hplace hat)
    simp only [hat, hs.stmt] at hall
    exact of_decide_eq_true hall
  · intro n j t hs
    obtain ⟨e, hat, hs⟩ := hs
    have hall := List.all_eq_true.mp h n (hplace hat)
    simp only [hat, hs.stmt] at hall
    exact of_decide_eq_true hall

/-- The pair of the sample. -/
def ofPair (row : OidcRefreshToken) : Bool := row.clientId = clientId && row.userId = aliceActor

theorem replayed_of {as : List (server).Action} {n : Nat}
    (hcreates : createsHuman (after as) aliceActor = true)
    (hreads : readsRefresh (after as) 5 refreshToken ofPair = true)
    (hconsumes : consumes (after as) 4 n refreshToken = true)
    (hreq : (after as).reqOf 5 = some ⟨config, refresh refreshToken⟩)
    (hout : (after as).outcome 5 = some (.error (.oidc refreshTokenAlreadyUsed))) :
    Replayed (after as) 5 refreshToken clientId aliceActor := by
  constructor
  · exact ⟨config, rotation refreshToken, hreq, rfl, rfl⟩
  · exact createsHuman_spec hcreates
  · intro stored hread
    obtain ⟨row, hpair, rfl⟩ := readsRefresh_spec hreads hread
    obtain ⟨hclient, huser⟩ := Bool.and_eq_true_iff.mp hpair
    exact ⟨of_decide_eq_true hclient, congrArg actorAddress (of_decide_eq_true huser)⟩
  · obtain ⟨e, hm, ha⟩ := answered_of_answersAt hconsumes
    exact ⟨4, e, by decide, mem_entriesOf.mp hm, ha⟩
  · exact Conf.returned_of_outcome hout

theorem seenReplay_facts :
    let c := after seenReplay
    createsHuman c aliceActor = true ∧
      readsRefresh c 5 refreshToken (fun row => ofPair row && row.used) = true ∧
      consumes c 4 3 refreshToken = true ∧
      c.reqOf 5 = some ⟨config, refresh refreshToken⟩ ∧
      c.outcome 5 = some (.error (.oidc refreshTokenAlreadyUsed)) ∧ savesEarly c 5 = true := by
  decide +kernel

/-- Whether the access token that request `j` saves at place `n` is of the
    pair and live at the end. -/
def leavesLive (c : (server).Conf) (n j : Nat) : Bool :=
  match c.trace[n]? with
  | some (i, e) =>
    match e.stmt with
    | .db (.accessToken (.save t)) =>
      i = j && e.ctx.fault = none && t ∈ c.state.db.accessTokens && t.clientId = clientId &&
        t.userId = aliceActor && !(t.expiresAt < c.state.now)
    | _ => false
  | none => false

theorem leavesLive_spec {c : (server).Conf} {n j : Nat} (h : leavesLive c n j = true) :
    ∃ t ∈ c.state.db.accessTokens, t.clientId = clientId ∧ t.userId = aliceActor ∧
      ¬ t.expiresAt < c.state.now ∧ AccessSavedAt c n j t := by
  unfold leavesLive at h
  split at h
  · next i e hat =>
    split at h
    · next t hs =>
      simp only [Bool.and_eq_true, decide_eq_true_eq, Bool.not_eq_true',
        decide_eq_false_iff_not] at h
      obtain ⟨⟨⟨⟨⟨rfl, hfault⟩, hmem⟩, hclient⟩, huser⟩, hlive⟩ := h
      exact ⟨t, hmem, hclient, huser, hlive, e, hat, hs, .inl hfault⟩
    · cases h
  · cases h

theorem lostReplay_facts :
    let c := after lostReplay
    createsHuman c aliceActor = true ∧ readsRefresh c 5 refreshToken ofPair = true ∧
      consumes c 4 3 refreshToken = true ∧
      c.reqOf 5 = some ⟨config, refresh refreshToken⟩ ∧
      c.outcome 5 = some (.error (.oidc refreshTokenAlreadyUsed)) ∧ c.threads.length = 6 ∧
      leavesLive (c.run winnerGoesOn) 71 4 = true := by
  decide +kernel

/-- The replay that is seen leaves nothing. -/
theorem replay_detection_effective_seen :
    PairCut ((after seenReplay).run []) (after seenReplay).threads.length clientId aliceActor := by
  obtain ⟨hcreates, hreads, hconsumes, hreq, hout, hsaves⟩ := seenReplay_facts
  have hpair : readsRefresh (after seenReplay) 5 refreshToken ofPair = true := by
    apply List.all_eq_true.mpr
    intro e he
    have hall := List.all_eq_true.mp hreads e he
    cases hfind : e.before.db.refreshTokens.find? fun r => r.tokenHash = hashBearer refreshToken with
    | none => rfl
    | some row =>
      rw [hfind] at hall
      exact (Bool.and_eq_true_iff.mp hall).1
  apply replay_detection_effective (after_reachable _)
    (replayed_of hcreates hpair hconsumes hreq hout) []
  rw [Conf.run_nil]
  obtain ⟨haccess, hrefresh⟩ := savesEarly_spec hsaves
  apply Secured.seen
  · intro stored hread
    obtain ⟨row, hrow, rfl⟩ := readsRefresh_spec hreads hread
    exact (Bool.and_eq_true_iff.mp hrow).2
  · intro n j t hs _ _ _
    exact haccess n j t hs
  · intro n j t hs _ _ _
    exact hrefresh n j t hs

/-- The replay that loses the update leaves the tokens of the winner live. -/
theorem replay_detection_fails : ¬ ∀ (c : (server).Conf) (i : Nat)
    (token clientId actorKey : Str) (as : List (server).Action), Reachable (World.fresh 0) c →
      Replayed c i token clientId actorKey →
      PairCut (c.run as) c.threads.length clientId actorKey := by
  intro hclaim
  obtain ⟨hcreates, hreads, hconsumes, hreq, hout, hlength, hlive⟩ := lostReplay_facts
  have hcut := hclaim _ 5 refreshToken clientId aliceActor winnerGoesOn (after_reachable _)
    (replayed_of hcreates hreads hconsumes hreq hout)
  obtain ⟨t, ht, hclient, huser, hexpiry, hsaved⟩ := leavesLive_spec hlive
  have hlate := hcut.access t ht hclient huser hexpiry 71 4 hsaved
  rw [hlength] at hlate
  omega

end SoulAuth.Sample
