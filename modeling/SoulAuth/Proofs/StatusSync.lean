import SoulAuth.Proofs.AccountConduct
import SoulAuth.Proofs.Retirement
import SoulAuth.Proofs.UserRow

/-! # The status of an account and of its identity root

A change of status writes the account first and the identity root later.
Both rows say the same after all changes have returned, as long as no change
breaks off in between and no two changes cross: the last one to write the
account is then the last one to write the root.
-/

namespace SoulAuth

open Framework Framework.System

section

variable [Platform]

/-- The stored status of an account. -/
def accountStatusOf (key : Str) (db : Db) : Option AccountStatus :=
  (userAt key db.users).map User.accountStatus

/-- The account is active exactly when the identity root is. -/
def InStep (key actorKey : Str) (db : Db) : Prop :=
  accountStatusOf key db = some .active ↔ statusAt actorKey db = some .active

/-- A choice of the scheduler in which only changes of status that arrive
    later are under way. -/
def ChangesStatus (c₀ : (server).Conf) (a : (server).Action) : Prop :=
  (∃ cfg userId status, a = .start ⟨cfg, .updateAccountStatus userId status⟩) ∨
    ∃ i ctx, a = .step i ctx ∧ c₀.threads.length ≤ i

/-- The entry writes the status of the account. -/
def WritesAccount (key : Str) (e : Entry machine) : Prop :=
  ∃ status t, Executes (.identity (.user (.setAccountStatus key status t))) e

/-- The entry writes the status of the identity root. -/
def WritesRoot (actorKey : Str) (e : Entry machine) : Prop :=
  ∃ status t, Executes (.identity (.actor (.setStatus actorKey status t))) e

/-- No change of the status of the account breaks off before it has written
    the identity root: the write of the account is answered when it is
    executed, the root is found, and its write is executed. -/
structure Unbroken (key actorKey : Str) (tr : List (Nat × Entry machine)) : Prop where
  account : ∀ i e status t, (i, e) ∈ tr →
    Executes (.identity (.user (.setAccountStatus key status t))) e → e.ctx.fault = none
  found : ∀ i e, (i, e) ∈ tr → e.stmt = .db (.identity (.actor (.find actorKey))) →
    e.ctx.fault = none
  root : ∀ i e status t, (i, e) ∈ tr →
    e.stmt = .db (.identity (.actor (.setStatus actorKey status t))) →
    Executes (.identity (.actor (.setStatus actorKey status t))) e

/-- Two changes cross: the one that writes the account first writes the root
    last. -/
def Crossed (key actorKey : Str) (tr : List (Nat × Entry machine)) : Prop :=
  ∃ (m₁ m₂ n₁ n₂ i j : Nat) (e₁ e₂ e₁' e₂' : Entry machine), i ≠ j ∧ m₁ < m₂ ∧ n₂ < n₁ ∧
    tr[m₁]? = some (i, e₁) ∧ WritesAccount key e₁ ∧
    tr[m₂]? = some (j, e₂) ∧ WritesAccount key e₂ ∧
    tr[n₁]? = some (i, e₁') ∧ WritesRoot actorKey e₁' ∧
    tr[n₂]? = some (j, e₂') ∧ WritesRoot actorKey e₂'

section

variable {now : Timestamp} {c₀ c : (server).Conf} {tr : List (Nat × Entry machine)} {u : User}
  {key actorKey : Str} {i j n : Nat} {e : Entry machine} {status : AccountStatus}

/-! ## One entry -/

/-- The effects that the changes of status have. -/
def statusEffects : List Effect :=
  [.setAccountStatus, .setActorStatus, .writeCredential, .deleteSession, .deleteAccess,
    .deleteRefresh]

omit [Platform] in
theorem userAt_setStatus {k : Str} {t : Timestamp} {users : List User} :
    userAt key ((UserStmt.setAccountStatus k status t).exec users).2 = if key = k then
      (userAt key users).map fun u => { u with accountStatus := status, updatedAt := t }
      else userAt key users :=
  KeyedTable.rowAt_mapAt (f := fun u : User => { u with accountStatus := status, updatedAt := t })
    (fun _ => rfl) k

omit [Platform] in
theorem rootAt_setStatus {k : Str} {t : Timestamp} {status : ActorStatus}
    {actors : List ActorIdentity} :
    rootAt key ((ActorStmt.setStatus k status t).exec actors).2 = if key = k then
      (rootAt key actors).map fun a => { a with status := status, updatedAt := t }
      else rootAt key actors :=
  KeyedTable.rowAt_mapAt (f := fun a : ActorIdentity => { a with status := status, updatedAt := t })
    (fun _ => rfl) k

/-- An entry of a change of status writes the status of the account, or
    keeps it. -/
theorem accountStatusOf_kept (he : e.stmt.Within statusEffects) (hw : ¬ WritesAccount key e) :
    accountStatusOf key e.after.db = accountStatusOf key e.before.db := by
  rcases db_executed e with ⟨s, hs⟩ | ⟨-, hsame⟩
  · have hout : ∀ x, s.effect = some x → x ∈ statusEffects := by
      intro x hx
      apply he x
      rw [hs.stmt]
      exact hx
    unfold accountStatusOf Db.users
    rw [hs.after]
    cases s with
    | identity s =>
      cases s with
      | user s =>
        cases s with
        | setAccountStatus k status t =>
          by_cases hk : k = key
          · subst hk
            exact absurd ⟨status, t, hs⟩ hw
          · -- the status of another account
            show Option.map _ (userAt key ((UserStmt.setAccountStatus k status t).exec _).2) = _
            rw [userAt_setStatus, if_neg fun h => hk h.symm]
        | update k content => exact absurd (hout _ rfl) (by decide)
        | claimVerification h t => exact absurd (hout _ rfl) (by decide)
        | _ => rfl
      | createHuman a => exact absurd (hout _ rfl) (by decide)
      | _ => rfl
    | _ => rfl
  · rw [hsame]

/-- The same of the identity root. -/
theorem statusAt_kept (he : e.stmt.Within statusEffects) (hw : ¬ WritesRoot actorKey e) :
    statusAt actorKey e.after.db = statusAt actorKey e.before.db := by
  rcases db_executed e with ⟨s, hs⟩ | ⟨-, hsame⟩
  · have hout : ∀ x, s.effect = some x → x ∈ statusEffects := by
      intro x hx
      apply he x
      rw [hs.stmt]
      exact hx
    unfold statusAt
    rw [hs.after]
    cases s with
    | identity s =>
      cases s with
      | actor s =>
        cases s with
        | setStatus k status t =>
          by_cases hk : k = actorKey
          · subst hk
            exact absurd ⟨status, t, hs⟩ hw
          · -- the status of another root
            show Option.map _ (rootAt actorKey ((ActorStmt.setStatus k status t).exec _).2) = _
            rw [rootAt_setStatus, if_neg fun h => hk h.symm]
        | create a => exact absurd (hout _ rfl) (by decide)
        | find k => rfl
      | createHuman a => exact absurd (hout _ rfl) (by decide)
      | _ => rfl
    | _ => rfl
  · rw [hsame]

/-- A status that is written to a row that is there is stored. -/
theorem accountStatusOf_written {t : Timestamp} {v : User}
    (he : Executes (.identity (.user (.setAccountStatus key status t))) e)
    (hv : userAt key e.before.db.users = some v) :
    accountStatusOf key e.after.db = some status := by
  unfold accountStatusOf Db.users
  rw [he.after]
  show Option.map _ (userAt key ((UserStmt.setAccountStatus key status t).exec _).2) = _
  rw [userAt_setStatus, if_pos rfl, hv]
  rfl

theorem statusAt_written {t : Timestamp} {a : ActorIdentity} {status : ActorStatus}
    (he : Executes (.identity (.actor (.setStatus actorKey status t))) e)
    (ha : rootAt actorKey e.before.db.identity.actors = some a) :
    statusAt actorKey e.after.db = some status := by
  unfold statusAt
  rw [he.after]
  show Option.map _ (rootAt actorKey ((ActorStmt.setStatus actorKey status t).exec _).2) = _
  rw [rootAt_setStatus, if_pos rfl, ha]
  rfl

/-! ## A run of changes of status -/

/-- From `c₀` on only changes of status have run, and `tr` is their trace. -/
structure StatusRun (now : Timestamp) (c₀ c : (server).Conf)
    (tr : List (Nat × Entry machine)) : Prop where
  first : Reachable (World.fresh now) c₀
  reachable : Reachable (World.fresh now) c
  trace : c.trace = c₀.trace ++ tr
  steps : Steps (S := server) c₀.state tr c.state
  later : ∀ i e, (i, e) ∈ tr → c₀.threads.length ≤ i
  requests : ∀ i r, c₀.threads.length ≤ i → c.reqOf i = some r →
    ∃ userId status, r.endpoint = .updateAccountStatus userId status

theorem StatusRun.initial (hc₀ : Reachable (World.fresh now) c₀) : StatusRun now c₀ c₀ [] where
  first := hc₀
  reachable := hc₀
  trace := (List.append_nil _).symm
  steps := .nil _
  later := fun _ _ h => absurd h List.not_mem_nil
  requests i r hi hr := by
    obtain ⟨t, ht, -⟩ := Option.map_eq_some_iff.mp hr
    have hlt := (List.getElem?_eq_some_iff.mp ht).1
    omega

/-- One choice of the scheduler. -/
theorem StatusRun.next (hrun : StatusRun now c₀ c tr) {a : (server).Action}
    (ha : ChangesStatus c₀ a) : ∃ tr', StatusRun now c₀ (c.next a) tr' := by
  have hreach := hrun.reachable.next a
  obtain ⟨r, rfl, he⟩ | ⟨i, ctx, t, s, k, rfl, ht, hs, he⟩ | he := c.next_cases a
  · -- a new request is a change of status
    have hrequests : ∀ i r', c₀.threads.length ≤ i → (c.next (.start r)).reqOf i = some r' →
        ∃ userId status, r'.endpoint = .updateAccountStatus userId status := by
      intro i r' hi hr'
      obtain ⟨t, ht, rfl⟩ := Option.map_eq_some_iff.mp hr'
      rcases getElem?_snoc_cases ht with ht | ⟨-, rfl⟩
      · exact hrun.requests i t.req hi (by simp [Conf.reqOf, ht])
      · rcases ha with ⟨cfg, userId, status, hstart⟩ | ⟨j, ctx, hstep, -⟩
        · cases hstart
          exact ⟨userId, status, rfl⟩
        · cases hstep
    exact ⟨tr, hrun.first, hreach, by rw [he]; exact hrun.trace, by rw [he]; exact hrun.steps,
      hrun.later, hrequests⟩
  · -- a statement of a change of status
    have hi : c₀.threads.length ≤ i := by
      rcases ha with ⟨cfg, userId, status, hstart⟩ | ⟨j, ctx', hstep, hj⟩
      · cases hstart
      · cases hstep
        exact hj
    have hrequests : ∀ j r', c₀.threads.length ≤ j → (c.next (.step i ctx)).reqOf j = some r' →
        ∃ userId status, r'.endpoint = .updateAccountStatus userId status := by
      intro j r' hj hr'
      apply hrun.requests j r' hj
      by_cases hij : i = j
      · subst hij
        rw [he, Conf.reqOf, List.getElem?_set_self (List.getElem?_eq_some_iff.mp ht).1] at hr'
        rw [Conf.reqOf, ht]
        exact hr'
      · rw [he, Conf.reqOf, List.getElem?_set_ne hij] at hr'
        exact hr'
    refine ⟨tr ++ [(i, ⟨ctx, s, c.state⟩)], hrun.first, hreach, ?_, ?_, ?_, hrequests⟩
    · rw [he]
      simp [hrun.trace]
    · rw [he]
      exact .snoc i ⟨ctx, s, c.state⟩ hrun.steps rfl
    · intro j e hmem
      rcases List.mem_append.mp hmem with hmem | hmem
      · exact hrun.later j e hmem
      · obtain ⟨rfl, -⟩ := Prod.mk.inj (List.mem_singleton.mp hmem)
        exact hi
  · rw [he]
    exact ⟨tr, hrun⟩

theorem exists_statusRun (hc₀ : Reachable (World.fresh now) c₀) {as : List (server).Action}
    (has : ∀ a ∈ as, ChangesStatus c₀ a) : ∃ tr, StatusRun now c₀ (c₀.run as) tr :=
  invariant_run_of (P := fun c => ∃ tr, StatusRun now c₀ c tr)
    (fun _ _ ha ⟨_, hrun⟩ => hrun.next ha) ⟨[], .initial hc₀⟩ has

namespace StatusRun

variable (hrun : StatusRun now c₀ c tr)
include hrun

theorem mem {i : Nat} {e : Entry machine} (h : (i, e) ∈ tr) : (i, e) ∈ c.trace := by
  rw [hrun.trace]
  exact List.mem_append_right _ h

theorem entriesOf_before (hi : c₀.threads.length ≤ i) :
    entriesOf (S := server) i c₀.trace = [] := by
  apply List.eq_nil_iff_forall_not_mem.mpr
  intro e he
  have hlt := (accountRule_holds hrun.first).known _ (mem_entriesOf.mp he)
  exact absurd hlt (Nat.not_lt.mpr hi)

/-- An entry and what its request has done before it. -/
theorem conducted (hn : tr[n]? = some (i, e)) :
    ∃ userId status cfg, c.reqOf i = some ⟨cfg, .updateAccountStatus userId status⟩ ∧
      AccountConducted ⟨cfg, .updateAccountStatus userId status⟩
        (entriesOf (S := server) i (tr.take n)) e := by
  have hi : c₀.threads.length ≤ i := hrun.later i e (List.mem_of_getElem? hn)
  have hat : c.trace[c₀.trace.length + n]? = some (i, e) := by
    rw [hrun.trace, List.getElem?_append_right (Nat.le_add_right _ _)]
    simpa using hn
  obtain ⟨⟨cfg, endpoint⟩, hr, hconduct⟩ := accountConducted_at hrun.reachable hat
  obtain ⟨userId, status, hep⟩ := hrun.requests i _ hi hr
  subst hep
  rw [hrun.trace, List.take_length_add_append, entriesOf_append, hrun.entriesOf_before hi,
    List.nil_append] at hconduct
  exact ⟨userId, status, cfg, hr, hconduct⟩

theorem within (h : (i, e) ∈ tr) : e.stmt.Within statusEffects := by
  obtain ⟨r, hr, he⟩ := within_at hrun.reachable (hrun.mem h)
  obtain ⟨userId, status, hep⟩ := hrun.requests i r (hrun.later i e h) hr
  rw [hep] at he
  exact he

/-- The state that an entry found is one of the run. -/
theorem steps_to (hn : tr[n]? = some (i, e)) :
    Steps (S := server) c₀.state (tr.take n) e.before := by
  have hsteps := hrun.steps
  rw [split_at hn] at hsteps
  exact hsteps.split_entry.1

variable (hu : u ∈ c₀.state.db.users) (hl : u.subjectId = some actorKey)
include hu

theorem seen (hmem : (i, e) ∈ tr) : Seen c u := by
  obtain ⟨n, hn⟩ := List.mem_iff_getElem?.mp hmem
  rcases tr with _ | ⟨⟨j, e'⟩, tr⟩
  · cases hn
  · have hbefore : e'.before = c₀.state :=
      (hrun.steps_to (n := 0) rfl).state_eq (.nil _)
    exact ⟨j, e', hrun.mem (List.mem_cons_self), hbefore ▸ hu⟩

/-- The account and its identity root are there throughout. -/
theorem user_there (hn : tr[n]? = some (i, e)) :
    ∃ v, userAt u.key e.before.db.users = some v := by
  have hsub : ∀ x ∈ tr.take n, x ∈ c.trace := by
    intro x hx
    exact hrun.mem (List.mem_of_mem_take hx)
  obtain ⟨v, hv, hkey⟩ :=
    users_kept_along hrun.reachable hsub (hrun.steps_to hn) ⟨u, hu, rfl⟩
  rcases hrow : userAt u.key e.before.db.users with _ | v'
  · exact absurd hkey (KeyedTable.rowAt_eq_none.mp hrow v hv)
  · exact ⟨v', rfl⟩

include hl

theorem root_there (hn : tr[n]? = some (i, e)) :
    ∃ a, rootAt actorKey e.before.db.identity.actors = some a := by
  obtain ⟨k, hk, a, ha, hkey, -⟩ := (linked_holds hrun.first).root u hu
  obtain rfl : actorKey = k := Option.some.inj (hl.symm.trans hk)
  have hroot : rootAt actorKey c₀.state.db.identity.actors = some a :=
    hkey ▸ KeyedTable.rowAt_of_mem (linked_holds hrun.first).rootKeys ha
  obtain ⟨b, hb, -⟩ := rootAt_along (hrun.steps_to hn) hroot
  exact ⟨b, hb⟩

/-- The write of a root comes after the write of its account by the same
    request, with the status that goes with it. -/
theorem account_before (hn : tr[n]? = some (i, e)) (hw : WritesRoot actorKey e) :
    ∃ m e' status t t', m < n ∧ tr[m]? = some (i, e') ∧
      Executes (.identity (.user (.setAccountStatus u.key status t))) e' ∧
      Executes (.identity (.actor (.setStatus actorKey status.actorStatus t'))) e := by
  obtain ⟨rootStatus, t', hx⟩ := hw
  obtain ⟨userId, status, cfg, -, hconduct⟩ := hrun.conducted hn
  unfold AccountConducted at hconduct
  rw [hx.stmt] at hconduct
  obtain ⟨key, -, hsets⟩ := hconduct userId status rfl
  obtain ⟨t, hset⟩ := hsets.account
  obtain ⟨v, actorKey', a, hread, hlinked, hfound, hroot⟩ := hsets.user
  obtain ⟨m, e', hm, hat, hset⟩ := heard_before hset
  obtain ⟨m₁, e₁, -, hat₁, hread⟩ := heard_before hread
  obtain ⟨m₂, e₂, -, -, hfound⟩ := heard_before hfound
  -- the user that was read is the one of the root
  obtain ⟨hv, hvkey⟩ := key_of_findById hread
  have hvseen : Seen c v := ⟨i, e₁, hrun.mem (List.mem_of_getElem? hat₁), hv⟩
  have hplain := (hvseen.plain hrun.reachable hlinked).2
  have hkey : a.key = actorKey' :=
    (KeyedTable.key_of_rowAt hfound.rootAt).trans (hplain.idArgumentKey_address (by decide))
  have hactor : actorKey' = actorKey := hkey.symm.trans hroot.symm
  have huseen := hrun.seen hu (List.mem_of_getElem? hn)
  have hsame : v.key = u.key :=
    hvseen.key_eq hrun.reachable huseen (hactor ▸ hlinked) hl
  refine ⟨m, e', status, t, t', hm, hat, ?_, ?_⟩
  · rw [← hsame, hvkey]
    exact hset.executes
  · rw [← hsets.status]
    exact hx

omit hl hu in
/-- A request writes one account once. -/
theorem account_once {m : Nat} {e' : Entry machine} {k k' : Str} {s s' : AccountStatus}
    {t t' : Timestamp} (hn : tr[n]? = some (i, e)) (hm : tr[m]? = some (i, e'))
    (hx : Executes (.identity (.user (.setAccountStatus k s t))) e)
    (hx' : Executes (.identity (.user (.setAccountStatus k' s' t'))) e') : n = m := by
  have hnot : ∀ {m n : Nat} {e e' : Entry machine} {k k' s s' t t'}, m < n →
      tr[n]? = some (i, e) → tr[m]? = some (i, e') →
      Executes (.identity (.user (.setAccountStatus k s t))) e →
      Executes (.identity (.user (.setAccountStatus k' s' t'))) e' → False := by
    intro m n e e' k k' s s' t t' hlt hn hm hx hx'
    obtain ⟨userId, status, cfg, -, hconduct⟩ := hrun.conducted hn
    unfold AccountConducted at hconduct
    rw [hx.stmt] at hconduct
    apply hconduct.once
    apply mem_effectsOf.mpr
    exact ⟨e', mem_entriesOf_take.mpr ⟨m, hlt, hm⟩, by rw [hx'.stmt]; rfl⟩
  rcases Nat.lt_trichotomy n m with hlt | heq | hlt
  · exact (hnot hlt hm hn hx' hx).elim
  · exact heq
  · exact (hnot hlt hn hm hx hx').elim

/-- A change of status that has written the account and has returned has
    written the root after it, unless it broke off. -/
theorem root_after (hunbroken : Unbroken u.key actorKey tr) (hn : tr[n]? = some (i, e))
    {t : Timestamp} (hx : Executes (.identity (.user (.setAccountStatus u.key status t))) e)
    {r : Except Failure Reply} (hret : c.Returned i r) :
    ∃ m e', n < m ∧ tr[m]? = some (i, e') ∧ WritesRoot actorKey e' := by
  obtain ⟨userId, status', cfg, hr, hconduct⟩ := hrun.conducted hn
  unfold AccountConducted at hconduct
  rw [hx.stmt] at hconduct
  obtain ⟨userId', hep, hkey⟩ := hconduct.endpoint
  cases hep
  have hmem := List.mem_of_getElem? hn
  have hanswered : Answered (.identity (.user (.setAccountStatus u.key status t))) () e :=
    ⟨hx.stmt, hunbroken.account i e status t hmem hx, rfl⟩
  have hheard : Heard (entriesOf (S := server) i c.trace)
      (.identity (.user (.setAccountStatus u.key status t))) () :=
    ⟨e, mem_entriesOf.mpr (hrun.mem hmem), hanswered⟩
  obtain ⟨r', hr', hconcluded⟩ := (accountRule_holds hrun.reachable).returned hret
  obtain rfl := Option.some.inj (hr.symm.trans hr')
  obtain ⟨v, hread, hroot⟩ := hconcluded.followed userId status u.key t rfl hkey hheard
  have hin : ∀ {e' : Entry machine}, e' ∈ entriesOf (S := server) i c.trace → (i, e') ∈ tr := by
    intro e' he'
    rw [hrun.trace, entriesOf_append, hrun.entriesOf_before (hrun.later i e hmem)] at he'
    exact mem_entriesOf.mp he'
  -- the user that was read has this root
  obtain ⟨e₁, he₁, hread⟩ := hread
  obtain ⟨hv, hvkey⟩ := key_of_findById hread
  have hvseen : Seen c v := ⟨i, e₁, mem_entriesOf.mp he₁, hv⟩
  have hlinked : v.subjectId = some actorKey :=
    (hvseen.subjectId_eq hrun.reachable (hrun.seen hu hmem) hvkey).trans hl
  have hplain : idArgumentKey (actorAddress actorKey) = actorKey :=
    (hvseen.plain hrun.reachable hlinked).2.idArgumentKey_address (by decide)
  obtain ⟨e₂, he₂, hs₂, hset⟩ := hroot actorKey hlinked
  rw [hplain] at hs₂ hset
  obtain ⟨m₂, hm₂⟩ := List.mem_iff_getElem?.mp (hin he₂)
  obtain ⟨a, ha⟩ := hrun.root_there hu hl hm₂
  have hfound : Answered (.identity (.actor (.find actorKey))) (some a) e₂ :=
    ⟨hs₂, hunbroken.found i e₂ (hin he₂) hs₂, congrArg Except.ok ha⟩
  obtain ⟨e', he', t', hs'⟩ := hset a hfound
  rw [KeyedTable.key_of_rowAt ha] at hs'
  obtain ⟨m, hm⟩ := List.mem_iff_getElem?.mp (hin he')
  have hw : WritesRoot actorKey e' := ⟨_, t', hunbroken.root i e' _ t' (hin he') hs'⟩
  obtain ⟨m', e'', _, _, _, hlt, hm', hx', -⟩ := hrun.account_before hu hl hm hw
  have heq := hrun.account_once hn hm' hx hx'
  exact ⟨m, e', heq ▸ hlt, hm, hw⟩

/-- The last change that wrote the account wrote the root last. -/
theorem in_step (hin : InStep u.key actorKey c₀.state.db)
    (hunbroken : Unbroken u.key actorKey tr) (hcrossed : ¬ Crossed u.key actorKey tr)
    (hret : ∀ i e, (i, e) ∈ tr → ∃ r, c.Returned i r) : InStep u.key actorKey c.state.db := by
  have haccount := hrun.steps.settled (fun w => accountStatusOf u.key w.db)
    (WritesAccount u.key) fun i e hmem hw => accountStatusOf_kept (hrun.within hmem) hw
  have hroot := hrun.steps.settled (fun w => statusAt actorKey w.db)
    (WritesRoot actorKey) fun i e hmem hw => statusAt_kept (hrun.within hmem) hw
  rcases haccount with ⟨hnone, hsame⟩ | ⟨m₂, j, e₂, hm₂, hw₂, hlast, haccount⟩
  · -- nothing was written
    rcases hroot with ⟨-, hsame'⟩ | ⟨n, i, e, hn, hw, -⟩
    · unfold InStep
      rw [hsame, hsame']
      exact hin
    · obtain ⟨m, e', status, t, t', -, hm, hx, -⟩ := hrun.account_before hu hl hn hw
      exact absurd ⟨status, t, hx⟩ (hnone i e' (List.mem_of_getElem? hm))
  · obtain ⟨status, t, hx₂⟩ := id hw₂
    obtain ⟨r, hret⟩ := hret j e₂ (List.mem_of_getElem? hm₂)
    obtain ⟨n₂, e₂', hlt₂, hn₂, hw₂'⟩ := hrun.root_after hu hl hunbroken hm₂ hx₂ hret
    rcases hroot with ⟨hnone, -⟩ | ⟨n₁, i, e₁', hn₁, hw₁', hlast', hroot⟩
    · exact absurd hw₂' (hnone j e₂' (List.mem_of_getElem? hn₂))
    obtain ⟨m₁, e₁, status', t₁, t₁', hlt₁, hm₁, hx₁, hx₁'⟩ :=
      hrun.account_before hu hl hn₁ hw₁'
    have hw₁ : WritesAccount u.key e₁ := ⟨status', t₁, hx₁⟩
    have hle₁ := hlast m₁ i e₁ hm₁ hw₁
    have hle₂ := hlast' n₂ j e₂' hn₂ hw₂'
    have hij : i = j := by
      by_contra hne
      have hne₁ : m₁ ≠ m₂ := by
        intro heq
        subst heq
        cases hm₁.symm.trans hm₂
        exact hne rfl
      have hne₂ : n₂ ≠ n₁ := by
        intro heq
        subst heq
        cases hn₁.symm.trans hn₂
        exact hne rfl
      exact hcrossed ⟨m₁, m₂, n₁, n₂, i, j, e₁, e₂, e₁', e₂', hne, by omega, by omega,
        hm₁, hw₁, hm₂, hw₂, hn₁, hw₁', hn₂, hw₂'⟩
    subst hij
    obtain rfl := hrun.account_once hm₁ hm₂ hx₁ hx₂
    cases hm₁.symm.trans hm₂
    cases hx₁.stmt.symm.trans hx₂.stmt
    obtain ⟨v, hv⟩ := hrun.user_there hu hm₂
    obtain ⟨a, ha⟩ := hrun.root_there hu hl hn₁
    unfold InStep
    rw [haccount, hroot, accountStatusOf_written hx₂ hv, statusAt_written hx₁' ha]
    cases status <;> decide

end StatusRun

/-- **Statuses in step.** When all changes of the status of an account have
    returned, none of them broke off and no two crossed, the account is
    active exactly when its identity root is, if it was so before. -/
theorem statuses_in_step (hc₀ : Reachable (World.fresh now) c₀) (hu : u ∈ c₀.state.db.users)
    (hl : u.subjectId = some actorKey) (hin : InStep u.key actorKey c₀.state.db)
    {as : List (server).Action} (has : ∀ a ∈ as, ChangesStatus c₀ a)
    (htr : (c₀.run as).trace = c₀.trace ++ tr)
    (hret : ∀ i e, (i, e) ∈ tr → ∃ r, (c₀.run as).Returned i r)
    (hunbroken : Unbroken u.key actorKey tr) (hcrossed : ¬ Crossed u.key actorKey tr) :
    InStep u.key actorKey (c₀.run as).state.db := by
  obtain ⟨tr', hrun⟩ := exists_statusRun hc₀ has
  obtain rfl := List.append_cancel_left (htr.symm.trans hrun.trace)
  exact hrun.in_step hu hl hin hunbroken hcrossed hret

end

end

end SoulAuth

namespace SoulAuth.Sample

open Framework Framework.System

/-- Request 2 suspends Alice. -/
def suspend : (server).Action := start config (.updateAccountStatus alice .suspended)

/-- Request 3 reinstates her. -/
def reinstate : (server).Action := start config (.updateAccountStatus alice .active)

/-- Both write the account, and then both write the root. -/
def meeting : List (server).Action :=
  suspend :: reinstate :: (steps 2 2 ++ steps 3 2 ++ steps 2 1 ++ steps 3 1 ++
    steps 2 20 ++ steps 3 20)

/-- A suspension whose identity root cannot be read. -/
def brokenSuspension : List (server).Action :=
  suspend :: steps 2 3 ++ .step 2 ⟨0, some .refused⟩ :: steps 2 20

/-- Alice's row. -/
theorem exists_row (as : List (server).Action)
    (h : ((userAt alice (after as).state.db.users).any fun u =>
      u.subjectId = some aliceActor) = true) :
    ∃ u ∈ (after as).state.db.users, u.key = alice ∧ u.subjectId = some aliceActor := by
  obtain ⟨u, hu, hl⟩ := (Option.any_eq_true _ _).mp h
  exact ⟨u, KeyedTable.mem_of_rowAt hu, KeyedTable.key_of_rowAt hu, of_decide_eq_true hl⟩

theorem changesStatus_of (as : List (server).Action)
    (h : ∀ a ∈ as, a = suspend ∨ a = reinstate ∨ ∃ i ctx, a = .step i ctx ∧ 2 ≤ i) :
    ∀ a ∈ as, ChangesStatus (after prelude) a := by
  intro a ha
  rcases h a ha with rfl | rfl | ⟨i, ctx, rfl, hi⟩
  · exact .inl ⟨config, alice, .suspended, rfl⟩
  · exact .inl ⟨config, alice, .active, rfl⟩
  · have hlater : (after prelude).threads.length = 2 := by decide +kernel
    exact .inr ⟨i, ctx, rfl, hlater ▸ hi⟩

theorem inStep_prelude : InStep alice aliceActor (after prelude).state.db := by
  have hboth : accountStatusOf alice (after prelude).state.db = some .active ∧
      statusAt aliceActor (after prelude).state.db = some .active := by decide +kernel
  exact ⟨fun _ => hboth.2, fun _ => hboth.1⟩

/-- The entries after the prelude, and that their requests have returned. -/
theorem returned_of_outcome {as : List (server).Action} {tr : List (Nat × Entry machine)}
    (htr : ((after prelude).run as).trace = (after prelude).trace ++ tr)
    (h : ((((after prelude).run as).trace.drop (after prelude).trace.length).all fun x =>
      (((after prelude).run as).outcome x.1).isSome) = true) :
    ∀ i e, (i, e) ∈ tr → ∃ r, ((after prelude).run as).Returned i r := by
  intro i e hmem
  rw [htr, List.drop_left] at h
  have hout := List.all_eq_true.mp h (i, e) hmem
  obtain ⟨r, hr⟩ := Option.isSome_iff_exists.mp hout
  exact ⟨r, Conf.returned_of_outcome hr⟩

/-- Whether the entry at place `n` writes the account or the root only in
    the order of the requests, and nothing fails. -/
def inOrder (x : (Nat × Entry machine) × Nat) : Bool :=
  x.1.2.ctx.fault = none && match x.1.2.stmt with
    | .db (.identity (.user (.setAccountStatus _ _ _))) =>
      x.1.1 = 2 && x.2 = 4 || x.1.1 = 3 && x.2 = 5
    | .db (.identity (.actor (.setStatus _ _ _))) => x.1.1 = 2 && x.2 = 8 || x.1.1 = 3 && x.2 = 14
    | _ => true

theorem inOrder_account {i n : Nat} {e : Entry machine} (h : inOrder ((i, e), n) = true)
    (hw : WritesAccount alice e) : i = 2 ∧ n = 4 ∨ i = 3 ∧ n = 5 := by
  obtain ⟨status, t, hx⟩ := hw
  simpa [inOrder, hx.stmt] using (Bool.and_eq_true_iff.mp h).2

theorem inOrder_root {i n : Nat} {e : Entry machine} (h : inOrder ((i, e), n) = true)
    (hw : WritesRoot aliceActor e) : i = 2 ∧ n = 8 ∨ i = 3 ∧ n = 14 := by
  obtain ⟨status, t, hx⟩ := hw
  simpa [inOrder, hx.stmt] using (Bool.and_eq_true_iff.mp h).2

/-- Two changes meet, and the one that writes the account last writes the
    root last. -/
theorem statuses_in_step_meeting :
    accountStatusOf alice ((after prelude).run meeting).state.db = some .active ∧
    InStep alice aliceActor ((after prelude).run meeting).state.db := by
  obtain ⟨u, hu, hkey, hl⟩ := exists_row prelude (by decide +kernel)
  obtain ⟨tr, htr, -⟩ := (after prelude).run_trace meeting
  have horder : (((after prelude).run meeting).trace.drop (after prelude).trace.length).zipIdx.all
      inOrder = true := by decide +kernel
  rw [htr, List.drop_left] at horder
  have hat : ∀ n i e, tr[n]? = some (i, e) → inOrder ((i, e), n) = true := by
    intro n i e hn
    exact List.all_eq_true.mp horder _ (List.mem_zipIdx_iff_getElem?.mpr hn)
  have hcalm : ∀ i e, (i, e) ∈ tr → e.ctx.fault = none := by
    intro i e hmem
    obtain ⟨n, hn⟩ := List.mem_iff_getElem?.mp hmem
    exact of_decide_eq_true (Bool.and_eq_true_iff.mp (hat n i e hn)).1
  have hunbroken : Unbroken alice aliceActor tr :=
    ⟨fun i e _ _ hmem _ => hcalm i e hmem, fun i e hmem _ => hcalm i e hmem,
      fun i e _ _ hmem hs => ⟨hs, .inl (hcalm i e hmem)⟩⟩
  have hcrossed : ¬ Crossed alice aliceActor tr := by
    intro hcross
    obtain ⟨m₁, m₂, n₁, n₂, i, j, e₁, e₂, e₁', e₂', hne, hm, hn, h₁, hw₁, h₂, hw₂, h₁', hw₁',
      h₂', hw₂'⟩ := hcross
    have ha₁ := inOrder_account (hat m₁ i e₁ h₁) hw₁
    have ha₂ := inOrder_account (hat m₂ j e₂ h₂) hw₂
    have hr₁ := inOrder_root (hat n₁ i e₁' h₁') hw₁'
    have hr₂ := inOrder_root (hat n₂ j e₂' h₂') hw₂'
    omega
  have hall := changesStatus_of meeting (by simp [meeting, steps])
  have hin := statuses_in_step (after_reachable prelude) hu hl (hkey ▸ inStep_prelude) hall htr
    (returned_of_outcome htr (by decide +kernel)) (hkey ▸ hunbroken) (hkey ▸ hcrossed)
  rw [hkey] at hin
  exact ⟨by decide +kernel, hin⟩

/-- The request returns, and the suspended account has an active root. -/
theorem statuses_out_of_step : ¬ ∀ (now : Timestamp) (c₀ : (server).Conf) (u : User)
    (actorKey : Str) (as : List (server).Action) (tr : List (Nat × Entry machine)),
    Reachable (World.fresh now) c₀ → u ∈ c₀.state.db.users → u.subjectId = some actorKey →
    InStep u.key actorKey c₀.state.db → (∀ a ∈ as, ChangesStatus c₀ a) →
    (c₀.run as).trace = c₀.trace ++ tr →
    (∀ i e, (i, e) ∈ tr → ∃ r, (c₀.run as).Returned i r) →
    InStep u.key actorKey (c₀.run as).state.db := by
  intro hall
  obtain ⟨u, hu, hkey, hl⟩ := exists_row prelude (by decide +kernel)
  obtain ⟨tr, htr, -⟩ := (after prelude).run_trace brokenSuspension
  have hchanges := changesStatus_of brokenSuspension (by simp [brokenSuspension, steps])
  have hin := hall 0 (after prelude) u aliceActor brokenSuspension tr (after_reachable prelude)
    hu hl (hkey ▸ inStep_prelude) hchanges htr (returned_of_outcome htr (by decide +kernel))
  have hout : accountStatusOf alice ((after prelude).run brokenSuspension).state.db =
      some .suspended ∧ statusAt aliceActor ((after prelude).run brokenSuspension).state.db =
      some .active := by decide +kernel
  rw [hkey] at hin
  cases hout.1.symm.trans (hin.mpr hout.2)

end SoulAuth.Sample
