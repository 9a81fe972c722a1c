import SoulAuth.Proofs.AiActors
import SoulAuth.Proofs.Tables

/-! # Retirement

A change of status reads the identity root first, and refuses when it is
retired. The write comes later and looks at nothing: a retirement in between
is undone. Nothing else undoes one.
-/

namespace SoulAuth

open Framework Framework.System

section

variable [Platform]

/-- The stored status of an identity root. -/
def statusAt (key : Str) (db : Db) : Option ActorStatus :=
  (rootAt key db.identity.actors).map ActorIdentity.status

/-- Once retired, the root is retired in every later state of the run. -/
def StaysRetired (w : World) (c : (server).Conf) (key : Str) : Prop :=
  ∀ c₁ c₂ as₁ as₂, Reachable w c₁ → c₂ = c₁.run as₁ → c = c₂.run as₂ →
    statusAt key c₁.state.db = some .retired → statusAt key c₂.state.db = some .retired

/-- The entry writes a status of the root. -/
def Writes (key : Str) (status : ActorStatus) (e : Entry machine) : Prop :=
  (∃ now, e.stmt = .db (.identity (.actor (.setStatus key status now)))) ∧
    statusAt key e.after.db = some status

/-- Between the moment when a request reads the root and the moment when the
    same request writes another status, the root is retired. -/
def Overtaken (c : (server).Conf) (key : Str) : Prop :=
  ∃ i j tr₁ e₁ tr₂ e₂ tr₃ e₃ tr₄ a status,
    c.trace = tr₁ ++ (j, e₁) :: (tr₂ ++ (i, e₂) :: (tr₃ ++ (j, e₃) :: tr₄)) ∧
    Answered (.identity (.actor (.find key))) (some a) e₁ ∧ Writes key .retired e₂ ∧
    Writes key status e₃ ∧ status ≠ .retired

section

variable {w : World} {now : Timestamp} {c : (server).Conf} {key : Str}
  {tr tr₁ tr₂ : List (Nat × Entry machine)} {i : Nat} {e : Entry machine}

/-- The state after an entry is the state of a configuration of the run. -/
theorem reachable_after (hc : Reachable w c) (htr : c.trace = tr₁ ++ (i, e) :: tr₂) :
    ∃ c₁ as, Reachable w c₁ ∧ c₁.trace = tr₁ ++ [(i, e)] ∧ c₁.state = e.after ∧
      c = c₁.run as := by
  have hcut : c.trace = (tr₁ ++ [(i, e)]) ++ tr₂ := by
    rw [htr]
    simp
  obtain ⟨c₁, as, hc₁, htr₁, hrun⟩ := hc.cut hcut
  refine ⟨c₁, as, hc₁, htr₁, ?_, hrun⟩
  have hsteps := hc₁.steps
  have hall := hc.steps
  rw [htr₁] at hsteps
  rw [htr] at hall
  exact hsteps.state_eq (.snoc i e hall.split_entry.1 rfl)

/-- A root that the request has found is there when the request goes on. -/
theorem rootAt_of_heard (hc : Reachable w c) (htr : c.trace = tr₁ ++ (i, e) :: tr₂)
    {a : ActorIdentity}
    (hh : Heard (entriesOf (S := server) i tr₁) (.identity (.actor (.find key))) (some a)) :
    ∃ b, rootAt key e.before.db.identity.actors = some b ∧ b.actorKind = a.actorKind := by
  obtain ⟨c₁, hc₁, htr₁, hstate⟩ := hc.before htr
  obtain ⟨e', hmem, ha⟩ := heard_mem hh fun _ he => he
  rw [← htr₁] at hmem
  rw [← hstate]
  exact rootAt_of_found hc₁ hmem ha.rootAt

/-- What the request has done before an entry, by both rules. -/
theorem conducted_at_entry (hc : Reachable w c) (htr : c.trace = tr₁ ++ (i, e) :: tr₂) :
    ∃ r, Conducted r (entriesOf (S := server) i tr₁) e ∧
      AiConducted r (entriesOf (S := server) i tr₁) e := by
  obtain ⟨r, hr, hconduct⟩ := conducted_at hc htr
  obtain ⟨r', hr', hai⟩ := (aiConduct_holds hc).entries tr₁ i e tr₂ htr
  cases hr.symm.trans hr'
  exact ⟨r, hconduct, hai⟩

omit [Platform] in
theorem actorStatus_ne_retired (status : AccountStatus) : status.actorStatus ≠ .retired := by
  cases status <;> decide

/-- The root of a human is never retired. -/
theorem human_not_retired (hc : Reachable (World.fresh now) c) :
    ∀ x ∈ c.state.db.identity.actors, x.actorKind = .human → x.status ≠ .retired := by
  apply hc.steps.preserves
    (P := fun w => ∀ x ∈ w.db.identity.actors, x.actorKind = .human → x.status ≠ .retired)
    fun _ h => absurd h List.not_mem_nil
  intro i e hmem hbefore x hx hkind
  obtain ⟨tr₁, tr₂, htr⟩ := List.append_of_mem hmem
  obtain ⟨r, hconduct, hai⟩ := conducted_at_entry hc htr
  unfold Conducted at hconduct
  unfold AiConducted at hai
  rcases identity_after e with hsame | ⟨s, hs, hafter⟩
  · exact hbefore x (hsame ▸ hx) hkind
  · rw [hs] at hconduct hai
    rw [hafter] at hx
    cases s with
    | actor s =>
      cases s with
      | find k => exact hbefore x hx hkind
      | setStatus k status now =>
        obtain ⟨y, hy, rfl⟩ := List.mem_map.mp hx
        by_cases hk : y.key = k
        · rw [if_pos hk] at hkind ⊢
          cases hai with
          | actor actorKey a _ found _ key =>
            -- the statement is about an AI actor, and no human has its key
            obtain ⟨c₁, hc₁, -, hstate⟩ := hc.before htr
            obtain ⟨e', -, ha⟩ := found.found
            have hkey : idArgumentKey (actorAddress actorKey) = k :=
              (KeyedTable.key_of_rowAt ha.rootAt).symm.trans key.symm
            obtain ⟨b, hb, hbkind⟩ := rootAt_of_heard hc htr (hkey ▸ found.found)
            have hnodup := (linked_holds hc₁).rootKeys
            rw [hstate] at hnodup
            have hy' := KeyedTable.rowAt_of_mem hnodup hy
            rw [hk] at hy'
            obtain rfl := Option.some.inj (hy'.symm.trans hb)
            rw [found.kind] at hbkind
            cases hkind.symm.trans hbkind
          | account _ _ _ accountStatus _ _ _ _ _ _ _ status =>
            rw [status]
            exact actorStatus_ne_retired accountStatus
        · rw [if_neg hk] at hkind ⊢
          exact hbefore y hy hkind
      | create y =>
        simp only [IdentityStmt.exec, ActorStmt.exec] at hx
        split at hx
        · exact hbefore x hx hkind
        · rcases List.mem_append.mp hx with hx | hx
          · exact hbefore x hx hkind
          · obtain rfl := List.mem_singleton.mp hx
            cases hkind.symm.trans hconduct.kind
    | createHuman y =>
      simp only [IdentityStmt.exec, HumanAggregate.create] at hx
      split at hx
      · exact hbefore x hx hkind
      · rcases List.mem_append.mp hx with hx | hx
        · exact hbefore x hx hkind
        · obtain rfl := List.mem_singleton.mp hx
          obtain ⟨new, keys, now, drawn, rfl, -⟩ := hconduct.rows
          intro heq
          cases heq
    | _ => exact hbefore x hx hkind

/-- The account of a user is no way to a retired root. -/
theorem account_root_not_retired (hc : Reachable (World.fresh now) c)
    (htr : c.trace = tr₁ ++ (i, e) :: tr₂) {actorKey userKey : Str} {u : User} {a : ActorIdentity}
    (huser : Heard (entriesOf (S := server) i tr₁) (.identity (.user (.findById userKey))) (some u))
    (hlinked : u.subjectId = some actorKey)
    (hfound : Heard (entriesOf (S := server) i tr₁)
      (.identity (.actor (.find (idArgumentKey (actorAddress actorKey))))) (some a)) :
    statusAt a.key e.before.db ≠ some .retired := by
  obtain ⟨e', hmem, hu⟩ := heard_mem huser fun _ he => he
  obtain ⟨e'', -, ha⟩ := heard_mem hfound fun _ he => he
  have hu' : u ∈ e'.before.db.users := by
    have hreply := hu.reply
    simp only [DbStmt.exec, IdentityStmt.exec, UserStmt.exec, Except.ok.injEq] at hreply
    exact List.mem_of_find?_eq_some hreply
  have hmem' : (i, e') ∈ c.trace := by
    rw [htr]
    exact List.mem_append_left _ hmem
  -- the user's root is the root of a human, under a plain key
  obtain ⟨tr₃, tr₄, htr'⟩ := List.append_of_mem hmem'
  obtain ⟨c₁, hc₁, -, hstate⟩ := hc.before htr'
  have hlink := linked_holds hc₁
  have hplain := plainRoots_holds hc₁
  rw [hstate] at hlink hplain
  obtain ⟨k, hk, x, hx, hxkey, hxkind⟩ := hlink.root u hu'
  obtain rfl : actorKey = k := Option.some.inj (hlinked.symm.trans hk)
  have hkey : idArgumentKey (actorAddress actorKey) = actorKey :=
    (hxkey ▸ hplain x hx).idArgumentKey_address (by decide)
  have hakey : a.key = actorKey := (KeyedTable.key_of_rowAt ha.rootAt).trans hkey
  -- it is still there, and human roots are not retired
  have hroot : rootAt actorKey e'.before.db.identity.actors = some x :=
    hxkey ▸ KeyedTable.rowAt_of_mem hlink.rootKeys hx
  obtain ⟨c₂, hc₂, htr₂, hstate₂⟩ := hc.before htr
  obtain ⟨b, hb, hbkind⟩ := rootAt_of_found hc₂ (htr₂ ▸ hmem) hroot
  intro hretired
  rw [← hstate₂, statusAt, hakey, hb] at hretired
  exact human_not_retired hc₂ b (KeyedTable.mem_of_rowAt hb) (hbkind.trans hxkind)
    (Option.some.inj hretired)

/-- The entry that retires a root is a write of that status. -/
theorem writes_of_change {a : ActorIdentity} {status : ActorStatus}
    (ha : rootAt key e.before.db.identity.actors = some a)
    (hafter : statusAt key e.after.db = some status) (hbefore : a.status ≠ status) :
    Writes key status e := by
  obtain ⟨b, hb, -, hstatus⟩ := rootAt_after ha
  have hbs : b.status = status := by
    rw [statusAt, hb] at hafter
    exact Option.some.inj hafter
  rcases hstatus with hsame | ⟨now, hs⟩
  · exact absurd (hsame.symm.trans hbs) hbefore
  · exact ⟨⟨now, hbs ▸ hs⟩, hafter⟩

/-- **Retirement.** In a run retirement is permanent exactly if no change of
    status reads the root before it is retired and writes another status
    after that. -/
theorem staysRetired_iff (hc : Reachable (World.fresh now) c) (key : Str) :
    StaysRetired (World.fresh now) c key ↔ ¬ Overtaken c key := by
  constructor
  · rintro hstays ⟨i, j, tr₁, e₁, tr₂, e₂, tr₃, e₃, tr₄, a, status, htr, -, hw₂, hw₃, hne⟩
    have htr₃ : c.trace = (tr₁ ++ (j, e₁) :: (tr₂ ++ (i, e₂) :: tr₃)) ++ (j, e₃) :: tr₄ := by
      rw [htr]
      simp
    obtain ⟨c₂, as₂, hc₂, htrace₂, hstate₂, hrun₂⟩ := reachable_after hc htr₃
    have htr₂ : c₂.trace = (tr₁ ++ (j, e₁) :: tr₂) ++ (i, e₂) :: (tr₃ ++ [(j, e₃)]) := by
      rw [htrace₂]
      simp
    obtain ⟨c₁, as₁, hc₁, -, hstate₁, hrun₁⟩ := reachable_after hc₂ htr₂
    have hlater := hstays c₁ c₂ as₁ as₂ hc₁ hrun₁ hrun₂ (hstate₁ ▸ hw₂.2)
    rw [hstate₂, hw₃.2] at hlater
    exact hne (Option.some.inj hlater)
  · intro hnot c₁ c₂ as₁ as₂ hc₁ hrun₁ hrun₂ hretired
    by_contra hother
    -- the entry that undoes the retirement
    obtain ⟨tr, htrace, -⟩ := c₁.run_trace as₁
    rw [← hrun₁] at htrace
    have hc₂ : Reachable (World.fresh now) c₂ := hrun₁ ▸ hc₁.run as₁
    have hsteps : Steps (S := server) c₁.state tr c₂.state := by
      obtain ⟨w₁, hs₁, hs₂⟩ := hc₂.steps.split htrace
      rwa [hs₁.state_eq hc₁.steps] at hs₂
    obtain hfirst | ⟨j, e₃, hmem, hafter, hbefore⟩ :=
      hsteps.origin (P := fun w => statusAt key w.db ≠ some .retired) hother
    · exact hfirst hretired
    have hbefore' : statusAt key e₃.before.db = some .retired := by
      by_contra h
      exact hbefore h
    obtain ⟨tr₃, tr₄, rfl⟩ := List.append_of_mem hmem
    obtain ⟨x, hx, hxstatus⟩ := Option.map_eq_some_iff.mp hbefore'
    obtain ⟨b, hb, -, hchanged⟩ := rootAt_after hx
    have hbne : b.status ≠ .retired := by
      intro heq
      exact hafter (by rw [statusAt, hb, Option.map_some, heq])
    rcases hchanged with hsame | ⟨t₃, hs₃⟩
    · exact hbne (hsame.trans hxstatus)
    obtain ⟨tr₅, htrace', -⟩ := c₂.run_trace as₂
    have htr : c.trace = (c₁.trace ++ tr₃) ++ (j, e₃) :: (tr₄ ++ tr₅) := by
      rw [hrun₂, htrace', htrace]
      simp
    obtain ⟨r, -, hai⟩ := conducted_at_entry hc htr
    unfold AiConducted at hai
    rw [hs₃] at hai
    have hw₃ : Writes key b.status e₃ :=
      ⟨⟨t₃, hs₃⟩, by rw [statusAt, hb]; rfl⟩
    cases hai with
    | account userId actorKey userKey accountStatus u a _ user linked found hkey _ =>
      exact account_root_not_retired hc htr user linked found (hkey ▸ hbefore')
    | actor actorKey a _ found kept hkey =>
      -- the request read the root before it was retired
      obtain ⟨e₁, hmem₁, ha⟩ := heard_mem found.found fun _ he => he
      have hkey' : idArgumentKey (actorAddress actorKey) = key :=
        (KeyedTable.key_of_rowAt ha.rootAt).symm.trans hkey.symm
      rw [hkey'] at ha
      obtain ⟨tr₁, tr₂, hcut⟩ := List.append_of_mem hmem₁
      have hall := hc.steps
      have htr₁ : c.trace = tr₁ ++ (j, e₁) :: (tr₂ ++ (j, e₃) :: (tr₄ ++ tr₅)) := by
        rw [htr, hcut]
        simp
      rw [htr₁] at hall
      have hbetween := (hall.split_entry.2).split_entry.1
      have hfirst : statusAt key e₁.after.db ≠ some .retired := by
        obtain ⟨a', ha', -, hstatus⟩ := rootAt_after ha.rootAt
        rcases hstatus with hsame | ⟨t, hs⟩
        · rw [statusAt, ha', Option.map_some, hsame]
          exact fun heq => kept (Option.some.inj heq)
        · cases ha.stmt.symm.trans hs
      obtain hnone | ⟨i, e₂, hmem₂, hret, hnotret⟩ :=
        hbetween.origin (P := fun w => statusAt key w.db = some .retired) hbefore'
      · exact hfirst hnone
      obtain ⟨tr₆, tr₇, rfl⟩ := List.append_of_mem hmem₂
      -- some entry in between retired it
      obtain ⟨a₁, ha₁, -, -⟩ := rootAt_after ha.rootAt
      obtain ⟨a₂, ha₂, -⟩ := rootAt_along hbetween.split_entry.1 ha₁
      have hne₂ : a₂.status ≠ .retired := by
        intro heq
        exact hnotret (by rw [statusAt, ha₂, Option.map_some, heq])
      refine hnot ⟨i, j, tr₁, e₁, tr₆, e₂, tr₇, e₃, tr₄ ++ tr₅, a, b.status, ?_, ha,
        writes_of_change ha₂ hret hne₂, hw₃, hbne⟩
      rw [htr₁]
      simp

end

end

namespace Sample

/-- Requests 1 and 2 both read the active actor; request 1 retires it. -/
def retired : List (server).Action :=
  enrolled ++ start config (.setAiActorStatus agentKey .retired) :: steps 1 1 ++
    start config (.setAiActorStatus agentKey .active) :: steps 2 1 ++ steps 1 2

/-- Request 2 makes the retired actor active again. -/
theorem retirement_undone : ¬ ∀ (now : Timestamp) (c : (server).Conf) (key : Str),
    Reachable (World.fresh now) c → StaysRetired (World.fresh now) c key := by
  intro hall
  have hreach := after_reachable (retired ++ steps 2 2)
  have hstays := hall 0 _ agentKey hreach (after retired) (after (retired ++ steps 2 2))
    (steps 2 2) [] (after_reachable retired) (Conf.run_append _ _ _) rfl
  have hretired : statusAt agentKey (after retired).state.db = some .retired := by decide +kernel
  have hactive : statusAt agentKey (after (retired ++ steps 2 2)).state.db = some .active := by
    decide +kernel
  cases hactive.symm.trans (hstays hretired)

theorem staysRetired_iff_agent : StaysRetired (World.fresh 0) (after retired) agentKey ↔
    ¬ Overtaken (after retired) agentKey :=
  staysRetired_iff (after_reachable retired) agentKey

end Sample

end SoulAuth
