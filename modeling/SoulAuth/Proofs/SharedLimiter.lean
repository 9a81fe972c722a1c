import Mathlib.Data.List.Perm.Subperm
import SoulAuth.Services.SharedLimiter

/-! # The shared limit

Every admitted request of a window has been counted and has found the count
not exceeded. As long as the count of the bucket is not cleared while
requests of the window are under way, the last of them found all the others
counted.
-/

namespace SoulAuth

open Framework Framework.System

/-! ## One entry -/

/-- The time of the database at which an entry was executed. -/
def rateClock (e : Entry rateMachine) : Int := e.before.now + e.ctx.elapsed

/-- An entry whose statement did not fail has been executed. -/
theorem rows_after {e : Entry rateMachine} (hf : e.ctx.fault = none) :
    e.after.rows = (e.stmt.exec (rateClock e) e.before.rows).2 ∧ e.after.now = rateClock e := by
  obtain ⟨⟨elapsed, fault⟩, s, store⟩ := e
  cases hf
  exact ⟨rfl, rfl⟩

/-- The entry counts a request of the window `w`. -/
def countsIn (bucket : Str) (w : Nat) (e : Entry rateMachine) : Bool :=
  match e.stmt with
  | .countHit b v _ _ => b = bucket && v = w
  | _ => false

theorem countsIn_iff {bucket : Str} {w : Nat} {e : Entry rateMachine} :
    countsIn bucket w e = true ↔ ∃ key endpoint, e.stmt = .countHit bucket w key endpoint := by
  unfold countsIn
  split
  · next b v key endpoint hs =>
    constructor
    · intro h
      obtain ⟨rfl, rfl⟩ : b = bucket ∧ v = w := by simpa using h
      exact ⟨key, endpoint, hs⟩
    · rintro ⟨_, _, h⟩
      rw [hs] at h
      cases h
      simp
  · next hs =>
    constructor
    · intro h; cases h
    · rintro ⟨_, _, h⟩
      exact absurd h (hs _ _ _ _)

/-- The entry clears the count of the bucket: it starts another window than
    the one that the row counts, or deletes the row. -/
def clearsCount (bucket : Str) (e : Entry rateMachine) : Bool :=
  (e.before.rows bucket).any fun row =>
    match e.stmt with
    | .startWindow b w => b = bucket && row.windowIndex ≠ w
    | .cleanup => row.isIdle (rateClock e)
    | _ => false

section

variable {bucket : Str} {w : Nat} {e : Entry rateMachine}

/-- Without a clearing, a count is never lowered, and counting raises it. -/
theorem hits_after (hf : e.ctx.fault = none) (hclear : clearsCount bucket e = false) {row : RateRow}
    (hrow : e.before.rows bucket = some row) :
    ∃ row', e.after.rows bucket = some row' ∧
      row.hits + (if countsIn bucket w e then 1 else 0) ≤ row'.hits := by
  obtain ⟨hafter, -⟩ := rows_after hf
  rw [hafter]
  cases hs : e.stmt with
  | startWindow b v =>
    have hn : countsIn bucket w e = false := by simp [countsIn, hs]
    simp only [hn, Bool.false_eq_true, if_false, Nat.add_zero]
    by_cases hb : bucket = b
    · subst hb
      have hv : row.windowIndex = v := by
        simpa [clearsCount, hrow, hs] using hclear
      exact ⟨row, by simp [RateStmt.exec, hrow, RateRow.started, hv], Nat.le_refl _⟩
    · exact ⟨row, by simp [RateStmt.exec, Function.update_of_ne hb, hrow], Nat.le_refl _⟩
  | countHit b v key endpoint =>
    by_cases hb : bucket = b
    · subst hb
      refine ⟨_, by simp [RateStmt.exec, hrow]; rfl, ?_⟩
      simp only [RateRow.counted]
      split <;> omega
    · have hn : countsIn bucket w e = false := by simp [countsIn, hs, Ne.symm hb]
      simp only [hn, Bool.false_eq_true, if_false, Nat.add_zero]
      exact ⟨row, by simp [RateStmt.exec, Function.update_of_ne hb, hrow], Nat.le_refl _⟩
  | blockIfExceeded b limit duration =>
    have hn : countsIn bucket w e = false := by simp [countsIn, hs]
    simp only [hn, Bool.false_eq_true, if_false, Nat.add_zero]
    by_cases hb : bucket = b
    · subst hb
      refine ⟨_, by simp [RateStmt.exec, hrow]; rfl, ?_⟩
      split <;> exact Nat.le_refl _
    · exact ⟨row, by simp [RateStmt.exec, Function.update_of_ne hb, hrow], Nat.le_refl _⟩
  | readBlocked b =>
    have hn : countsIn bucket w e = false := by simp [countsIn, hs]
    simp only [hn, Bool.false_eq_true, if_false, Nat.add_zero]
    exact ⟨row, hrow, Nat.le_refl _⟩
  | cleanup =>
    have hn : countsIn bucket w e = false := by simp [countsIn, hs]
    simp only [hn, Bool.false_eq_true, if_false, Nat.add_zero]
    have hidle : row.isIdle (rateClock e) = false := by
      simpa [clearsCount, hrow, hs] using hclear
    exact ⟨row, by simp [RateStmt.exec, hrow, hidle], Nat.le_refl _⟩

/-- Counting the first request of a bucket makes its row. -/
theorem hits_after_first (hf : e.ctx.fault = none) (hc : countsIn bucket w e = true) :
    ∃ row', e.after.rows bucket = some row' ∧ 1 ≤ row'.hits := by
  obtain ⟨key, endpoint, hs⟩ := countsIn_iff.mp hc
  rw [(rows_after hf).1, hs]
  refine ⟨_, by simp [RateStmt.exec]; rfl, ?_⟩
  cases e.before.rows bucket <;> simp [RateRow.counted]

/-- A block in force stays until its end. -/
theorem blocked_after (hf : e.ctx.fault = none) {row : RateRow} {b : Int}
    (hrow : e.before.rows bucket = some row) (hb : row.blockedUntil = some b)
    (hlt : rateClock e < b) :
    ∃ row', e.after.rows bucket = some row' ∧ row'.blockedUntil = some b := by
  have hnot : ∀ n, row.isExceeded n (rateClock e) = false := fun n => by
    have : ¬ b < rateClock e := by omega
    simp [RateRow.isExceeded, hb, this]
  have hidle : row.isIdle (rateClock e) = false := by
    have : ¬ b < rateClock e := by omega
    simp [RateRow.isIdle, hb, this]
  rw [(rows_after hf).1]
  cases hs : e.stmt with
  | startWindow b' v =>
    by_cases hbk : bucket = b'
    · subst hbk
      refine ⟨_, by simp [RateStmt.exec, hrow]; rfl, ?_⟩
      unfold RateRow.started
      split <;> exact hb
    · exact ⟨row, by simp [RateStmt.exec, Function.update_of_ne hbk, hrow], hb⟩
  | countHit b' v key endpoint =>
    by_cases hbk : bucket = b'
    · subst hbk
      refine ⟨_, by simp [RateStmt.exec, hrow]; rfl, ?_⟩
      exact hb
    · exact ⟨row, by simp [RateStmt.exec, Function.update_of_ne hbk, hrow], hb⟩
  | blockIfExceeded b' limit duration =>
    by_cases hbk : bucket = b'
    · subst hbk
      exact ⟨row, by simp [RateStmt.exec, hrow, hnot], hb⟩
    · exact ⟨row, by simp [RateStmt.exec, Function.update_of_ne hbk, hrow], hb⟩
  | readBlocked b' => exact ⟨row, hrow, hb⟩
  | cleanup => exact ⟨row, by simp [RateStmt.exec, hrow, hidle], hb⟩

end

/-! ## Runs -/

section

variable {l : RateLimiter} {bucketId : Str → Str → Str} {c : (replicas l bucketId).Conf}

/-- No statement of the run failed. -/
def NoFault (c : (replicas l bucketId).Conf) : Prop := ∀ x ∈ c.trace, x.2.ctx.fault = none

/-- Request number `i` is the check of a client on an endpoint by a replica
    whose clock read a time of the window `w`. -/
def ChecksIn (c : (replicas l bucketId).Conf) (key endpoint : Str) (rule : RateLimitRule)
    (w i : Nat) : Prop :=
  ∃ nowSecs, c.reqOf i = some (.check key endpoint nowSecs) ∧ rule.windowIndex nowSecs = w

/-- The count of a bucket is not cleared between the counting of one request
    of the window and the blocking statement of another. -/
def NotCleared (c : (replicas l bucketId).Conf) (key endpoint : Str) (rule : RateLimitRule)
    (w : Nat) : Prop :=
  ∀ tr₁ x tr₂, c.trace = tr₁ ++ x :: tr₂ → clearsCount (bucketId key endpoint) x.2 = true →
    (∃ y ∈ tr₁, countsIn (bucketId key endpoint) w y.2 = true) →
    ∀ z ∈ tr₂, ChecksIn c key endpoint rule w z.1 →
      ∀ limit duration, z.2.stmt ≠ .blockIfExceeded (bucketId key endpoint) limit duration

/-- No block ends between the blocking statement of a request of the window
    and its read: one in force at the former is in force at the latter. -/
def NotUnblocked (c : (replicas l bucketId).Conf) (key endpoint : Str) (rule : RateLimitRule)
    (w : Nat) : Prop :=
  ∀ tr₁ i e tr₂ e' tr₃, c.trace = tr₁ ++ (i, e) :: (tr₂ ++ (i, e') :: tr₃) →
    ChecksIn c key endpoint rule w i →
    (∃ limit duration, e.stmt = .blockIfExceeded (bucketId key endpoint) limit duration) →
    e'.stmt = .readBlocked (bucketId key endpoint) →
    ∀ row b, e.before.rows (bucketId key endpoint) = some row → row.blockedUntil = some b →
      rateClock e ≤ b → rateClock e' < b

/-- Every counted request of the window is in the count, as long as nothing
    clears it after the first one. -/
theorem counted_le_hits {bucket : Str} {w : Nat}
    {store store' : (replicas l bucketId).machine.State}
    {tr : List (Nat × Entry (replicas l bucketId).machine)}
    (h : Steps (S := replicas l bucketId) store tr store')
    (hf : ∀ x ∈ tr, x.2.ctx.fault = none)
    (hclear : ∀ tr₁ x tr₂, tr = tr₁ ++ x :: tr₂ → clearsCount bucket x.2 = true →
      ∀ y ∈ tr₁, countsIn bucket w y.2 = false)
    (hsome : ∃ x ∈ tr, countsIn bucket w x.2 = true) :
    ∃ row, store'.rows bucket = some row ∧
      tr.countP (fun x => countsIn bucket w x.2) ≤ row.hits := by
  induction h with
  | nil => simp at hsome
  | @snoc tr store'' i e h he ih =>
    have hfe : e.ctx.fault = none := hf (i, e) (by simp)
    subst he
    rw [List.countP_append, List.countP_singleton]
    by_cases hprev : ∃ x ∈ tr, countsIn bucket w x.2 = true
    · -- nothing is cleared here: a request has been counted before
      have hkeep : clearsCount bucket e = false := by
        by_contra hcl
        obtain ⟨x, hx, hcx⟩ := hprev
        exact absurd (hclear tr (i, e) [] (by simp) (by simpa using hcl) x hx) (by simp [hcx])
      obtain ⟨row, hrow, hle⟩ := ih (fun x hx => hf x (by simp [hx]))
        (fun tr₁ x tr₂ htr => hclear tr₁ x (tr₂ ++ [(i, e)]) (by simp [htr])) hprev
      obtain ⟨row', hrow', hle'⟩ := hits_after (w := w) hfe hkeep hrow
      refine ⟨row', hrow', Nat.le_trans ?_ hle'⟩
      exact Nat.add_le_add_right hle _
    · have hnil : tr.countP (fun x => countsIn bucket w x.2) = 0 :=
        List.countP_eq_zero.mpr fun x hx hcx => hprev ⟨x, hx, hcx⟩
      have hce : countsIn bucket w e = true := by
        obtain ⟨x, hx, hcx⟩ := hsome
        rcases List.mem_append.mp hx with hx | hx
        · exact absurd ⟨x, hx, hcx⟩ hprev
        · rwa [List.mem_singleton.mp hx] at hcx
      obtain ⟨row', hrow', hle⟩ := hits_after_first hfe hce
      exact ⟨row', hrow', by simpa [hnil, hce] using hle⟩

/-! ## What an admitted request has done -/

/-- The statements of an admitted check: counted, not exceeded unless a
    block was in force, and no block in force at the end. -/
structure Admitted (bucket : Str) (rule : RateLimitRule) (key endpoint : Str) (nowSecs : Nat)
    (h : List (Entry rateMachine)) : Prop where
  history : ∃ e₁ e₂ e₃ e₄, h = [e₁, e₂, e₃, e₄] ∧
    e₂.stmt = .countHit bucket (rule.windowIndex nowSecs) key endpoint ∧
    e₃.stmt = .blockIfExceeded bucket rule.maxRequests (seconds rule.blockSecs) ∧
    e₄.stmt = .readBlocked bucket ∧
    (∀ row, e₃.before.rows bucket = some row →
      row.isExceeded rule.maxRequests (rateClock e₃) = false) ∧
    ∀ row, e₄.before.rows bucket = some row → row.isBlocked (rateClock e₄) = false

/-- The rule of the replicas: what an admission rests on, if no statement of
    the request failed. -/
def admission (l : RateLimiter) (bucketId : Str → Str → Str) : System.Rule (replicas l bucketId)
    where
  assumes := fun _ => True
  entry := fun _ _ _ => True
  outcome := fun r h out => ∀ key endpoint nowSecs rule, r = .check key endpoint nowSecs →
    l.endpointRules.lookup endpoint = some rule → out = .ok (some .allowed) →
    (∀ e ∈ h, e.ctx.fault = none) → Admitted (bucketId key endpoint) rule key endpoint nowSecs h

/-- After a failure nothing is claimed any more. -/
theorem meets_of_fault {α : Type} {h : List (Entry rateMachine)}
    {p : Prog rateMachine AuthError α} {Q : List (Entry rateMachine) → Except AuthError α → Prop}
    (hQ : ∀ t r, Q (h ++ t) r) : p.Meets (fun _ => True) (fun _ _ => True) Q h := by
  induction p generalizing h with
  | done r => simpa using hQ [] r
  | step s k ih =>
    intro ctx store _
    refine ⟨trivial, ih _ fun t r => ?_⟩
    simpa using hQ (⟨ctx, s, store⟩ :: t) r

theorem shared_met : (admission l bucketId).Met := by
  rintro (⟨key, endpoint, nowSecs⟩ | _)
  · show Prog.Meets _ _ _ [] (checkShared l bucketId key endpoint nowSecs >>= fun decision =>
      Prog.done (.ok (some decision)))
    unfold checkShared
    split
    · next hrule =>
      rintro _ _ _ rule ⟨⟩ hrule' - -
      rw [hrule] at hrule'
      cases hrule'
    · next rule hrule =>
      -- the four statements of the first attempt; after a failure there is nothing to show
      rintro ⟨n₁, f₁⟩ store₁ -
      refine ⟨trivial, ?_⟩
      rintro ⟨n₂, f₂⟩ store₂ -
      refine ⟨trivial, ?_⟩
      rintro ⟨n₃, f₃⟩ store₃ -
      refine ⟨trivial, ?_⟩
      rintro ⟨n₄, f₄⟩ store₄ -
      refine ⟨trivial, ?_⟩
      by_cases hall : f₁ = none ∧ f₂ = none ∧ f₃ = none ∧ f₄ = none
      · obtain ⟨rfl, rfl, rfl, rfl⟩ := hall
        rintro _ _ _ rule' ⟨⟩ hrule' hout -
        rw [hrule] at hrule'
        cases hrule'
        have hdecision := Option.some.inj (Except.ok.inj hout)
        refine ⟨_, _, _, _, rfl, rfl, rfl, rfl, fun row hrow => ?_, fun row hrow => ?_⟩
        · by_contra hne
          have hex : row.isExceeded rule.maxRequests (store₃.now + n₃) = true := by
            simpa [rateClock] using hne
          simp only at hrow
          simp [RateStmt.exec, hrow, Option.filter, hex] at hdecision
        · by_contra hne
          have hbl : row.isBlocked (store₄.now + n₄) = true := by simpa [rateClock] using hne
          simp only at hrow
          simp only [RateStmt.exec, hrow, Option.map_some, hbl, Option.getD_some, if_true]
            at hdecision
          split at hdecision <;> cases hdecision
      · refine meets_of_fault fun t r _ _ _ rule' _ _ _ hfault => absurd ?_ hall
        simp only [List.cons_append, List.nil_append, List.mem_cons, forall_eq_or_imp] at hfault
        exact ⟨hfault.1, hfault.2.1, hfault.2.2.1, hfault.2.2.2.1⟩
  · refine (Prog.Only.meets (S := fun _ => True) ?_ (fun _ _ _ _ => trivial) ?_)
    · exact ⟨trivial, fun _ => trivial⟩
    · rintro _ _ - _ _ _ _ ⟨⟩

/-! ## The limit -/

/-- The last element with a property. -/
theorem exists_last {α : Type} {p : α → Prop} {xs : List α} (h : ∃ x ∈ xs, p x) :
    ∃ xs₁ x xs₂, xs = xs₁ ++ x :: xs₂ ∧ p x ∧ ∀ y ∈ xs₂, ¬ p y := by
  induction xs with
  | nil => simp at h
  | cons a xs ih =>
    by_cases hx : ∃ x ∈ xs, p x
    · obtain ⟨xs₁, x, xs₂, rfl, hp, hlast⟩ := ih hx
      exact ⟨a :: xs₁, x, xs₂, rfl, hp, hlast⟩
    · obtain ⟨x, hm, hp⟩ := h
      rcases List.mem_cons.mp hm with rfl | hm
      · exact ⟨[], x, xs, rfl, hp, fun y hy hpy => hx ⟨y, hy, hpy⟩⟩
      · exact absurd ⟨x, hm, hp⟩ hx

/-- **The shared limit.** In every run in which no statement fails, the
    count of the bucket is not cleared while requests of the window are
    under way, and no block ends between two statements of one of them, no
    more than `max_requests` of them are admitted. -/
theorem shared_limit {now : Int} (hc : Reachable (RateStore.fresh now) c) (hf : NoFault c)
    {key endpoint : Str} {rule : RateLimitRule} {w : Nat}
    (hrule : l.endpointRules.lookup endpoint = some rule)
    (hclear : NotCleared c key endpoint rule w) (hblock : NotUnblocked c key endpoint rule w)
    {is : List Nat} (hnd : is.Nodup)
    (his : ∀ i ∈ is, ChecksIn c key endpoint rule w i ∧ c.Returned i (.ok (some .allowed))) :
    is.length ≤ rule.maxRequests := by
  have hinv := hc.rule (shared_met (l := l)) fun _ => trivial
  have hadm : ∀ i ∈ is, ∃ nowSecs, rule.windowIndex nowSecs = w ∧
      Admitted (bucketId key endpoint) rule key endpoint nowSecs (entriesOf i c.trace) := by
    intro i hi
    obtain ⟨⟨nowSecs, hreq, hw⟩, hret⟩ := his i hi
    obtain ⟨r, hr, hout⟩ := hinv.returned hret
    cases hr.symm.trans hreq
    exact ⟨nowSecs, hw, hout key endpoint nowSecs rule rfl hrule rfl fun e he =>
      hf (i, e) (mem_entriesOf.mp he)⟩
  rcases is.eq_nil_or_concat with rfl | ⟨_, i₀, his₀⟩
  · exact Nat.zero_le _
  -- the request that was counted last
  have hsome : ∃ x ∈ c.trace, x.1 ∈ is ∧ countsIn (bucketId key endpoint) w x.2 = true := by
    have hi₀ : i₀ ∈ is := by rw [his₀]; simp
    obtain ⟨nowSecs, hw, ⟨e₁, e₂, e₃, e₄, hh, hs₂, -⟩⟩ := hadm i₀ hi₀
    exact ⟨(i₀, e₂), mem_entriesOf.mp (by rw [hh]; simp), hi₀,
      countsIn_iff.mpr ⟨key, endpoint, hw ▸ hs₂⟩⟩
  obtain ⟨tr₁, ⟨j, e⟩, tr₂, htr, ⟨hj, hcount⟩, hlast⟩ := exists_last hsome
  obtain ⟨nowSecs, hw, ⟨e₁, e₂, e₃, e₄, hh, hs₂, hs₃, hs₄, hnot, hfree⟩⟩ := hadm j hj
  -- its blocking statement comes after all their counting statements
  obtain ⟨tr₃, tr₄, htr', h₃, h₄⟩ := entriesOf_split (show entriesOf j c.trace =
    [e₁, e₂] ++ e₃ :: [e₄] from hh)
  have hnot₃ : countsIn (bucketId key endpoint) w e₃ = false := by simp [countsIn, hs₃]
  have hnot₄ : countsIn (bucketId key endpoint) w e₄ = false := by simp [countsIn, hs₄]
  have hlate : ∀ x ∈ tr₄, x.1 ∈ is → countsIn (bucketId key endpoint) w x.2 = false := by
    intro x hx hxi
    by_contra hcx
    have hxl : ¬ x ∈ tr₂ := fun h => hlast x h ⟨hxi, by simpa using hcx⟩
    rcases List.append_eq_append_iff.mp (htr.symm.trans htr') with ⟨as, rfl, has⟩ | ⟨bs, rfl, hbs⟩
    · rcases as with _ | ⟨a, as⟩
      · obtain ⟨h, -⟩ := List.cons.inj has
        rw [(Prod.mk.inj h).2, hnot₃] at hcount
        cases hcount
      · rw [(List.cons.inj has).2] at hxl
        exact hxl (by simp [hx])
    · have hmem : (j, e) ∈ (j, e₃) :: tr₄ := by rw [hbs]; simp
      rcases List.mem_cons.mp hmem with h | h
      · rw [(Prod.mk.inj h).2, hnot₃] at hcount
        cases hcount
      · have : e ∈ [e₄] := h₄ ▸ mem_entriesOf.mpr h
        rw [List.mem_singleton.mp this, hnot₄] at hcount
        cases hcount
  have hcounted : ∀ i ∈ is, ∃ d, (i, d) ∈ tr₃ ∧ countsIn (bucketId key endpoint) w d = true := by
    intro i hi
    obtain ⟨nowSecs', hw', ⟨d₁, d₂, d₃, d₄, hd, hd₂, -⟩⟩ := hadm i hi
    have hcd : countsIn (bucketId key endpoint) w d₂ = true :=
      countsIn_iff.mpr ⟨key, endpoint, hw' ▸ hd₂⟩
    have hmem : (i, d₂) ∈ tr₃ ++ (j, e₃) :: tr₄ := htr' ▸ mem_entriesOf.mp (by rw [hd]; simp)
    refine ⟨d₂, ?_, hcd⟩
    rcases List.mem_append.mp hmem with h | h
    · exact h
    · rcases List.mem_cons.mp h with h | h
      · rw [(Prod.mk.inj h).2, hnot₃] at hcd
        cases hcd
      · rw [hlate _ h hi] at hcd
        cases hcd
  have hlen : is.length ≤ tr₃.countP fun x => countsIn (bucketId key endpoint) w x.2 := by
    rw [List.countP_eq_length_filter, ← List.length_map Prod.fst]
    refine (List.subperm_of_subset hnd fun i hi => ?_).length_le
    obtain ⟨d, hd, hcd⟩ := hcounted i hi
    exact List.mem_map.mpr ⟨(i, d), List.mem_filter.mpr ⟨hd, hcd⟩, rfl⟩
  have hchecks := (his j hj).1
  obtain ⟨row, hrow, hle⟩ : ∃ row, e₃.before.rows (bucketId key endpoint) = some row ∧
      tr₃.countP (fun x => countsIn (bucketId key endpoint) w x.2) ≤ row.hits := by
    refine counted_le_hits (Steps.split_entry (htr' ▸ hc.steps)).1
      (fun x hx => hf x (by simp [htr', hx])) ?_ ?_
    · intro a x b hab hcl y hy
      by_contra hcy
      exact hclear a x (b ++ (j, e₃) :: tr₄) (by rw [htr', hab]; simp) hcl
        ⟨y, hy, by simpa using hcy⟩ (j, e₃) (by simp) hchecks _ _ hs₃
    · obtain ⟨d, hd, hcd⟩ := hcounted j hj
      exact ⟨_, hd, hcd⟩
  by_contra hmany
  -- so a block was in force, and is in force when the request reads it
  have hexceeded := hnot row hrow
  have hhits : rule.maxRequests < row.hits := by omega
  cases hb : row.blockedUntil with
  | none => simp [RateRow.isExceeded, hb, hhits] at hexceeded
  | some b =>
    have hforce : rateClock e₃ ≤ b := by simpa [RateRow.isExceeded, hb, hhits] using hexceeded
    obtain ⟨tr₅, tr₆, htr₄, -, -⟩ := entriesOf_split (show entriesOf j tr₄ = [] ++ e₄ :: [] from h₄)
    have hcut : c.trace = tr₃ ++ (j, e₃) :: (tr₅ ++ (j, e₄) :: tr₆) := by rw [htr', htr₄]
    have hlt : rateClock e₄ < b := hblock tr₃ j e₃ tr₅ e₄ tr₆ hcut hchecks ⟨_, _, hs₃⟩ hs₄ row b
      hrow hb hforce
    have hf₄ := hf (j, e₄) (by rw [hcut]; simp)
    have hf₃ := hf (j, e₃) (by rw [hcut]; simp)
    have hseg : Steps (S := replicas l bucketId) e₃.after tr₅ e₄.before :=
      (Steps.split_entry (Steps.split_entry (hcut ▸ hc.steps)).2).1
    have hfseg : ∀ x ∈ tr₅, x.2.ctx.fault = none := fun x hx => hf x (by rw [hcut]; simp [hx])
    have hend : e₄.before.now < b → ∃ row', e₄.before.rows (bucketId key endpoint) = some row' ∧
        row'.blockedUntil = some b := by
      refine hseg.preserves (P := fun s => s.now < b → ∃ row',
        s.rows (bucketId key endpoint) = some row' ∧ row'.blockedUntil = some b) ?_ ?_
      · intro hnow
        rw [(rows_after hf₃).2] at hnow
        exact blocked_after hf₃ hrow hb hnow
      · intro i d hm hprev hnow
        have hfd : d.ctx.fault = none := hfseg (i, d) hm
        have hnow' : d.after.now < b := hnow
        rw [(rows_after hfd).2] at hnow'
        have hle : d.before.now ≤ rateClock d := by unfold rateClock; omega
        obtain ⟨row', hrow', hb'⟩ := hprev (by omega)
        exact blocked_after hfd hrow' hb' hnow'
    have hle₄ : e₄.before.now ≤ rateClock e₄ := by unfold rateClock; omega
    obtain ⟨row', hrow', hb'⟩ := hend (by omega)
    have := hfree row' hrow'
    simp [RateRow.isBlocked, hb', hlt] at this

end

end SoulAuth

namespace SoulAuth.Sample

open Framework Framework.System

/-- One request a minute to the login endpoint. -/
def loginRule : RateLimitRule := ⟨seconds 60, 1, seconds 120⟩

def sharedRules : RateLimiter := ⟨.default, [("/login".toList, loginRule)]⟩

/-- A check by a replica whose clock reads `nowSecs`. -/
def loginCheck (nowSecs : Nat) : SharedRequest := .check "ip".toList "/login".toList nowSecs

/-- The checks by these readings, one served after the other. -/
def served (readings : List Nat) : (replicas sharedRules recordKey).Conf :=
  (System.initial (replicas sharedRules recordKey) (RateStore.fresh 0)).run
    (readings.zipIdx.flatMap fun r =>
      .start (loginCheck r.1) :: List.replicate 4 (.step r.2 Ctx.calm))

/-- The window before the minute is counted from zero again when a request
    of the next minute has been faster: two of its requests are admitted. -/
theorem shared_limit_overtaken :
    Reachable (RateStore.fresh 0) (served [59, 60, 59]) ∧ NoFault (served [59, 60, 59]) ∧
      loginRule.maxRequests = 1 ∧ ∀ i ∈ [0, 2],
        ChecksIn (served [59, 60, 59]) "ip".toList "/login".toList loginRule 0 i ∧
          (served [59, 60, 59]).Returned i (.ok (some .allowed)) := by
  refine ⟨⟨_, rfl⟩, by unfold NoFault; decide +kernel, rfl, fun i hi => ?_⟩
  have hi' : i = 0 ∨ i = 2 := by simpa using hi
  rcases hi' with rfl | rfl
  · exact ⟨⟨59, by decide +kernel, by decide⟩, Conf.returned_of_outcome (by decide +kernel)⟩
  · exact ⟨⟨59, by decide +kernel, by decide⟩, Conf.returned_of_outcome (by decide +kernel)⟩

/-- Whether a blocking statement finds no block. -/
def findsNoBlock (e : Entry rateMachine) : Bool :=
  match e.stmt with
  | .blockIfExceeded bucket _ _ => (e.before.rows bucket).all fun row => row.blockedUntil = none
  | _ => true

/-- In one minute the second request is not admitted. -/
theorem shared_limit_same_minute : ¬ (served [0, 30]).Returned 1 (.ok (some .allowed)) := by
  intro hret
  have hclear : NotCleared (served [0, 30]) "ip".toList "/login".toList loginRule 0 := by
    intro tr₁ x tr₂ htr hcl
    have hnone : ∀ x ∈ (served [0, 30]).trace,
        clearsCount (recordKey "ip".toList "/login".toList) x.2 = false := by decide +kernel
    rw [hnone x (by rw [htr]; simp)] at hcl
    cases hcl
  have hblock : NotUnblocked (served [0, 30]) "ip".toList "/login".toList loginRule 0 := by
    rintro tr₁ i e tr₂ e' tr₃ htr - ⟨limit, duration, hs⟩ - row b hrow hb -
    have hnone : ∀ x ∈ (served [0, 30]).trace, findsNoBlock x.2 = true := by decide +kernel
    have hfinds := hnone (i, e) (by rw [htr]; simp)
    unfold findsNoBlock at hfinds
    rw [hs] at hfinds
    simp only at hfinds
    rw [hrow] at hfinds
    simp [hb] at hfinds
  have hboth : ∀ i ∈ [0, 1],
      ChecksIn (served [0, 30]) "ip".toList "/login".toList loginRule 0 i ∧
        (served [0, 30]).Returned i (.ok (some .allowed)) := by
    intro i hi
    have hi' : i = 0 ∨ i = 1 := by simpa using hi
    rcases hi' with rfl | rfl
    · exact ⟨⟨0, by decide +kernel, by decide⟩, Conf.returned_of_outcome (by decide +kernel)⟩
    · exact ⟨⟨30, by decide +kernel, by decide⟩, hret⟩
  have hlen : [0, 1].length ≤ loginRule.maxRequests :=
    shared_limit ⟨_, rfl⟩ (by unfold NoFault; decide +kernel) (by decide) hclear hblock (by decide)
      hboth
  exact absurd hlen (by decide)

end SoulAuth.Sample
