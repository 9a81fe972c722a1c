import Mathlib.Algebra.Order.BigOperators.Group.Finset
import SoulAuth.Proofs.LockoutCalls
import SoulAuth.Proofs.Tables

/-! # Counting failed attempts

An attempt to record a failure is three statements. The first one counts;
when it took effect and a later one fails, the attempt fails as a whole, and
the next attempt counts the same failure again.
-/

namespace SoulAuth

open Framework Framework.System Framework.Prog

section

variable [Platform]

/-- The entry has counted a failure. -/
def countTaken (e : Entry machine) : Bool :=
  match e.stmt with
  | .db (.lockout (.countFailure _ _ _)) => e.ctx.fault = none || e.ctx.fault = some .lostReply
  | _ => false

/-- The attempts of a call, three statements each, that failed although
    their first statement had counted the failure. -/
def wasted : List (Entry machine) → Nat
  | counted :: locked :: read :: h =>
    (if countTaken counted = true ∧
        ¬ (counted.ctx.fault = none ∧ locked.ctx.fault = none ∧ read.ctx.fault = none)
      then 1 else 0) + wasted h
  | _ => 0

/-- 1 for a success and 0 for a failure. -/
def okCount {ε α : Type} : Except ε α → Nat
  | .ok _ => 1
  | .error _ => 0

/-! ## One attempt -/

variable {h : List (Entry machine)} {id : Str} {ty : LockoutType}

/-- The programs that run over keyed tables. -/
abbrev Counting {ε α : Type} (Q : List (Entry machine) → Except ε α → Prop)
    (h : List (Entry machine)) (p : Req ε α) : Prop :=
  p.Meets (fun w : World => Keyed w.db.lockouts) (fun _ _ => True) Q h

omit [Platform] in
/-- A statement under the right key is never refused by the unique index. -/
theorem Keyed.answers {t : List AccountLockout} (hkeyed : Keyed t) {s : LockoutStmt}
    (hs : s.IsAddressed) (now : Timestamp) : ∃ a, (s.exec now t).1 = .ok a := by
  cases s with
  | save l =>
    rw [LockoutStmt.exec, if_neg (by rw [hkeyed.not_clash hs]; decide)]
    exact ⟨_, rfl⟩
  | countFailure k id ty =>
    rw [LockoutStmt.exec, if_neg (by rw [hkeyed.not_clash hs]; decide)]
    exact ⟨_, rfl⟩
  | _ => exact ⟨_, rfl⟩

/-- A statement of an attempt fails exactly if the scheduler lets it. -/
theorem counting_attempt {α : Type} {s : LockoutStmt} (hs : s.IsAddressed)
    {f : Except AuthError s.Reply → Req AuthError α}
    {Q : List (Entry machine) → Except AuthError α → Prop}
    (hnext : ∀ e r, e.stmt = .db (.lockout s) → (e.ctx.fault = none ↔ ∃ a, r = .ok a) →
      Counting Q (h ++ [e]) (f r)) :
    Counting Q h (Prog.attempt (query (.lockout s)) >>= f) := by
  rintro ⟨elapsed, fault⟩ w hw
  refine ⟨trivial, ?_⟩
  rcases fault with _ | fault
  · obtain ⟨a, ha⟩ := hw.answers hs (w.now + elapsed)
    have hresp : (machine.exec ⟨elapsed, none⟩ (Stmt.db (.lockout s)) w).1 = .ok a := ha
    have hgo := hnext ⟨⟨elapsed, none⟩, .db (.lockout s), w⟩ (.ok a) rfl
      ⟨fun _ => ⟨a, rfl⟩, fun _ => rfl⟩
    rw [hresp]
    exact hgo
  · have hgo : ∀ x, Counting Q (h ++ [⟨⟨elapsed, some fault⟩, .db (.lockout s), w⟩])
        (f (.error (AuthError.ofDb x))) := fun x =>
      hnext _ _ rfl ⟨nofun, fun ⟨_, ha⟩ => nomatch ha⟩
    cases fault <;> exact hgo _

theorem sendFailedAttempt_counting (cfg : LockoutConfig) :
    Counting (fun h' r => ∃ counted locked read, h' = h ++ [counted, locked, read] ∧
      ∀ t, (counted :: locked :: read :: t).countP countTaken + wasted t =
        wasted (counted :: locked :: read :: t) + t.countP countTaken + okCount r) h
      (sendFailedAttempt cfg id ty) := by
  unfold sendFailedAttempt
  have haddressed : (LockoutStmt.countFailure (lockoutRecordId id ty) id ty).IsAddressed := rfl
  refine counting_attempt haddressed fun e₁ r₁ hs₁ hf₁ => ?_
  refine counting_attempt (s := .lockIfReached _ _ _) trivial fun e₂ r₂ hs₂ hf₂ => ?_
  refine counting_attempt (s := .attempts _) trivial fun e₃ r₃ hs₃ hf₃ => ?_
  have htaken₂ : countTaken e₂ = false := by simp [countTaken, hs₂]
  have htaken₃ : countTaken e₃ = false := by simp [countTaken, hs₃]
  have hlist : h ++ [e₁] ++ [e₂] ++ [e₃] = h ++ [e₁, e₂, e₃] := by simp
  have hsum : ∀ t, (e₁ :: e₂ :: e₃ :: t).countP countTaken =
      (if countTaken e₁ = true then 1 else 0) + t.countP countTaken := by
    intro t
    rw [List.countP_cons, List.countP_cons, List.countP_cons, htaken₂, htaken₃]
    simp [Nat.add_comm]
  -- the attempt succeeds exactly if all three statements do
  have hfail : ∀ x : AuthError, (e₁.ctx.fault ≠ none ∨ e₂.ctx.fault ≠ none ∨ e₃.ctx.fault ≠ none) →
      ∃ counted locked read, h ++ [e₁] ++ [e₂] ++ [e₃] = h ++ [counted, locked, read] ∧
        ∀ t, (counted :: locked :: read :: t).countP countTaken + wasted t =
          wasted (counted :: locked :: read :: t) + t.countP countTaken +
            okCount (.error x : Except AuthError AttemptOutcome) := by
    intro x hfaulty
    refine ⟨e₁, e₂, e₃, hlist, fun t => ?_⟩
    have hnot : ¬ (e₁.ctx.fault = none ∧ e₂.ctx.fault = none ∧ e₃.ctx.fault = none) := by tauto
    rw [hsum, wasted]
    simp only [hnot, not_false_eq_true, and_true, okCount]
    omega
  cases r₁ with
  | error x => exact hfail x (.inl fun hn => nomatch (hf₁.mp hn).choose_spec)
  | ok a₁ =>
    cases r₂ with
    | error x => exact hfail x (.inr (.inl fun hn => nomatch (hf₂.mp hn).choose_spec))
    | ok a₂ =>
      cases r₃ with
      | error x => exact hfail x (.inr (.inr fun hn => nomatch (hf₃.mp hn).choose_spec))
      | ok a₃ =>
        refine ⟨e₁, e₂, e₃, hlist, fun t => ?_⟩
        have hn₁ := hf₁.mpr ⟨a₁, rfl⟩
        have hn₂ := hf₂.mpr ⟨a₂, rfl⟩
        have hn₃ := hf₃.mpr ⟨a₃, rfl⟩
        have htaken₁ : countTaken e₁ = true := by simp [countTaken, hs₁, hn₁]
        rw [hsum, wasted]
        simp only [htaken₁, hn₁, hn₂, hn₃, and_self, not_true_eq_false, and_false, if_false, if_true,
          okCount]
        omega

/-- A call counts its failure once, and once more for every wasted attempt. -/
theorem retry_counting (cfg : LockoutConfig) (n : Nat) :
    Counting (fun h' r => ∃ t, h' = h ++ t ∧ t.countP countTaken = wasted t + okCount r) h
      (retryOnConflict n (sendFailedAttempt cfg id ty)) := by
  induction n generalizing h with
  | zero => exact ⟨[], by simp, rfl⟩
  | succ n ih =>
    unfold retryOnConflict
    refine Meets.bind (P := fun h' r => ∃ sent, r = .ok sent ∧ ∃ counted locked read,
        h' = h ++ [counted, locked, read] ∧
        ∀ t, (counted :: locked :: read :: t).countP countTaken + wasted t =
          wasted (counted :: locked :: read :: t) + t.countP countTaken + okCount sent)
      (Meets.attempt (sendFailedAttempt_counting cfg) fun t r hr => ⟨r, rfl, hr⟩)
      (fun t sent hsent => ?_) fun t x hx => ?_
    · obtain ⟨_, heq, counted, locked, read, hlist, hsum⟩ := hsent
      cases heq
      rw [hlist]
      cases sent with
      | ok a =>
        have hnil := hsum []
        exact ⟨[counted, locked, read], rfl, by simpa [wasted, okCount] using hnil⟩
      | error x =>
        simp only []
        split
        · refine ih.weaken (fun _ hw => hw) (fun _ _ _ _ => trivial) fun t' r hr => ?_
          obtain ⟨t'', ht'', hcount⟩ := hr
          refine ⟨counted :: locked :: read :: t'', by rw [ht'']; simp, ?_⟩
          have hnext := hsum t''
          simp only [okCount] at hnext
          omega
        · have hnil := hsum []
          exact ⟨[counted, locked, read], rfl, by simpa [wasted, okCount] using hnil⟩
    · obtain ⟨_, heq, -⟩ := hx
      cases heq

/-- The operation records a failure of the identifier. -/
def LockoutCall.records (id : Str) (ty : LockoutType) : LockoutCall → Bool
  | .recordFailed _ ty' id' => ty' = ty && id' = id
  | _ => false

omit [Platform] in
theorem LockoutCall.records_iff {r : LockoutCall} :
    r.records id ty = true ↔ ∃ cfg, r = .recordFailed cfg ty id := by
  cases r with
  | recordFailed cfg ty' id' =>
    constructor
    · intro h
      obtain ⟨rfl, rfl⟩ : ty' = ty ∧ id' = id := by simpa [records] using h
      exact ⟨cfg, rfl⟩
    · rintro ⟨cfg', h⟩
      cases h
      simp [records]
  | _ => exact ⟨nofun, nofun⟩

/-- The rule of the counting operations. -/
def countRule : Rule lockoutService where
  assumes w := Keyed w.db.lockouts
  entry _ _ _ := True
  outcome
    | .recordFailed cfg ty _ => fun h r =>
      cfg.enables ty = true → h.countP countTaken = wasted h + okCount r
    | _ => fun _ _ => True

theorem countRule_met : countRule.Met := by
  intro r
  cases r with
  | recordFailed cfg ty id =>
    show Counting _ [] (recordFailedAttempt cfg ty id >>= fun _ => pure LockoutAnswer.recorded)
    unfold recordFailedAttempt
    split
    · refine Meets.bind (Meets.bind (retry_counting cfg writeConflictRetries)
        (Q := fun h' r => h'.countP countTaken = wasted h' + okCount r) (fun t a ht => ?_)
        fun t x ht => ?_) (fun t a ht _ => ht) fun t x ht _ => ht
      · obtain ⟨t', heq, ht'⟩ := ht
        obtain rfl : t = t' := List.append_cancel_left heq
        exact ht'
      · obtain ⟨t', heq, ht'⟩ := ht
        obtain rfl : t = t' := List.append_cancel_left heq
        exact ht'
    · next hoff => exact fun hon => absurd hon hoff
  | _ => exact Prog.meets_trivial

/-! ## Runs -/

/-- The stored number of failed attempts. -/
def attemptsOf (id : Str) (ty : LockoutType) (w : World) : Nat :=
  ((lockoutOf id ty w.db.lockouts).map AccountLockout.failedAttempts).getD 0

/-- A statement of a recording raises the number by one if it counts. -/
theorem attemptsOf_after {r : LockoutCall} {e : Entry machine} (hE : lockoutRule.entry r h e)
    (hrec : r.records id ty = true) (hkeyed : Keyed e.before.db.lockouts)
    (hown : OwnRow id ty e.before.db.lockouts) :
    attemptsOf id ty e.after = attemptsOf id ty e.before + if countTaken e then 1 else 0 := by
  obtain ⟨cfg, rfl⟩ := LockoutCall.records_iff.mp hrec
  have hresp : (LockoutCall.recordFailed cfg ty id).Respects id ty := fun id' hsub _ => by
    cases hsub
    rfl
  obtain ⟨hkeyed', hrow⟩ := lockoutRule_after hE hkeyed
  have hown' := hown.next hE hkeyed hresp
  rw [attemptsOf, attemptsOf, hown.lockoutOf_eq hkeyed, hown'.lockoutOf_eq hkeyed']
  rcases hrow with ⟨s, hex, hrow⟩ | ⟨hnot, hsame⟩
  · rw [hrow]
    rcases hE with hnow | ⟨s', hs', habout, hsave⟩
    · exact absurd (hnow.symm.trans hex.stmt) nofun
    · obtain rfl := DbStmt.lockout.inj (Stmt.db.inj (hs'.symm.trans hex.stmt))
      cases s' with
      | get id' ty' => simp [LockoutStmt.onRow, countTaken, hs']
      | attempts key => simp [LockoutStmt.onRow, countTaken, hs']
      | save l => exact (hsave ⟨l, rfl⟩).elim
      | cleanup t stale => exact habout.elim
      | lockIfReached key m d =>
        have hcount : ∀ r : AccountLockout,
            (if r.isReached key m = true then r.lock d (clock e) else r).failedAttempts =
              r.failedAttempts := fun r => by split <;> rfl
        simp only [LockoutStmt.onRow, countTaken, hs', Option.map_map, Bool.false_eq_true, if_false,
          Nat.add_zero]
        congr 2
        exact funext hcount
      | countFailure key id' ty' =>
        obtain ⟨rfl, rfl, rfl⟩ := habout
        have htaken : countTaken e = true := by
          have hexec := hex.executed
          simpa [countTaken, hs'] using hexec
        rw [LockoutStmt.onRow, if_pos rfl, htaken, if_pos rfl]
        cases lockoutAt (lockoutRecordId id' ty') e.before.db.lockouts <;> rfl
  · have htaken : countTaken e = false := by
      unfold countTaken
      split
      · next key id' ty' hs =>
        refine Bool.not_eq_true _ ▸ fun hexec => hnot _ ⟨hs, ?_⟩
        simpa using hexec
      · rfl
    rw [hsame, htaken]
    rfl

/-- The number of recordings of the identifier that have returned `Ok`. -/
def recorded (id : Str) (ty : LockoutType) (c : lockoutService.Conf) : Nat :=
  ((Finset.range c.threads.length).filter fun i =>
    (c.reqOf i).any (·.records id ty) = true ∧ (c.outcome i).any Except.isOk = true).card

/-- The stored number, by the counting statements of the recordings. -/
theorem attemptsOf_run {w : World} (hw : Keyed w.db.lockouts) (hown : OwnRow id ty w.db.lockouts)
    {c : lockoutService.Conf} (hc : Reachable w c)
    (hresp : ∀ i r, c.reqOf i = some r → r.Respects id ty)
    (hquiet : ∀ i e, (i, e) ∈ c.trace → (c.reqOf i).any (·.records id ty) = false →
      attemptsOf id ty e.after = attemptsOf id ty e.before) :
    attemptsOf id ty c.state = attemptsOf id ty w +
      c.trace.countP fun x => (c.reqOf x.1).any (·.records id ty) && countTaken x.2 := by
  have key : ∀ tr w', Steps (S := lockoutService) w tr w' → (∃ tr', c.trace = tr ++ tr') →
      OwnRow id ty w'.db.lockouts ∧ attemptsOf id ty w' = attemptsOf id ty w +
        tr.countP fun x => (c.reqOf x.1).any (·.records id ty) && countTaken x.2 := by
    intro tr w' hsteps
    induction hsteps with
    | nil => exact fun _ => ⟨hown, rfl⟩
    | @snoc tr w' i e hsteps he ih =>
      rintro ⟨tr', htr'⟩
      rw [List.append_assoc] at htr'
      obtain ⟨hown', hcount⟩ := ih ⟨_, htr'⟩
      obtain ⟨c₁, hc₁, -, hstate⟩ := hc.before htr'
      have hkeyed := (keyed_run hw hc₁).2
      obtain ⟨r, hr, hE⟩ := (keyed_run hw hc).1.entries tr i e tr' htr'
      rw [hstate] at hkeyed
      rw [← he] at hown' hcount
      refine ⟨hown'.next hE hkeyed (hresp i r hr), ?_⟩
      rw [List.countP_append, List.countP_singleton, ← Nat.add_assoc, ← hcount]
      simp only [hr, Option.any_some]
      cases hrec : r.records id ty with
      | true => simpa [hrec] using attemptsOf_after hE hrec hkeyed hown'
      | false =>
        have hmem : (i, e) ∈ c.trace := by
          rw [htr']
          simp
        simpa [hrec] using hquiet i e hmem (by simpa [hr] using hrec)
  exact (key c.trace c.state hc.steps ⟨[], by simp⟩).2

/-- **Exact counting.** When only recordings of its own change the stored
    number of an identifier, and all of them have returned, the number has
    risen by the recordings that returned `Ok` exactly if none of their
    attempts failed after it had counted. -/
theorem counted_exactly {w : World} (hw : Keyed w.db.lockouts)
    (hown : OwnRow id ty w.db.lockouts) {c : lockoutService.Conf} (hc : Reachable w c)
    (hresp : ∀ i r, c.reqOf i = some r → r.Respects id ty)
    (hquiet : ∀ i e, (i, e) ∈ c.trace → (c.reqOf i).any (·.records id ty) = false →
      attemptsOf id ty e.after = attemptsOf id ty e.before)
    (henabled : ∀ i cfg, c.reqOf i = some (.recordFailed cfg ty id) → cfg.enables ty = true)
    (hret : ∀ i cfg, c.reqOf i = some (.recordFailed cfg ty id) → ∃ r, c.Returned i r) :
    attemptsOf id ty c.state = attemptsOf id ty w + recorded id ty c ↔
      ∀ i cfg, c.reqOf i = some (.recordFailed cfg ty id) → wasted (entriesOf i c.trace) = 0 := by
  have hinv : countRule.Inv c := hc.rule_of countRule_met fun c' hc' => (keyed_run hw hc').2
  rw [attemptsOf_run hw hown hc hresp hquiet, Nat.add_left_cancel_iff,
    countP_trace (S := lockoutService) (n := c.threads.length)
      (p := fun i e => (c.reqOf i).any (·.records id ty) && countTaken e) hinv.known,
    recorded, Finset.card_filter]
  -- request by request: the counts are the wasted ones and the success
  have hreq : ∀ i, (entriesOf i c.trace).countP
        (fun e => (c.reqOf i).any (·.records id ty) && countTaken e) =
      (if (c.reqOf i).any (·.records id ty) = true then wasted (entriesOf i c.trace) else 0) +
        if (c.reqOf i).any (·.records id ty) = true ∧ (c.outcome i).any Except.isOk = true
          then 1 else 0 := by
    intro i
    cases hrec : (c.reqOf i).any (·.records id ty) with
    | false => simp
    | true =>
      obtain ⟨r, hr, hrec'⟩ := (Option.any_eq_true _ _).mp hrec
      obtain ⟨cfg, rfl⟩ := LockoutCall.records_iff.mp hrec'
      obtain ⟨res, hres⟩ := hret i cfg hr
      obtain ⟨q, hq, hout⟩ := hinv.returned hres
      obtain rfl := Option.some.inj (hq.symm.trans hr)
      have hcount := hout (henabled i cfg hr)
      simp only [Bool.true_and, if_true, true_and, hres.outcome, Option.any_some]
      rw [hcount]
      cases res <;> rfl
  simp only [hreq]
  rw [Finset.sum_add_distrib, Nat.add_eq_right, Finset.sum_eq_zero_iff]
  constructor
  · intro hall i cfg hi
    have hlt : i ∈ Finset.range c.threads.length := by
      obtain ⟨t, ht, -⟩ := Option.map_eq_some_iff.mp hi
      exact Finset.mem_range.mpr (List.getElem?_eq_some_iff.mp ht).1
    have hzero := hall i hlt
    have hrec : (c.reqOf i).any (·.records id ty) = true := by
      rw [hi]
      exact LockoutCall.records_iff.mpr ⟨cfg, rfl⟩
    rwa [if_pos hrec] at hzero
  · intro hall i _
    split
    · next hrec =>
      obtain ⟨r, hr, hrec'⟩ := (Option.any_eq_true _ _).mp hrec
      obtain ⟨cfg, rfl⟩ := LockoutCall.records_iff.mp hrec'
      exact hall i cfg hr
    · rfl

end

namespace Sample

/-- The identifier of the sample. -/
def guessed : Str := "a@b.c".toList

/-- One failure is recorded; the locking statement of the first attempt is
    rolled back for a conflict. -/
def conflicted : lockoutService.Conf :=
  (lockoutService.initial (World.fresh 0)).run
    [.start (.recordFailed lockout .user guessed), .step 0 .calm, .step 0 ⟨0, some .conflict⟩,
      .step 0 .calm, .step 0 .calm, .step 0 .calm, .step 0 .calm]

theorem conflicted_reachable : Reachable (World.fresh 0) conflicted := ⟨_, rfl⟩

theorem reqOf_conflicted {i : Nat} {r : LockoutCall} (h : conflicted.reqOf i = some r) :
    i = 0 ∧ r = .recordFailed lockout .user guessed := by
  have hreqs : conflicted.threads.map Thread.req = [.recordFailed lockout .user guessed] := rfl
  have hget : (conflicted.threads.map Thread.req)[i]? = some r := by
    rw [List.getElem?_map]
    exact h
  rw [hreqs] at hget
  cases i with
  | zero => exact ⟨rfl, (Option.some.inj hget).symm⟩
  | succ i => cases hget

theorem returned_conflicted : conflicted.Returned 0 (.ok .recorded) :=
  Conf.returned_of_outcome (by decide +kernel)

theorem respects_conflicted {i : Nat} {r : LockoutCall} (h : conflicted.reqOf i = some r) :
    r.Respects guessed .user := by
  obtain ⟨-, rfl⟩ := reqOf_conflicted h
  intro id' hsub _
  cases hsub
  rfl

theorem quiet_conflicted {i : Nat} {e : Entry machine} (hmem : (i, e) ∈ conflicted.trace)
    (hrec : (conflicted.reqOf i).any (·.records guessed .user) = false) :
    attemptsOf guessed .user e.after = attemptsOf guessed .user e.before := by
  have hall : conflicted.trace.all (fun x => x.1 = 0) = true := by decide +kernel
  obtain rfl : i = 0 := of_decide_eq_true (List.all_eq_true.mp hall _ hmem)
  have hyes : (conflicted.reqOf 0).any (·.records guessed .user) = true := by decide +kernel
  rw [hyes] at hrec
  cases hrec

theorem ownRow_fresh {id : Str} {ty : LockoutType} {now : Timestamp} :
    OwnRow id ty (World.fresh now).db.lockouts := nofun

/-- The failure is counted twice. -/
theorem counted_twice :
    ¬ ∀ (id : Str) (ty : LockoutType) (w : World) (c : lockoutService.Conf),
      Keyed w.db.lockouts → OwnRow id ty w.db.lockouts → Reachable w c →
      (∀ i r, c.reqOf i = some r → r.Respects id ty) →
      (∀ i e, (i, e) ∈ c.trace → (c.reqOf i).any (·.records id ty) = false →
        attemptsOf id ty e.after = attemptsOf id ty e.before) →
      (∀ i cfg, c.reqOf i = some (.recordFailed cfg ty id) → cfg.enables ty = true) →
      (∀ i cfg, c.reqOf i = some (.recordFailed cfg ty id) → ∃ r, c.Returned i r) →
      attemptsOf id ty c.state = attemptsOf id ty w + recorded id ty c := by
  intro hall
  have hcount := hall guessed .user (World.fresh 0) conflicted keyed_nil ownRow_fresh
    conflicted_reachable (fun i r => respects_conflicted) (fun i e => quiet_conflicted)
    (fun i cfg h => by cases (reqOf_conflicted h).2; rfl)
    (fun i cfg h => by cases (reqOf_conflicted h).1; exact ⟨_, returned_conflicted⟩)
  revert hcount
  decide +kernel

theorem counted_exactly_conflicted :
    attemptsOf guessed .user conflicted.state =
        attemptsOf guessed .user (World.fresh 0) + recorded guessed .user conflicted ↔
      ∀ i cfg, conflicted.reqOf i = some (.recordFailed cfg .user guessed) →
        wasted (entriesOf i conflicted.trace) = 0 :=
  counted_exactly keyed_nil ownRow_fresh conflicted_reachable (fun i r => respects_conflicted)
    (fun i e => quiet_conflicted) (fun i cfg h => by cases (reqOf_conflicted h).2; rfl)
    (fun i cfg h => by cases (reqOf_conflicted h).1; exact ⟨_, returned_conflicted⟩)

end Sample

end SoulAuth
