import SoulAuth.Proofs.SlidingWindow

/-! # What the limiter says is left

`get_remaining_requests` subtracts the timestamps of a record from the limit,
without dropping the expired ones first, as a check does. Here the number is
compared with the checks that would be admitted.
-/

namespace SoulAuth

/-! ## Reached states -/

/-- The limit of every rule is a number of 32 bits. -/
def RateLimiter.Narrow (l : RateLimiter) : Prop := ∀ endpoint, (l.getRule endpoint).maxRequests < 2 ^ 32

/-- The records that a run without a shared backend reaches, and the latest
    time of the run. -/
inductive RateLimiter.Reached (l : RateLimiter) : Records → Int → Prop
  | start (now : Int) : l.Reached noRecords now
  | check {records : Records} {now : Int} (h : l.Reached records now) (key endpoint : Str)
      (t : Readings) (ht : now ≤ t.entered) :
      l.Reached (l.checkRateLimitVerbose records key endpoint t).2 t.recorded
  | cleanup {records : Records} {now : Int} (h : l.Reached records now) (now' : Int)
      (hnow : now ≤ now') : l.Reached (cleanupExpiredRecords records now') now'
  | reset {records : Records} {now : Int} (h : l.Reached records now) (key : Str) :
      l.Reached (resetLimit records key) now
  | wait {records : Records} {now : Int} (h : l.Reached records now) (now' : Int)
      (hnow : now ≤ now') : l.Reached records now'

/-! ## Consecutive checks -/

/-- A check that reads one time. -/
def Readings.at (now : Int) : Readings := ⟨now, now, now, Int.le_refl now, Int.le_refl now⟩

/-- The records behind `n` checks of a bucket at one time. -/
def RateLimiter.checked (l : RateLimiter) (records : Records) (key endpoint : Str) (now : Int) :
    Nat → Records
  | 0 => records
  | n + 1 =>
    (l.checkRateLimitVerbose (l.checked records key endpoint now n) key endpoint (.at now)).2

/-- The decision of check number `n` of these. -/
def RateLimiter.decision (l : RateLimiter) (records : Records) (key endpoint : Str) (now : Int)
    (n : Nat) : RateLimitDecision :=
  (l.checkRateLimitVerbose (l.checked records key endpoint now n) key endpoint (.at now)).1

/-- Exactly `k` checks are admitted before the first refusal. -/
def RateLimiter.Admits (l : RateLimiter) (records : Records) (key endpoint : Str) (now : Int)
    (k : Nat) : Prop :=
  (∀ n < k, l.decision records key endpoint now n = .allowed) ∧
    l.decision records key endpoint now k ≠ .allowed

/-- The timestamps of a record that still count. -/
def RequestRecord.counted (r : RequestRecord) (windowDuration : Nat) (now : Int) : Nat :=
  (r.cleanupExpired windowDuration now).timestamps.length

/-- The number that is told is right: the bucket is blocked, or its requests
    that still count fill the limit, or no timestamp of it has expired, and
    requests do not expire at once. -/
def RequestRecord.ToldRight (r : RequestRecord) (rule : RateLimitRule) (now : Int) : Prop :=
  r.isBlocked now = true ∨ rule.maxRequests ≤ r.counted rule.windowDuration now ∨
    0 < rule.windowDuration ∧ ∀ t ∈ r.timestamps, now - rule.windowDuration < t

/-! ## What a run keeps -/

/-- The timestamps of a record are not in the future, and they are few enough
    for their number to survive the cast. -/
structure RequestRecord.Kept (now : Int) (r : RequestRecord) : Prop where
  past : ∀ t ∈ r.timestamps, t ≤ now
  few : r.timestamps.length < 2 ^ 32

section

variable {l : RateLimiter} {records : Records} {key endpoint : Str} {now now' : Int}
  {r : RequestRecord} {rule : RateLimitRule} {t : Readings} {n k : Nat}

theorem RequestRecord.Kept.mono (h : r.Kept now) (hnow : now ≤ now') : r.Kept now' :=
  ⟨fun t ht => Int.le_trans (h.past t ht) hnow, h.few⟩

theorem RequestRecord.Kept.cleanupExpired (h : r.Kept now) (w : Nat) (now' : Int) :
    (r.cleanupExpired w now').Kept now :=
  ⟨fun t ht => h.past t (List.mem_of_mem_filter ht),
    Nat.lt_of_le_of_lt (List.length_filter_le _ _) h.few⟩

/-- A check admits only where there is room. -/
theorem RequestRecord.Kept.check (h : r.Kept now) (ht : now ≤ t.entered)
    (hnarrow : rule.maxRequests < 2 ^ 32) : (r.check rule t).2.Kept t.recorded := by
  have hlate : now ≤ t.recorded := Int.le_trans ht (Int.le_trans t.entered_le t.pruned_le)
  have hpruned := (h.cleanupExpired rule.windowDuration t.pruned).mono hlate
  rcases r.check_cases rule t with ⟨-, he⟩ | ⟨-, -, he⟩ | ⟨-, hroom, he⟩
  · rw [he]
    exact h.mono hlate
  · rw [he]
    exact ⟨hpruned.past, hpruned.few⟩
  · rw [he]
    constructor
    · intro x hx
      rcases List.mem_append.mp hx with hx | hx
      · exact hpruned.past x hx
      · exact Int.le_of_eq (List.mem_singleton.mp hx)
    · show (_ ++ [t.recorded]).length < 2 ^ 32
      rw [List.length_append, List.length_singleton]
      omega

/-- Every record of a reached state is kept so. -/
theorem RateLimiter.Reached.kept (hnarrow : l.Narrow) (h : l.Reached records now) :
    ∀ recordKey r, records recordKey = some r → r.Kept now := by
  induction h with
  | start now =>
    intro _ r hr
    cases hr
  | @check records now h key endpoint t ht ih =>
    intro at' r hr
    have hlate : now ≤ t.recorded := Int.le_trans ht (Int.le_trans t.entered_le t.pruned_le)
    by_cases hat : at' = recordKey key endpoint
    · subst hat
      simp only [RateLimiter.checkRateLimitVerbose, Function.update_self] at hr
      cases hr
      apply RequestRecord.Kept.check _ ht (hnarrow endpoint)
      cases hold : records (recordKey key endpoint) with
      | none => exact ⟨fun _ hmem => absurd hmem List.not_mem_nil, by decide⟩
      | some old => exact ih _ old hold
    · simp only [RateLimiter.checkRateLimitVerbose, Function.update_of_ne hat] at hr
      exact (ih _ r hr).mono hlate
  | cleanup h now' hnow ih =>
    intro at' r hr
    exact (ih at' r (Option.filter_eq_some_iff.mp hr).1).mono hnow
  | reset h key ih =>
    intro at' r hr
    unfold resetLimit at hr
    split at hr
    · cases hr
    · exact ih at' r hr
  | wait h now' hnow ih =>
    intro at' r hr
    exact (ih at' r hr).mono hnow

theorem RateLimiter.Reached.kept_recordOf (hnarrow : l.Narrow) (h : l.Reached records now) :
    (recordOf records key endpoint).Kept now := by
  unfold recordOf
  cases hr : records (recordKey key endpoint) with
  | none => exact ⟨fun _ hmem => absurd hmem List.not_mem_nil, by decide⟩
  | some r => exact h.kept hnarrow _ r hr

/-! ## Consecutive checks of one bucket -/

/-- How many timestamps `n` checks at one time leave behind that count. -/
def RateLimitRule.gain (rule : RateLimitRule) (n : Nat) : Nat :=
  if 0 < rule.windowDuration then n else 0

/-- One admitted check. -/
theorem check_at (hblocked : r.isBlocked now = false)
    (hallowed : (r.check rule (.at now)).1 = .allowed) :
    (r.check rule (.at now)).2.isBlocked now = false ∧
      (r.check rule (.at now)).2.counted rule.windowDuration now =
        r.counted rule.windowDuration now + rule.gain 1 := by
  rcases r.check_cases rule (.at now) with ⟨hb, -⟩ | ⟨-, -, he⟩ | ⟨-, -, he⟩
  · exact absurd (hb.symm.trans hblocked) (by decide)
  · rw [he] at hallowed
    cases hallowed
  · rw [he]
    refine ⟨hblocked, ?_⟩
    let p : Int → Bool := fun t => now - rule.windowDuration < t
    show (List.filter p (List.filter p r.timestamps ++ [now])).length =
      (List.filter p r.timestamps).length + rule.gain 1
    simp only [List.filter_append, List.filter_filter, Bool.and_self, List.length_append]
    have hnew : (List.filter p [now]).length = rule.gain 1 := by
      rw [RateLimitRule.gain]
      by_cases hw : 0 < rule.windowDuration
      · have hp : p now = true := by
          simp only [p, decide_eq_true_eq]
          omega
        rw [if_pos hw, List.filter_cons_of_pos hp]
        rfl
      · have hp : ¬ p now = true := by
          simp only [p, decide_eq_true_eq]
          omega
        rw [if_neg hw, List.filter_cons_of_neg hp]
        rfl
    rw [hnew]

/-- A bucket that is not blocked admits while it has room. -/
theorem allowed_iff (hblocked : r.isBlocked now = false) :
    (r.check rule (.at now)).1 = .allowed ↔
      r.counted rule.windowDuration now < rule.maxRequests := by
  rcases r.check_cases rule (.at now) with ⟨hb, -⟩ | ⟨-, hfull, he⟩ | ⟨-, hroom, he⟩
  · exact absurd (hb.symm.trans hblocked) (by decide)
  · rw [he]
    exact ⟨fun h => (by cases h), fun h => absurd h (Nat.not_lt.mpr hfull)⟩
  · rw [he]
    exact ⟨fun _ => hroom, fun _ => rfl⟩

/-- What admitted checks make of the record. -/
theorem checked_record (hblocked : (recordOf records key endpoint).isBlocked now = false)
    (hall : ∀ j < n, l.decision records key endpoint now j = .allowed) :
    (recordOf (l.checked records key endpoint now n) key endpoint).isBlocked now = false ∧
      (recordOf (l.checked records key endpoint now n) key endpoint).counted
          (l.getRule endpoint).windowDuration now =
        (recordOf records key endpoint).counted (l.getRule endpoint).windowDuration now +
          (l.getRule endpoint).gain n := by
  induction n with
  | zero => exact ⟨hblocked, by simp [RateLimiter.checked, RateLimitRule.gain]⟩
  | succ n ih =>
    obtain ⟨hb, hcount⟩ := ih fun j hj => hall j (Nat.lt_succ_of_lt hj)
    obtain ⟨hb', hcount'⟩ := check_at hb (hall n (Nat.lt_succ_self n))
    have hrecord : recordOf (l.checked records key endpoint now (n + 1)) key endpoint =
        ((recordOf (l.checked records key endpoint now n) key endpoint).check
          (l.getRule endpoint) (.at now)).2 := recordOf_check
    rw [hrecord]
    refine ⟨hb', ?_⟩
    rw [hcount', hcount, RateLimitRule.gain, RateLimitRule.gain, RateLimitRule.gain]
    split <;> omega

/-- The next check of the row is admitted while there is room. -/
theorem decision_iff (hblocked : (recordOf records key endpoint).isBlocked now = false)
    (hall : ∀ j < n, l.decision records key endpoint now j = .allowed) :
    l.decision records key endpoint now n = .allowed ↔
      (recordOf records key endpoint).counted (l.getRule endpoint).windowDuration now +
        (l.getRule endpoint).gain n < (l.getRule endpoint).maxRequests := by
  obtain ⟨hb, hcount⟩ := checked_record hblocked hall
  rw [← hcount]
  exact allowed_iff hb

/-- How many are admitted. -/
theorem admits_iff (hblocked : (recordOf records key endpoint).isBlocked now = false) :
    l.Admits records key endpoint now k ↔
      (∀ n < k, (recordOf records key endpoint).counted (l.getRule endpoint).windowDuration now +
        (l.getRule endpoint).gain n < (l.getRule endpoint).maxRequests) ∧
      ¬ (recordOf records key endpoint).counted (l.getRule endpoint).windowDuration now +
        (l.getRule endpoint).gain k < (l.getRule endpoint).maxRequests := by
  have hall : (∀ n < k, l.decision records key endpoint now n = .allowed) ↔
      ∀ n < k, (recordOf records key endpoint).counted (l.getRule endpoint).windowDuration now +
        (l.getRule endpoint).gain n < (l.getRule endpoint).maxRequests := by
    constructor
    · intro h n hn
      exact (decision_iff hblocked fun j hj => h j (Nat.lt_trans hj hn)).mp (h n hn)
    · intro h n
      -- every check before number `n` is admitted, so it is as well
      induction n using Nat.strongRecOn with
      | ind n ih =>
        intro hn
        exact (decision_iff hblocked fun j hj => ih j hj (Nat.lt_trans hj hn)).mpr (h n hn)
  constructor
  · intro ⟨hbefore, hlast⟩
    exact ⟨hall.mp hbefore, fun h => hlast ((decision_iff hblocked hbefore).mpr h)⟩
  · intro ⟨hbefore, hlast⟩
    have hdone := hall.mpr hbefore
    exact ⟨hdone, fun h => hlast ((decision_iff hblocked hdone).mp h)⟩

/-! ## The number that is told -/

theorem getRemainingRequests_eq :
    l.getRemainingRequests records key endpoint now =
      if (recordOf records key endpoint).isBlocked now then 0
      else (l.getRule endpoint).maxRequests -
        (recordOf records key endpoint).timestamps.length % 2 ^ 32 := by
  unfold RateLimiter.getRemainingRequests recordOf
  cases records (recordKey key endpoint) with
  | none => simp [RequestRecord.isBlocked, RequestRecord.new]
  | some r => rfl

/-- Every timestamp counts exactly when none has expired. -/
theorem counted_eq_length_iff {w : Nat} :
    r.counted w now = r.timestamps.length ↔ ∀ t ∈ r.timestamps, now - w < t := by
  rw [RequestRecord.counted, RequestRecord.cleanupExpired, List.length_filter_eq_length_iff]
  simp only [decide_eq_true_eq]

theorem counted_le (r : RequestRecord) (now : Int) (w : Nat) :
    r.counted w now ≤ r.timestamps.length := List.length_filter_le _ _

/-- With an empty window nothing counts. -/
theorem counted_zero (h : r.Kept now) : r.counted 0 now = 0 := by
  rw [RequestRecord.counted, RequestRecord.cleanupExpired, List.length_eq_zero_iff,
    List.filter_eq_nil_iff]
  intro t ht
  have hpast := h.past t ht
  simp only [decide_eq_true_eq]
  omega

end

/-- **What the limiter says is left.** In every reached state it is the number
    of checks that would be admitted, exactly when it is told right. -/
theorem remaining_admitted_iff {l : RateLimiter} {records : Records} {now : Int}
    (hnarrow : l.Narrow) (h : l.Reached records now) (key endpoint : Str) :
    l.Admits records key endpoint now (l.getRemainingRequests records key endpoint now) ↔
      (recordOf records key endpoint).ToldRight (l.getRule endpoint) now := by
  have hkept : (recordOf records key endpoint).Kept now := h.kept_recordOf hnarrow
  rw [getRemainingRequests_eq, Nat.mod_eq_of_lt hkept.few]
  by_cases hblocked : (recordOf records key endpoint).isBlocked now = true
  · -- a block: no check is admitted, and none is promised
    rw [if_pos hblocked]
    have hrefused : l.decision records key endpoint now 0 = .stillBlocked := by
      have hentered :
          (recordOf records key endpoint).isBlocked (Readings.at now).entered = true := hblocked
      show ((recordOf records key endpoint).check _ (.at now)).1 = _
      rw [RequestRecord.check, if_pos hentered]
    constructor
    · intro _
      exact .inl hblocked
    · intro _
      refine ⟨fun n hn => absurd hn (Nat.not_lt_zero n), ?_⟩
      rw [hrefused]
      decide
  · have hfree : (recordOf records key endpoint).isBlocked now = false := by simpa using hblocked
    rw [if_neg hblocked, admits_iff hfree, RequestRecord.ToldRight, ← counted_eq_length_iff]
    simp only [hfree, Bool.false_eq_true, false_or]
    have hle := counted_le (recordOf records key endpoint) now (l.getRule endpoint).windowDuration
    by_cases hw : 0 < (l.getRule endpoint).windowDuration
    · have hgain : ∀ n, (l.getRule endpoint).gain n = n := fun _ => if_pos hw
      simp only [hgain, hw, true_and]
      constructor
      · intro ⟨_, hlast⟩
        omega
      · intro htold
        constructor
        · intro n hn
          omega
        · omega
    · -- nothing counts, so that checks are admitted without end unless the limit is zero
      have hnone : (recordOf records key endpoint).counted
          (l.getRule endpoint).windowDuration now = 0 := by
        have hzero : (l.getRule endpoint).windowDuration = 0 := by omega
        rw [hzero]
        exact counted_zero hkept
      have hgain : ∀ n, (l.getRule endpoint).gain n = 0 := fun _ => if_neg hw
      simp only [hgain, hw, hnone, false_and, or_false]
      constructor
      · intro ⟨_, hlast⟩
        omega
      · intro hzero
        constructor
        · intro n hn
          omega
        · omega

end SoulAuth

namespace SoulAuth.Sample

/-- The records behind one check at time zero. -/
def checkedOnce : Records :=
  (strictLimiter.checkRateLimitVerbose noRecords "ip".toList "/login".toList (.at 0)).2

theorem strictLimiter_narrow : strictLimiter.Narrow := by
  intro endpoint
  show (([] : List (Str × RateLimitRule)).lookup endpoint |>.getD _).maxRequests < _
  rw [List.lookup_nil]
  decide

theorem checkedOnce_reached (now : Int) (h : 0 ≤ now) : strictLimiter.Reached checkedOnce now :=
  .wait (.check (.start 0) _ _ (.at 0) (Int.le_refl 0)) now h

theorem remaining_admitted_soon :
    strictLimiter.Admits checkedOnce "ip".toList "/login".toList 1
        (strictLimiter.getRemainingRequests checkedOnce "ip".toList "/login".toList 1) ↔
      (recordOf checkedOnce "ip".toList "/login".toList).ToldRight
        (strictLimiter.getRule "/login".toList) 1 :=
  remaining_admitted_iff strictLimiter_narrow (checkedOnce_reached 1 (by decide)) _ _

/-- A minute later nothing is left, it says; yet a check is admitted. -/
theorem remaining_ignores_expiry :
    strictLimiter.Reached checkedOnce (seconds 61) ∧
      ¬ strictLimiter.Admits checkedOnce "ip".toList "/login".toList (seconds 61)
        (strictLimiter.getRemainingRequests checkedOnce "ip".toList "/login".toList
          (seconds 61)) := by
  refine ⟨checkedOnce_reached _ (by decide), fun h => ?_⟩
  have hnone : strictLimiter.getRemainingRequests checkedOnce "ip".toList "/login".toList
      (seconds 61) = 0 := by decide
  rw [hnone] at h
  exact h.2 (by decide)

end SoulAuth.Sample
