import Mathlib.Data.List.Flatten
import SoulAuth.Services.RateLimiter

/-! # The in-process limiter is a sliding window

The records hold what still matters and, until a cleanup, some of what does
not. The *live* part of a record is what a check can see of it: two records
with the same live part answer alike from then on, so cleanups and other
buckets change no answer. Over the checks of one bucket, the timestamps kept
are the admissions of the window that ends now.
-/

namespace SoulAuth

/-! ## Runs -/

/-- What happens to the limiter: a check, or the periodic cleanup. -/
inductive LimiterEvent
  | check (key endpoint : Str) (t : Readings)
  | cleanup (now : Int)

/-- The readings of the clock in an event, in order. -/
def LimiterEvent.times : LimiterEvent → List Int
  | check _ _ t => [t.entered, t.pruned, t.recorded]
  | cleanup now => [now]

/-- The clock never goes back along the run. -/
def Chronological (es : List LimiterEvent) : Prop :=
  (es.flatMap LimiterEvent.times).Pairwise (· ≤ ·)

/-- An answer of the limiter. -/
structure LimiterAnswer where
  key : Str
  endpoint : Str
  t : Readings
  decision : RateLimitDecision

/-- The answers of a run. -/
def RateLimiter.run (l : RateLimiter) : Records → List LimiterEvent → List LimiterAnswer
  | _, [] => []
  | records, .check key endpoint t :: es =>
    let out := l.checkRateLimitVerbose records key endpoint t
    ⟨key, endpoint, t, out.1⟩ :: l.run out.2 es
  | records, .cleanup now :: es => l.run (cleanupExpiredRecords records now) es

/-- A limiter that has seen nothing. -/
def noRecords : Records := fun _ => none

/-- The answers, and the events, of one bucket. -/
def LimiterAnswer.isOf (key endpoint : Str) (a : LimiterAnswer) : Bool :=
  a.key = key && a.endpoint = endpoint

def LimiterEvent.isCheckOf (key endpoint : Str) : LimiterEvent → Bool
  | check key' endpoint' _ => key' = key && endpoint' = endpoint
  | cleanup _ => false

/-- The admissions of an interval that ends at `t`. -/
def LimiterAnswer.isAllowedIn (w : Nat) (t : Int) (a : LimiterAnswer) : Bool :=
  a.decision = .allowed && t - w < a.t.recorded && a.t.recorded ≤ t

/-- What the answers of one bucket satisfy under a rule. -/
structure SlidingWindow (rule : RateLimitRule) (answers : List LimiterAnswer) : Prop where
  window : ∀ t, (answers.filter (LimiterAnswer.isAllowedIn rule.windowDuration t)).length ≤
    rule.maxRequests
  refused : answers.Pairwise fun a b => a.decision = .justBlocked →
    b.t.entered < a.t.recorded + (rule.blockDuration : Int) → b.decision = .stillBlocked
  apart : answers.Pairwise fun a b => a.decision = .justBlocked → b.decision = .justBlocked →
    a.t.recorded + (rule.blockDuration : Int) ≤ b.t.recorded

/-! ## The live part of a record -/

namespace RequestRecord

variable {w : Nat} {rule : RateLimitRule} {r s : RequestRecord} {now now' : Int} {t : Readings}

/-- What a check from `now` on can see of a record. -/
def live (w : Nat) (now : Int) (r : RequestRecord) : RequestRecord where
  timestamps := r.timestamps.filter fun t => now - w < t
  blockedUntil := r.blockedUntil.filter fun b => now < b

theorem isBlocked_live : (r.live w now).blockedUntil.isSome = r.isBlocked now := by
  cases hb : r.blockedUntil with
  | none => simp [live, isBlocked, hb]
  | some b => by_cases h : now < b <;> simp [live, isBlocked, hb, Option.filter, h]

theorem filter_live (h : now ≤ now') :
    (r.live w now).timestamps.filter (fun t => now' - w < t) =
      r.timestamps.filter fun t => now' - w < t := by
  unfold live
  rw [List.filter_filter]
  refine List.filter_congr fun t _ => ?_
  by_cases ht : now' - w < t
  · have : now - w < t := by omega
    simp [ht, this]
  · simp [ht]

theorem live_live (h : now ≤ now') : (r.live w now).live w now' = r.live w now' := by
  have hts := filter_live (r := r) (w := w) h
  cases hb : r.blockedUntil with
  | none => simp_all [live]
  | some b =>
    by_cases h₁ : now < b
    · simp_all [live, Option.filter]
    · have h₂ : ¬ now' < b := by omega
      simpa [live, Option.filter, hb, h₁, h₂] using hts

/-- Records with the same live part stay alike. -/
theorem live_mono (hlive : r.live w now = s.live w now) (h : now ≤ now') :
    r.live w now' = s.live w now' := by
  rw [← live_live h, hlive, live_live h]

/-- The three ways a check goes. -/
theorem check_cases (r : RequestRecord) (rule : RateLimitRule) (t : Readings) :
    (r.isBlocked t.entered = true ∧ r.check rule t = (.stillBlocked, r)) ∨
    (r.isBlocked t.entered = false ∧
      rule.maxRequests ≤ (r.cleanupExpired rule.windowDuration t.pruned).timestamps.length ∧
      r.check rule t = (.justBlocked,
        (r.cleanupExpired rule.windowDuration t.pruned).block rule.blockDuration t.recorded)) ∨
    (r.isBlocked t.entered = false ∧
      (r.cleanupExpired rule.windowDuration t.pruned).timestamps.length < rule.maxRequests ∧
      r.check rule t = (.allowed,
        (r.cleanupExpired rule.windowDuration t.pruned).addRequest t.recorded)) := by
  unfold check isRateLimited
  by_cases hb : r.isBlocked t.entered = true
  · simp [hb]
  · have hf : r.isBlocked t.entered = false := by simpa using hb
    by_cases hl :
        rule.maxRequests ≤ (r.cleanupExpired rule.windowDuration t.pruned).timestamps.length
    · simp [hf, hl]
    · simp [hf, hl, Nat.lt_of_not_le hl]

/-- A check only sees the live part. -/
theorem check_of_live (hlive : r.live rule.windowDuration t.entered =
    s.live rule.windowDuration t.entered) :
    (r.check rule t).1 = (s.check rule t).1 ∧
      (r.check rule t).2.live rule.windowDuration t.recorded =
        (s.check rule t).2.live rule.windowDuration t.recorded := by
  have hblocked : r.isBlocked t.entered = s.isBlocked t.entered := by
    rw [← isBlocked_live (w := rule.windowDuration), hlive, isBlocked_live]
  have hts : (r.cleanupExpired rule.windowDuration t.pruned).timestamps =
      (s.cleanupExpired rule.windowDuration t.pruned).timestamps := by
    show r.timestamps.filter _ = s.timestamps.filter _
    rw [← filter_live t.entered_le, hlive, filter_live t.entered_le]
  have hlate : r.live rule.windowDuration t.recorded = s.live rule.windowDuration t.recorded :=
    live_mono hlive (Int.le_trans t.entered_le t.pruned_le)
  rcases r.check_cases rule t with ⟨hr, he⟩ | ⟨hr, hl, he⟩ | ⟨hr, hl, he⟩ <;>
    rcases s.check_cases rule t with ⟨hs, he'⟩ | ⟨hs, hl', he'⟩ | ⟨hs, hl', he'⟩ <;>
    rw [hblocked] at hr <;> rw [he, he'] <;> try simp_all
  · -- both block: the new block is the same
    simp [live, block, hts]
  · omega
  · omega
  · -- both admit: the old blocks are both over
    have hb : (r.live rule.windowDuration t.recorded).blockedUntil =
        (s.live rule.windowDuration t.recorded).blockedUntil := by rw [hlate]
    refine congrArg₂ RequestRecord.mk ?_ hb
    show List.filter _ (_ ++ _) = List.filter _ (_ ++ _)
    rw [hts]

/-- The timestamps of a record in order, none of them after `now`. -/
structure Tidy (now : Int) (r : RequestRecord) : Prop where
  sorted : r.timestamps.Pairwise (· ≤ ·)
  bounded : ∀ t ∈ r.timestamps, t ≤ now

theorem Tidy.new : Tidy now .new := ⟨List.Pairwise.nil, by simp [RequestRecord.new]⟩

theorem Tidy.mono (hr : r.Tidy now) (h : now ≤ now') : r.Tidy now' :=
  ⟨hr.sorted, fun t ht => Int.le_trans (hr.bounded t ht) h⟩

theorem Tidy.check (hr : r.Tidy now) (h : now ≤ t.entered) :
    (r.check rule t).2.Tidy t.recorded := by
  have hlate : now ≤ t.recorded := Int.le_trans h (Int.le_trans t.entered_le t.pruned_le)
  have hpruned : (r.cleanupExpired rule.windowDuration t.pruned).Tidy now :=
    ⟨hr.sorted.sublist List.filter_sublist, fun x hx => hr.bounded x (List.mem_of_mem_filter hx)⟩
  rcases r.check_cases rule t with ⟨-, he⟩ | ⟨-, -, he⟩ | ⟨-, -, he⟩ <;> rw [he]
  · exact hr.mono hlate
  · exact ⟨hpruned.sorted, (hpruned.mono hlate).bounded⟩
  · refine ⟨List.pairwise_append.mpr ⟨hpruned.sorted, by simp, ?_⟩, fun x hx => ?_⟩
    · intro a ha b hb
      obtain rfl := List.mem_singleton.mp hb
      exact Int.le_trans (hpruned.bounded a ha) hlate
    · rcases List.mem_append.mp hx with hx | hx
      · exact Int.le_trans (hpruned.bounded x hx) hlate
      · exact Int.le_of_eq (List.mem_singleton.mp hx)

/-- A record that a cleanup drops has no live part: it is not blocked, and
    its latest timestamp is an hour old. -/
theorem live_of_not_isKept (hw : w ≤ seconds 3600) (hr : r.Tidy now')
    (hk : r.isKept now = false) : r.live w now = RequestRecord.new.live w now := by
  obtain ⟨hblocked, hold⟩ := (Bool.or_eq_false_iff ..).mp hk
  have hb : r.blockedUntil.filter (fun b => now < b) = none := by
    cases hb : r.blockedUntil with
    | none => rfl
    | some b =>
      have : ¬ now < b := by simpa [isBlocked, hb] using hblocked
      simp [Option.filter, this]
  have hts : r.timestamps.filter (fun t => now - w < t) = [] := by
    refine List.filter_eq_nil_iff.mpr fun x hx => ?_
    have hne : r.timestamps ≠ [] := List.ne_nil_of_mem hx
    have hlast : x ≤ r.timestamps.getLast hne := by
      rw [← List.dropLast_append_getLast hne] at hx
      rcases List.mem_append.mp hx with hx | hx
      · have hs := hr.sorted
        rw [← List.dropLast_append_getLast hne] at hs
        exact (List.pairwise_append.mp hs).2.2 x hx _ (by simp)
      · exact Int.le_of_eq (List.mem_singleton.mp hx)
    rw [List.getLast?_eq_some_getLast hne] at hold
    have hage : ¬ now - r.timestamps.getLast hne < seconds 3600 := by simpa using hold
    have : ¬ now - w < x := by omega
    simpa using this
  simp [live, RequestRecord.new, hb, hts]

end RequestRecord

/-! ## Other buckets and cleanups change nothing -/

section

variable {l : RateLimiter} {key endpoint : Str} {records records' : Records} {now : Int}
  {es : List LimiterEvent}

/-- The record of a bucket, as a check finds it. -/
def recordOf (records : Records) (key endpoint : Str) : RequestRecord :=
  (records (recordKey key endpoint)).getD .new

/-- The events of a run happen from `now` on. -/
def Chronological.From (now : Int) (es : List LimiterEvent) : Prop :=
  Chronological es ∧ ∀ t ∈ es.flatMap LimiterEvent.times, now ≤ t

theorem Chronological.From.check {t : Readings}
    (h : Chronological.From now (.check key endpoint t :: es)) :
    now ≤ t.entered ∧ Chronological.From t.recorded es := by
  obtain ⟨hchron, hfrom⟩ := h
  unfold Chronological at hchron
  rw [List.flatMap_cons, List.pairwise_append] at hchron
  obtain ⟨-, htail, hsep⟩ := hchron
  exact ⟨hfrom _ (by simp [LimiterEvent.times]), htail,
    fun x hx => hsep _ (by simp [LimiterEvent.times]) x hx⟩

theorem Chronological.From.cleanup {at' : Int}
    (h : Chronological.From now (.cleanup at' :: es)) :
    now ≤ at' ∧ Chronological.From at' es := by
  obtain ⟨hchron, hfrom⟩ := h
  unfold Chronological at hchron
  rw [List.flatMap_cons, List.pairwise_append] at hchron
  obtain ⟨-, htail, hsep⟩ := hchron
  exact ⟨hfrom _ (by simp [LimiterEvent.times]), htail,
    fun x hx => hsep _ (by simp [LimiterEvent.times]) x hx⟩

/-- A cleanup keeps the live part of every record. -/
theorem recordOf_cleanup {w : Nat} (hw : w ≤ seconds 3600)
    (ht : (recordOf records key endpoint).Tidy now) :
    (recordOf (cleanupExpiredRecords records now) key endpoint).live w now =
      (recordOf records key endpoint).live w now := by
  unfold recordOf cleanupExpiredRecords at *
  cases hr : records (recordKey key endpoint) with
  | none => rfl
  | some r =>
    rw [hr] at ht
    by_cases hk : r.isKept now = true
    · simp [Option.filter, hk]
    · have hf : r.isKept now = false := by simpa using hk
      simpa [Option.filter, hf] using (RequestRecord.live_of_not_isKept hw ht hf).symm

theorem Tidy_cleanup (ht : (recordOf records key endpoint).Tidy now) :
    (recordOf (cleanupExpiredRecords records now) key endpoint).Tidy now := by
  unfold recordOf cleanupExpiredRecords at *
  cases hr : records (recordKey key endpoint) with
  | none => exact .new
  | some r =>
    rw [hr] at ht
    by_cases hk : r.isKept now = true
    · simpa [Option.filter, hk] using ht
    · simpa [Option.filter, hk] using RequestRecord.Tidy.new

/-- The records after a check. -/
theorem recordOf_check {t : Readings} :
    recordOf (l.checkRateLimitVerbose records key endpoint t).2 key endpoint =
      ((recordOf records key endpoint).check (l.getRule endpoint) t).2 := by
  simp [recordOf, RateLimiter.checkRateLimitVerbose]

theorem recordOf_check_ne {key' endpoint' : Str} {t : Readings}
    (hne : recordKey key endpoint ≠ recordKey key' endpoint') :
    recordOf (l.checkRateLimitVerbose records key' endpoint' t).2 key endpoint =
      recordOf records key endpoint := by
  simp [recordOf, RateLimiter.checkRateLimitVerbose, Function.update_of_ne hne]

/-- The names of a run do not contain the separator. -/
def NamesPlain (es : List LimiterEvent) : Prop :=
  ∀ key endpoint t, .check key endpoint t ∈ es → keySeparator ∉ key

theorem NamesPlain.tail {e : LimiterEvent} (h : NamesPlain (e :: es)) : NamesPlain es :=
  fun key endpoint t hm => h key endpoint t (List.mem_cons_of_mem e hm)

/-- The answers of a bucket are those of its own checks alone, from any two
    states of the records that are alike for the bucket. -/
theorem run_alone (hkey : keySeparator ∉ key)
    (hw : (l.getRule endpoint).windowDuration ≤ seconds 3600) (hnames : NamesPlain es)
    (hes : Chronological.From now es) (ht : (recordOf records key endpoint).Tidy now)
    (hlive : (recordOf records key endpoint).live (l.getRule endpoint).windowDuration now =
      (recordOf records' key endpoint).live (l.getRule endpoint).windowDuration now) :
    (l.run records es).filter (LimiterAnswer.isOf key endpoint) =
      l.run records' (es.filter (LimiterEvent.isCheckOf key endpoint)) := by
  induction es generalizing records records' now with
  | nil => rfl
  | cons e es ih =>
    cases e with
    | cleanup at' =>
      obtain ⟨hle, hes'⟩ := hes.cleanup
      have ht' := ht.mono hle
      exact ih hnames.tail hes' (Tidy_cleanup ht')
        ((recordOf_cleanup hw ht').trans (RequestRecord.live_mono hlive hle))
    | check key' endpoint' t =>
      obtain ⟨hle, hes'⟩ := hes.check
      by_cases hb : key' = key ∧ endpoint' = endpoint
      · obtain ⟨rfl, rfl⟩ := hb
        obtain ⟨hsame, hafter⟩ :=
          RequestRecord.check_of_live (RequestRecord.live_mono hlive hle)
        rw [← recordOf_check, ← recordOf_check] at hafter
        have hrest := ih hnames.tail hes' (by rw [recordOf_check]; exact ht.check hle) hafter
        simp only [RateLimiter.run, List.filter_cons, LimiterAnswer.isOf, LimiterEvent.isCheckOf,
          decide_true, Bool.and_self, if_true]
        exact congrArg₂ List.cons (congrArg (LimiterAnswer.mk key' endpoint' t) hsame) hrest
      · have hne : recordKey key endpoint ≠ recordKey key' endpoint' := fun h =>
          hb ((recordKey_inj (hnames key' endpoint' t (by simp)) hkey).mp h.symm)
        have hlate : now ≤ t.recorded :=
          Int.le_trans hle (Int.le_trans t.entered_le t.pruned_le)
        have hother : recordOf (l.checkRateLimitVerbose records key' endpoint' t).2 key endpoint =
            recordOf records key endpoint := recordOf_check_ne hne
        have hrest := ih hnames.tail hes' (hother ▸ ht.mono hlate)
          (hother ▸ RequestRecord.live_mono hlive hlate)
        simpa [RateLimiter.run, List.filter_cons, LimiterAnswer.isOf, LimiterEvent.isCheckOf, hb]
          using hrest

end

/-! ## The checks of one bucket -/

section

variable {l : RateLimiter} {rule : RateLimitRule} {key endpoint : Str} {now : Int}
  {answers : List LimiterAnswer} {r : RequestRecord}

/-- The admission times among answers. -/
def allowedTimes (answers : List LimiterAnswer) : List Int :=
  (answers.filter fun a => a.decision = .allowed).map fun a => a.t.recorded

/-- How the record of a bucket tracks the answers given so far. -/
structure Tracks (rule : RateLimitRule) (answers : List LimiterAnswer) (now : Int)
    (r : RequestRecord) : Prop where
  past : ∀ a ∈ answers, a.t.recorded ≤ now
  kept : ∀ t, now ≤ t → (allowedTimes answers).filter (fun x => t - rule.windowDuration < x) =
    r.timestamps.filter fun x => t - rule.windowDuration < x
  blocked : ∀ a ∈ answers, a.decision = .justBlocked → ∃ b, r.blockedUntil = some b ∧
    a.t.recorded + (rule.blockDuration : Int) ≤ b

theorem Tracks.nil : Tracks rule [] now .new :=
  ⟨by simp, fun _ _ => rfl, by simp⟩

theorem SlidingWindow.nil : SlidingWindow rule [] :=
  ⟨fun _ => Nat.zero_le _, .nil, .nil⟩

theorem allowedTimes_append (answers : List LimiterAnswer) (a : LimiterAnswer) :
    allowedTimes (answers ++ [a]) =
      allowedTimes answers ++ if a.decision = .allowed then [a.t.recorded] else [] := by
  by_cases h : a.decision = .allowed <;> simp [allowedTimes, h]

/-- The admissions of an interval, counted by their times. -/
theorem length_isAllowedIn (w : Nat) (t : Int) (answers : List LimiterAnswer) :
    (answers.filter (LimiterAnswer.isAllowedIn w t)).length =
      ((allowedTimes answers).filter fun x => t - w < x && x ≤ t).length := by
  unfold allowedTimes
  rw [List.filter_map, List.length_map, List.filter_filter]
  refine congrArg List.length (List.filter_congr fun a _ => ?_)
  by_cases h : a.decision = .allowed <;> simp [LimiterAnswer.isAllowedIn, h]

/-- No block of an earlier answer is in force, if the record is not. -/
theorem Tracks.block_over {t : Readings} (h : Tracks rule answers now r)
    (hb : r.isBlocked t.entered = false) {a : LimiterAnswer} (ha : a ∈ answers)
    (hj : a.decision = .justBlocked) :
    a.t.recorded + (rule.blockDuration : Int) ≤ t.entered := by
  obtain ⟨b, hrb, hle⟩ := h.blocked a ha hj
  have : ¬ t.entered < b := by simpa [RequestRecord.isBlocked, hrb] using hb
  omega

/-- One more check of the bucket. -/
theorem SlidingWindow.snoc {t : Readings} (hgood : SlidingWindow rule answers)
    (htr : Tracks rule answers now r) (hle : now ≤ t.entered) :
    SlidingWindow rule (answers ++ [⟨key, endpoint, t, (r.check rule t).1⟩]) ∧
      Tracks rule (answers ++ [⟨key, endpoint, t, (r.check rule t).1⟩]) t.recorded
        (r.check rule t).2 := by
  have h₁ := t.entered_le
  have h₂ := t.pruned_le
  have hpast : ∀ d, ∀ a ∈ answers ++ [⟨key, endpoint, t, d⟩], a.t.recorded ≤ t.recorded := by
    intro d a ha
    rcases List.mem_append.mp ha with ha | ha
    · have := htr.past a ha
      omega
    · cases List.mem_singleton.mp ha
      exact Int.le_refl _
  -- timestamps dropped at `t.pruned` are outside every window from then on
  have hpruned : ∀ x, t.recorded ≤ x →
      ((r.cleanupExpired rule.windowDuration t.pruned).timestamps.filter fun y =>
        x - rule.windowDuration < y) =
        (allowedTimes answers).filter fun y => x - rule.windowDuration < y := by
    intro x hx
    rw [htr.kept x (by omega)]
    unfold RequestRecord.cleanupExpired
    rw [List.filter_filter]
    refine List.filter_congr fun y _ => ?_
    by_cases hy : x - rule.windowDuration < y
    · have : t.pruned - rule.windowDuration < y := by omega
      simp [hy, this]
    · simp [hy]
  rcases r.check_cases rule t with ⟨hb, he⟩ | ⟨hb, -, he⟩ | ⟨hb, hlt, he⟩ <;> rw [he]
  · -- still blocked: nothing changes
    refine ⟨⟨fun x => ?_, ?_, ?_⟩, hpast _, fun x hx => ?_, fun a ha hj => ?_⟩
    · rw [length_isAllowedIn, allowedTimes_append]
      simpa [length_isAllowedIn] using hgood.window x
    · refine List.pairwise_append.mpr ⟨hgood.refused, by simp, ?_⟩
      intro a _ b hb' _ _
      rw [List.mem_singleton.mp hb']
    · refine List.pairwise_append.mpr ⟨hgood.apart, by simp, ?_⟩
      intro a _ b hb' _ hj
      rw [List.mem_singleton.mp hb'] at hj
      cases hj
    · rw [allowedTimes_append]
      simpa using htr.kept x (by omega)
    · rcases List.mem_append.mp ha with ha | ha
      · exact htr.blocked a ha hj
      · rw [List.mem_singleton.mp ha] at hj
        cases hj
  · -- the block begins
    refine ⟨⟨fun x => ?_, ?_, ?_⟩, hpast _, fun x hx => ?_, fun a ha hj => ?_⟩
    · rw [length_isAllowedIn, allowedTimes_append]
      simpa [length_isAllowedIn] using hgood.window x
    · refine List.pairwise_append.mpr ⟨hgood.refused, by simp, ?_⟩
      intro a ha b hb' hj hin
      rw [List.mem_singleton.mp hb'] at hin
      have := htr.block_over hb ha hj
      simp only at hin
      omega
    · refine List.pairwise_append.mpr ⟨hgood.apart, by simp, ?_⟩
      intro a ha b hb' hj _
      rw [List.mem_singleton.mp hb']
      have := htr.block_over hb ha hj
      show _ ≤ t.recorded
      omega
    · rw [allowedTimes_append]
      simpa [RequestRecord.block] using (hpruned x hx).symm
    · refine ⟨t.recorded + rule.blockDuration, rfl, ?_⟩
      have := hpast _ a ha
      omega
  · -- the request is admitted
    refine ⟨⟨fun x => ?_, ?_, ?_⟩, hpast _, fun x hx => ?_, fun a ha hj => ?_⟩
    · rw [length_isAllowedIn, allowedTimes_append]
      by_cases hx : x - rule.windowDuration < t.recorded ∧ t.recorded ≤ x
      · -- the others of the interval are among the timestamps that were kept
        have hsub : (((allowedTimes answers).filter fun y =>
            x - rule.windowDuration < y && y ≤ x)).length ≤
            (r.cleanupExpired rule.windowDuration t.pruned).timestamps.length := by
          have hkept : (r.cleanupExpired rule.windowDuration t.pruned).timestamps =
              (allowedTimes answers).filter fun y => t.pruned - rule.windowDuration < y :=
            (htr.kept t.pruned (by omega)).symm
          rw [hkept]
          refine (List.monotone_filter_right _ fun y hy => ?_).length_le
          have : x - rule.windowDuration < y := by simpa using And.left (by simpa using hy)
          simp only [decide_eq_true_eq]
          omega
        simp [hx.1, hx.2]
        omega
      · have hnot : (decide (x - rule.windowDuration < t.recorded) && decide (t.recorded ≤ x)) =
            false := by simpa using hx
        simpa [length_isAllowedIn, List.filter_append, hnot] using hgood.window x
    · refine List.pairwise_append.mpr ⟨hgood.refused, by simp, ?_⟩
      intro a ha b hb' hj hin
      rw [List.mem_singleton.mp hb'] at hin
      have := htr.block_over hb ha hj
      simp only at hin
      omega
    · refine List.pairwise_append.mpr ⟨hgood.apart, by simp, ?_⟩
      intro a _ b hb' _ hj
      rw [List.mem_singleton.mp hb'] at hj
      cases hj
    · rw [allowedTimes_append]
      simp only [if_true, RequestRecord.addRequest, List.filter_append, hpruned x hx]
    · rcases List.mem_append.mp ha with ha | ha
      · exact htr.blocked a ha hj
      · rw [List.mem_singleton.mp ha] at hj
        cases hj

/-- A run of checks of one bucket keeps the window. -/
theorem SlidingWindow.run {records : Records} {es : List LimiterEvent}
    (hes : ∀ e ∈ es, e.isCheckOf key endpoint = true) (hchron : Chronological.From now es)
    (hgood : SlidingWindow (l.getRule endpoint) answers)
    (htr : Tracks (l.getRule endpoint) answers now (recordOf records key endpoint)) :
    SlidingWindow (l.getRule endpoint) (answers ++ l.run records es) := by
  induction es generalizing records answers now with
  | nil => simpa [RateLimiter.run] using hgood
  | cons e es ih =>
    cases e with
    | cleanup at' => simp [LimiterEvent.isCheckOf] at hes
    | check key' endpoint' t =>
      obtain ⟨rfl, rfl⟩ : key' = key ∧ endpoint' = endpoint := by
        simpa [LimiterEvent.isCheckOf] using hes _ (List.mem_cons_self ..)
      obtain ⟨hle, hchron'⟩ := hchron.check
      obtain ⟨hgood', htr'⟩ : SlidingWindow _ (answers ++ [⟨key', endpoint', t, _⟩]) ∧ _ :=
        hgood.snoc htr hle
      rw [← recordOf_check] at htr'
      have := ih (fun e he => hes e (by simp [he])) hchron' hgood' htr'
      rw [RateLimiter.run, List.append_cons]
      exact this

end

/-- **The in-process limiter is a sliding window.** In every chronological
    run of checks and cleanups, the answers of a bucket keep its window, and
    they are those of its own checks alone. -/
theorem sliding_window {l : RateLimiter} {es : List LimiterEvent} (hchron : Chronological es)
    (hnames : NamesPlain es) {key endpoint : Str} (hkey : keySeparator ∉ key)
    (hw : (l.getRule endpoint).windowDuration ≤ seconds 3600) :
    SlidingWindow (l.getRule endpoint)
        ((l.run noRecords es).filter (LimiterAnswer.isOf key endpoint)) ∧
      (l.run noRecords es).filter (LimiterAnswer.isOf key endpoint) =
        l.run noRecords (es.filter (LimiterEvent.isCheckOf key endpoint)) := by
  -- some time before everything
  obtain ⟨now, hnow⟩ : ∃ now : Int, ∀ t ∈ es.flatMap LimiterEvent.times, now ≤ t := by
    generalize es.flatMap LimiterEvent.times = ts
    induction ts with
    | nil => exact ⟨0, by simp⟩
    | cons t ts ih =>
      obtain ⟨now, hnow⟩ := ih
      refine ⟨min now t, fun x hx => ?_⟩
      rcases List.mem_cons.mp hx with rfl | hx
      · omega
      · have := hnow x hx
        omega
  have halone : (l.run noRecords es).filter (LimiterAnswer.isOf key endpoint) =
      l.run noRecords (es.filter (LimiterEvent.isCheckOf key endpoint)) :=
    run_alone hkey hw hnames ⟨hchron, hnow⟩ .new rfl
  have hown : Chronological.From now (es.filter (LimiterEvent.isCheckOf key endpoint)) := by
    have hsub : ((es.filter (LimiterEvent.isCheckOf key endpoint)).flatMap
        LimiterEvent.times).Sublist (es.flatMap LimiterEvent.times) := by
      exact List.filter_sublist.flatMap _
    exact ⟨hchron.sublist hsub, fun t ht => hnow t (hsub.subset ht)⟩
  refine ⟨?_, halone⟩
  rw [halone, ← List.nil_append (l.run noRecords _)]
  exact SlidingWindow.run (fun e he => (List.mem_filter.mp he).2) hown .nil .nil

end SoulAuth

namespace SoulAuth.Sample

/-- A limiter with one rule for every endpoint, of one request a minute. -/
def strictLimiter : RateLimiter := ⟨⟨seconds 60, 1, seconds 120⟩, []⟩

/-- Two checks of a client around a cleanup. -/
def burst : List LimiterEvent :=
  [.check "ip".toList "/login".toList ⟨0, 0, 1, by decide, by decide⟩, .cleanup 2,
    .check "ip".toList "/login".toList ⟨3, 4, 5, by decide, by decide⟩]

/-- The second check of the burst is refused. -/
theorem sliding_window_burst :
    SlidingWindow (strictLimiter.getRule "/login".toList)
        ((strictLimiter.run noRecords burst).filter
          (LimiterAnswer.isOf "ip".toList "/login".toList)) ∧
      (strictLimiter.run noRecords burst).map LimiterAnswer.decision =
        [.allowed, .justBlocked] := by
  have hchron : Chronological burst := by unfold Chronological; decide
  have hnames : NamesPlain burst := by
    intro key endpoint t hm
    simp only [burst, List.mem_cons, LimiterEvent.check.injEq, reduceCtorEq, List.not_mem_nil,
      or_false, false_or] at hm
    rcases hm with ⟨rfl, -⟩ | ⟨rfl, -⟩ <;> decide
  exact ⟨(sliding_window hchron hnames (by decide) (by decide)).1, by decide⟩

end SoulAuth.Sample
