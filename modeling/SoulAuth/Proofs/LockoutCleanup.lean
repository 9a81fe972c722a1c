import SoulAuth.Proofs.LockoutCounting

/-! # Cleanups of lockout records

The hourly cleanup deletes records whose lock is over and normal ones without
a recent failure. Checks and counts find out by themselves that such a record
is no longer worth anything, so that its deletion should not be seen. The
operations are compared at moments: each runs at once, without failures.
-/

namespace SoulAuth

open Framework Framework.System

/-! ## What a check and a failure make of a row -/

/-- The answer of a check to the record that it has found, and the record that
    it leaves. -/
def AccountLockout.checked (cfg : LockoutConfig) (ty : LockoutType) (now : Timestamp)
    (l : AccountLockout) : LockoutCheckResult × AccountLockout :=
  if l.isLockExpired now = true ∧ l.status ≠ .normal then
    (.normal cfg.maxAttempts, l.unlockAccount now)
  else
    let l := if l.shouldResetAttempts cfg now = true ∧ l.status = .normal then
      { l with failedAttempts := 0, updatedAt := now } else l
    (if l.isLocked now then .locked ty (l.remainingLockoutSeconds now)
      else .normal (cfg.maxAttempts - l.failedAttempts), l)

/-- The same for the row under the key, which may be that of another
    identifier. -/
def rowChecked (cfg : LockoutConfig) (ty : LockoutType) (id : Str) (now : Timestamp) :
    Option AccountLockout → LockoutCheckResult × Option AccountLockout
  | some l =>
    if l.identifier = id then ((l.checked cfg ty now).1, some (l.checked cfg ty now).2)
    else (.normal cfg.maxAttempts, some l)
  | none => (.normal cfg.maxAttempts, none)

/-- What a failed attempt makes of the row. -/
def rowFailed (cfg : LockoutConfig) (ty : LockoutType) (id : Str) (now : Timestamp)
    (row : Option AccountLockout) : AccountLockout :=
  let key := lockoutRecordId id ty
  let r := AccountLockout.counted key id ty now row
  if r.isReached key cfg.maxAttempts then r.lock cfg.lockoutDurationMinutes now else r

/-- The row that a cleanup deletes is of no consequence for the identifier: it
    is its own, or one that a failure treats as if it were not there. -/
def AccountLockout.IsForgettable (cfg : LockoutConfig) (id : Str) (r : AccountLockout) : Prop :=
  r.identifier = id ∨ r.status = .normal ∧ r.failedAttempts = 0 ∨
    r.status ≠ .locked ∧ cfg.maxAttempts = 1

/-! ## Rows that answer alike -/

section

variable {cfg : LockoutConfig} {ty : LockoutType} {id : Str} {now t t' : Timestamp}
  {l l' : AccountLockout} {a b : Option AccountLockout}

/-- A row that answers as if it were not there, now and after a failure. -/
def IsClear (cfg : LockoutConfig) (id : Str) : Option AccountLockout → Prop
  | none => True
  | some r => r.status = .normal ∧ r.failedAttempts = 0 ∨
      r.identifier ≠ id ∧ r.status ≠ .locked ∧ cfg.maxAttempts = 1

/-- Two records of the identifier that agree in what matters in their state:
    in a locked one, the number of attempts does not. -/
structure SameRecord (id : Str) (l l' : AccountLockout) : Prop where
  own : l.identifier = id
  own' : l'.identifier = id
  status : l.status = l'.status
  lastAttemptAt : l.lastAttemptAt = l'.lastAttemptAt
  lockedUntil : l.status ≠ .normal → l.lockedUntil = l'.lockedUntil
  failedAttempts : l.status ≠ .locked → l.failedAttempts = l'.failedAttempts

inductive AlikeRows (cfg : LockoutConfig) (id : Str) : Option AccountLockout →
    Option AccountLockout → Prop
  | refl (a : Option AccountLockout) : AlikeRows cfg id a a
  | clear {a b : Option AccountLockout} (ha : IsClear cfg id a) (hb : IsClear cfg id b) :
      AlikeRows cfg id a b
  | same {l l' : AccountLockout} (h : SameRecord id l l') : AlikeRows cfg id (some l) (some l')

/-- A normal record is checked without a look at its lock. -/
theorem checked_normal (h : l.status = .normal) :
    l.checked cfg ty now = if l.shouldResetAttempts cfg now = true then
      (.normal cfg.maxAttempts, { l with failedAttempts := 0, updatedAt := now })
    else (.normal (cfg.maxAttempts - l.failedAttempts), l) := by
  have hlock : ∀ l' : AccountLockout, l'.status = .normal → ¬ l'.isLocked now = true := by
    intro l' hl'
    simp [AccountLockout.isLocked, hl']
  rw [AccountLockout.checked, if_neg fun hover => hover.2 h]
  by_cases hstale : l.shouldResetAttempts cfg now = true
  · have hreset : l.shouldResetAttempts cfg now = true ∧ l.status = .normal := ⟨hstale, h⟩
    rw [if_pos hstale]
    simp only [if_pos hreset]
    rw [if_neg (hlock { l with failedAttempts := 0, updatedAt := now } h)]
    rfl
  · have hkeep : ¬ (l.shouldResetAttempts cfg now = true ∧ l.status = .normal) :=
      fun hboth => hstale hboth.1
    rw [if_neg hstale]
    simp only [if_neg hkeep]
    rw [if_neg (hlock l h)]

/-- A record that is not normal is locked, or its lock is over. -/
theorem checked_locked (h : l.status ≠ .normal) :
    l.checked cfg ty now = if l.isLockExpired now = true then
      (.normal cfg.maxAttempts, l.unlockAccount now)
    else (.locked ty (l.remainingLockoutSeconds now), l) := by
  rw [AccountLockout.checked]
  by_cases hover : l.isLockExpired now = true
  · rw [if_pos ⟨hover, h⟩, if_pos hover]
  · have hlocked : l.isLocked now = true := by
      unfold AccountLockout.isLocked
      unfold AccountLockout.isLockExpired at hover
      cases hu : l.lockedUntil with
      | none =>
        cases hs : l.status with
        | normal => exact absurd hs h
        | locked => rfl
        | temporaryLocked => rfl
      | some u =>
        rw [hu] at hover
        have hlt : now < u := by simpa using hover
        cases hs : l.status with
        | normal => exact absurd hs h
        | locked => simpa using hlt
        | temporaryLocked => simpa using hlt
    rw [if_neg fun hboth => hover hboth.1, if_neg hover]
    simp only [h, and_false, if_false]
    rw [if_pos hlocked]

/-- A clear row passes every check and stays clear. -/
theorem IsClear.checked (h : IsClear cfg id a) (ty : LockoutType) (now : Timestamp) :
    (rowChecked cfg ty id now a).1 = .normal cfg.maxAttempts ∧
      IsClear cfg id (rowChecked cfg ty id now a).2 := by
  cases a with
  | none => exact ⟨rfl, h⟩
  | some l =>
    by_cases hown : l.identifier = id
    · have hl : l.status = .normal ∧ l.failedAttempts = 0 := by
        rcases h with h | h
        · exact h
        · exact absurd hown h.1
      simp only [rowChecked, if_pos hown, checked_normal hl.1]
      by_cases hstale : l.shouldResetAttempts cfg now = true
      · rw [if_pos hstale]
        exact ⟨rfl, .inl ⟨hl.1, rfl⟩⟩
      · rw [if_neg hstale, hl.2]
        exact ⟨rfl, .inl hl⟩
    · simp only [rowChecked, if_neg hown]
      exact ⟨trivial, h⟩

/-- Records that agree are checked alike. -/
theorem SameRecord.checked (h : SameRecord id l l') :
    (l.checked cfg ty now).1 = (l'.checked cfg ty now).1 ∧
      AlikeRows cfg id (some (l.checked cfg ty now).2) (some (l'.checked cfg ty now).2) := by
  by_cases hnormal : l.status = .normal
  · have hstale : l.shouldResetAttempts cfg now = l'.shouldResetAttempts cfg now := by
      rw [AccountLockout.shouldResetAttempts, AccountLockout.shouldResetAttempts, h.lastAttemptAt]
    have hnormal' : l'.status = .normal := h.status.symm.trans hnormal
    rw [checked_normal hnormal, checked_normal hnormal', hstale]
    split
    · exact ⟨rfl, .clear (.inl ⟨hnormal, rfl⟩) (.inl ⟨hnormal', rfl⟩)⟩
    · rw [h.failedAttempts (by rw [hnormal]; decide)]
      exact ⟨rfl, .same h⟩
  · have hlock := h.lockedUntil hnormal
    have hover : l.isLockExpired now = l'.isLockExpired now := by
      rw [AccountLockout.isLockExpired, AccountLockout.isLockExpired, hlock]
    have hleft : l.remainingLockoutSeconds now = l'.remainingLockoutSeconds now := by
      rw [AccountLockout.remainingLockoutSeconds, AccountLockout.remainingLockoutSeconds, hlock]
    rw [checked_locked hnormal, checked_locked (h.status ▸ hnormal), hover, hleft]
    split
    · exact ⟨rfl, .clear (.inl ⟨rfl, rfl⟩) (.inl ⟨rfl, rfl⟩)⟩
    · exact ⟨rfl, .same h⟩

/-- A check answers alike for rows that are alike, and leaves them so. -/
theorem AlikeRows.checked (h : AlikeRows cfg id a b) (ty : LockoutType) (now : Timestamp) :
    (rowChecked cfg ty id now a).1 = (rowChecked cfg ty id now b).1 ∧
      AlikeRows cfg id (rowChecked cfg ty id now a).2 (rowChecked cfg ty id now b).2 := by
  cases h with
  | refl => exact ⟨rfl, .refl _⟩
  | clear ha hb =>
    obtain ⟨hanswer, hclear⟩ := ha.checked ty now
    obtain ⟨hanswer', hclear'⟩ := hb.checked ty now
    exact ⟨hanswer.trans hanswer'.symm, .clear hclear hclear'⟩
  | same h =>
    simp only [rowChecked, if_pos h.own, if_pos h.own']
    exact h.checked

/-- What the first failed attempt leaves. -/
structure FirstFailure (cfg : LockoutConfig) (id : Str) (now : Timestamp) (r : AccountLockout) :
    Prop where
  own : r.identifier = id
  lastAttemptAt : r.lastAttemptAt = now
  locks : cfg.maxAttempts = 1 → r.status = .locked ∧
    r.lockedUntil = some (now + 60 * cfg.lockoutDurationMinutes)
  counts : cfg.maxAttempts ≠ 1 → r.status = .normal ∧ r.failedAttempts = 1

theorem rowFailed_eq (hkey : ∀ r, a = some r → r.key = lockoutRecordId id ty) :
    rowFailed cfg ty id now a =
      let r := AccountLockout.counted (lockoutRecordId id ty) id ty now a
      if cfg.maxAttempts ≤ r.failedAttempts ∧ r.status ≠ .locked then
        r.lock cfg.lockoutDurationMinutes now
      else r := by
  have hkey' : (AccountLockout.counted (lockoutRecordId id ty) id ty now a).key =
      lockoutRecordId id ty := counted_key hkey
  unfold rowFailed
  simp only [AccountLockout.isReached, hkey', decide_true, Bool.true_and, Bool.and_eq_true,
    decide_eq_true_eq]

/-- A failure on a clear row is a first one. -/
theorem IsClear.failed (h : IsClear cfg id a)
    (hkey : ∀ r, a = some r → r.key = lockoutRecordId id ty) :
    FirstFailure cfg id now (rowFailed cfg ty id now a) := by
  have hpos := cfg.maxAttempts_pos
  rw [rowFailed_eq hkey]
  cases a with
  | none =>
    dsimp only
    by_cases hone : cfg.maxAttempts = 1
    · have hreached : cfg.maxAttempts ≤ 1 ∧ LockoutStatus.normal ≠ .locked := ⟨by omega, by decide⟩
      rw [AccountLockout.counted, if_pos hreached]
      exact ⟨rfl, rfl, fun _ => ⟨rfl, rfl⟩, fun hne => absurd hone hne⟩
    · have hnot : ¬ (cfg.maxAttempts ≤ 1 ∧ LockoutStatus.normal ≠ .locked) := fun hr => by omega
      rw [AccountLockout.counted, if_neg hnot]
      exact ⟨rfl, rfl, fun heq => absurd heq hone, fun _ => ⟨rfl, rfl⟩⟩
  | some r =>
    dsimp only
    by_cases hone : cfg.maxAttempts = 1
    · have hunlocked : r.status ≠ .locked := by
        rcases h with h | h
        · rw [h.1]
          decide
        · exact h.2.1
      have hreached : cfg.maxAttempts ≤ r.failedAttempts + 1 ∧ r.status ≠ .locked :=
        ⟨by omega, hunlocked⟩
      rw [AccountLockout.counted, if_pos hreached]
      exact ⟨rfl, rfl, fun _ => ⟨rfl, rfl⟩, fun hne => absurd hone hne⟩
    · have hzero : r.status = .normal ∧ r.failedAttempts = 0 := by
        rcases h with h | h
        · exact h
        · exact absurd h.2.2 hone
      have hnot : ¬ (cfg.maxAttempts ≤ r.failedAttempts + 1 ∧ r.status ≠ .locked) := by
        intro hr
        omega
      rw [AccountLockout.counted, if_neg hnot]
      exact ⟨rfl, rfl, fun heq => absurd heq hone, fun _ => ⟨hzero.1, by rw [hzero.2]⟩⟩

/-- First failures agree. -/
theorem FirstFailure.same (h : FirstFailure cfg id now l) (h' : FirstFailure cfg id now l') :
    SameRecord id l l' := by
  have hlast : l.lastAttemptAt = l'.lastAttemptAt := h.lastAttemptAt.trans h'.lastAttemptAt.symm
  by_cases hone : cfg.maxAttempts = 1
  · obtain ⟨hs, hu⟩ := h.locks hone
    obtain ⟨hs', hu'⟩ := h'.locks hone
    exact ⟨h.own, h'.own, hs.trans hs'.symm, hlast, fun _ => hu.trans hu'.symm,
      fun hne => absurd hs hne⟩
  · obtain ⟨hs, hn⟩ := h.counts hone
    obtain ⟨hs', hn'⟩ := h'.counts hone
    exact ⟨h.own, h'.own, hs.trans hs'.symm, hlast, fun hne => absurd hs hne,
      fun _ => hn.trans hn'.symm⟩

/-- A failure on records that agree leaves records that agree. -/
theorem SameRecord.failed (h : SameRecord id l l') (hkey : l.key = lockoutRecordId id ty)
    (hkey' : l'.key = lockoutRecordId id ty) :
    SameRecord id (rowFailed cfg ty id now (some l)) (rowFailed cfg ty id now (some l')) := by
  rw [rowFailed_eq fun r hr => Option.some.inj hr ▸ hkey,
    rowFailed_eq fun r hr => Option.some.inj hr ▸ hkey']
  dsimp only [AccountLockout.counted]
  by_cases hlocked : l.status = .locked
  · have hnot : ¬ (cfg.maxAttempts ≤ l.failedAttempts + 1 ∧ l.status ≠ .locked) :=
      fun hr => hr.2 hlocked
    have hnot' : ¬ (cfg.maxAttempts ≤ l'.failedAttempts + 1 ∧ l'.status ≠ .locked) :=
      fun hr => hr.2 (h.status ▸ hlocked)
    rw [if_neg hnot, if_neg hnot']
    exact ⟨rfl, rfl, h.status, rfl, h.lockedUntil, fun hne => absurd hlocked hne⟩
  · have hcount := h.failedAttempts hlocked
    rw [← hcount, ← h.status]
    split
    · exact ⟨rfl, rfl, rfl, rfl, fun _ => rfl, fun hne => absurd rfl hne⟩
    · exact ⟨rfl, rfl, rfl, rfl, h.lockedUntil, fun _ => rfl⟩

/-- A failure leaves rows alike that were so. -/
theorem AlikeRows.failed (h : AlikeRows cfg id a b)
    (ha : ∀ r, a = some r → r.key = lockoutRecordId id ty)
    (hb : ∀ r, b = some r → r.key = lockoutRecordId id ty) :
    AlikeRows cfg id (some (rowFailed cfg ty id now a)) (some (rowFailed cfg ty id now b)) := by
  cases h with
  | refl => exact .refl _
  | clear hclear hclear' => exact .same ((hclear.failed ha).same (hclear'.failed hb))
  | same h => exact .same (h.failed (ha _ rfl) (hb _ rfl))

/-! ## Deleted rows -/

/-- Why the cleanup deletes a row. -/
theorem deleted_cases {stale : Timestamp} (h : ¬ l.isKept t stale = true) :
    (l.status ≠ .normal ∧ ∃ u, l.lockedUntil = some u ∧ u < t) ∨
      l.status = .normal ∧ l.lastAttemptAt < stale := by
  simp only [AccountLockout.isKept, Bool.not_eq_true', Bool.not_eq_false, Bool.or_eq_true,
    Bool.and_eq_true, decide_eq_true_eq] at h
  rcases h with ⟨hs, hu⟩ | h
  · cases hlock : l.lockedUntil with
    | none =>
      rw [hlock] at hu
      cases hu
    | some u =>
      rw [hlock] at hu
      exact .inl ⟨hs, u, rfl, of_decide_eq_true hu⟩
  · exact .inr h

/-- A check finds out by itself that an own record is worth nothing. -/
theorem checked_deleted (ty : LockoutType) (hle : t ≤ t') (hown : l.identifier = id)
    (h : ¬ l.isKept t (t - 60 * cfg.resetWindowMinutes) = true) :
    (rowChecked cfg ty id t' (some l)).1 = .normal cfg.maxAttempts ∧
      IsClear cfg id (rowChecked cfg ty id t' (some l)).2 := by
  simp only [rowChecked, if_pos hown]
  rcases deleted_cases h with ⟨hs, u, hu, hlt⟩ | ⟨hs, hlt⟩
  · have hover : l.isLockExpired t' = true := by
      have hle' : u ≤ t' := Int.le_trans (Int.le_of_lt hlt) hle
      simpa [AccountLockout.isLockExpired, hu] using hle'
    rw [checked_locked hs, if_pos hover]
    exact ⟨rfl, .inl ⟨rfl, rfl⟩⟩
  · have hstale : l.shouldResetAttempts cfg t' = true := by
      have hlt' : l.lastAttemptAt < t' - 60 * cfg.resetWindowMinutes :=
        Int.lt_of_lt_of_le hlt (Int.sub_le_sub_right hle _)
      simpa [AccountLockout.shouldResetAttempts] using hlt'
    rw [checked_normal hs, if_pos hstale]
    exact ⟨rfl, .inl ⟨hs, rfl⟩⟩

/-! ## Rows that a failure tells apart -/

/-- A record that has just been locked is locked. -/
theorem checked_justLocked (ty : LockoutType) (hs : l.status = .locked)
    (hu : l.lockedUntil = some (now + 60 * cfg.lockoutDurationMinutes)) :
    (l.checked cfg ty now).1.isLocked = true := by
  have hpos := cfg.lockoutDuration_pos
  have hin : ¬ l.isLockExpired now = true := by
    have hduration : (0 : Int) < 60 * cfg.lockoutDurationMinutes := by omega
    have hlt : now < now + 60 * cfg.lockoutDurationMinutes := Int.lt_add_of_pos_right now hduration
    simpa [AccountLockout.isLockExpired, hu] using hlt
  rw [checked_locked (by rw [hs]; decide), if_neg hin]
  rfl

/-- A record whose lock is over passes with all attempts. -/
theorem checked_over {u : Timestamp} (hs : l.status ≠ .normal) (hu : l.lockedUntil = some u)
    (hle : u ≤ now) : (l.checked cfg ty now).1 = .normal cfg.maxAttempts := by
  have hover : l.isLockExpired now = true := by simpa [AccountLockout.isLockExpired, hu] using hle
  rw [checked_locked hs, if_pos hover]

/-- A normal record with a failure just now passes with what is left. -/
theorem checked_fresh (hs : l.status = .normal) (hlast : l.lastAttemptAt = now) :
    (l.checked cfg ty now).1 = .normal (cfg.maxAttempts - l.failedAttempts) := by
  have hfresh : ¬ l.shouldResetAttempts cfg now = true := by
    have hwindow : (0 : Int) ≤ 60 * cfg.resetWindowMinutes := by omega
    have hle : ¬ now < now - 60 * cfg.resetWindowMinutes :=
      Int.not_lt.mpr (Int.sub_le_self now hwindow)
    rw [AccountLockout.shouldResetAttempts, hlast, decide_eq_true_eq]
    exact hle
  rw [checked_normal hs, if_neg hfresh]

/-- The answer of a check, a failed attempt and a check, all at one moment. -/
def thirdAnswer (cfg : LockoutConfig) (ty : LockoutType) (id : Str) (now : Timestamp)
    (row : Option AccountLockout) : LockoutCheckResult :=
  (rowChecked cfg ty id now (some (rowFailed cfg ty id now (rowChecked cfg ty id now row).2))).1

/-- It is the answer to what the failure has left. -/
theorem thirdAnswer_eq (a : Option AccountLockout)
    (hown : (rowFailed cfg ty id now (rowChecked cfg ty id now a).2).identifier = id) :
    thirdAnswer cfg ty id now a =
      ((rowFailed cfg ty id now (rowChecked cfg ty id now a).2).checked cfg ty now).1 := by
  rw [thirdAnswer, rowChecked, if_pos hown]

theorem thirdAnswer_none (cfg : LockoutConfig) (ty : LockoutType) (id : Str) (now : Timestamp) :
    if cfg.maxAttempts = 1 then (thirdAnswer cfg ty id now none).isLocked = true
    else thirdAnswer cfg ty id now none = .normal (cfg.maxAttempts - 1) := by
  have hfirst : FirstFailure cfg id now (rowFailed cfg ty id now none) :=
    IsClear.failed (a := none) trivial nofun
  have heq : thirdAnswer cfg ty id now none = ((rowFailed cfg ty id now none).checked cfg ty now).1 :=
    thirdAnswer_eq none hfirst.own
  rw [heq]
  split
  · next hone =>
    obtain ⟨hs, hu⟩ := hfirst.locks hone
    exact checked_justLocked ty hs hu
  · next hone =>
    obtain ⟨hs, hcount⟩ := hfirst.counts hone
    rw [checked_fresh hs hfirst.lastAttemptAt, hcount]

theorem normal_inj {m n : Nat} (h : LockoutCheckResult.normal m = .normal n) : m = n :=
  congrArg LockoutCheckResult.remainingAttempts h

/-- A deleted row of another identifier that is not forgettable is told apart
    from no row. -/
theorem thirdAnswer_differs (hkey : l.key = lockoutRecordId id ty) (hle : t ≤ t')
    (hdeleted : ¬ l.isKept t (t - 60 * cfg.resetWindowMinutes) = true)
    (hnot : ¬ l.IsForgettable cfg id) :
    thirdAnswer cfg ty id t' (some l) ≠ thirdAnswer cfg ty id t' none := by
  have hpos := cfg.maxAttempts_pos
  have hnone := thirdAnswer_none cfg ty id t'
  have hother : l.identifier ≠ id := fun h => hnot (.inl h)
  have hunlocked : l.status ≠ .locked → cfg.maxAttempts ≠ 1 :=
    fun h hone => hnot (.inr (.inr ⟨h, hone⟩))
  have hcounted : l.status = .normal → l.failedAttempts ≠ 0 :=
    fun h hzero => hnot (.inr (.inl ⟨h, hzero⟩))
  -- the failure is counted on top of those of the other identifier
  let r := AccountLockout.counted (lockoutRecordId id ty) id ty t' (some l)
  have hrow : rowFailed cfg ty id t' (some l) =
      if cfg.maxAttempts ≤ l.failedAttempts + 1 ∧ l.status ≠ .locked then
        r.lock cfg.lockoutDurationMinutes t'
      else r := rowFailed_eq fun r hr => Option.some.inj hr ▸ hkey
  have hsame : (rowChecked cfg ty id t' (some l)).2 = some l := by rw [rowChecked, if_neg hother]
  have heq : thirdAnswer cfg ty id t' (some l) =
      ((rowFailed cfg ty id t' (some l)).checked cfg ty t').1 := by
    have hown : (rowFailed cfg ty id t' (rowChecked cfg ty id t' (some l)).2).identifier = id := by
      rw [hsame, hrow]
      split <;> rfl
    rw [thirdAnswer_eq (some l) hown, hsame]
  intro hanswers
  rw [← hanswers, heq, hrow] at hnone
  by_cases hreached : cfg.maxAttempts ≤ l.failedAttempts + 1 ∧ l.status ≠ .locked
  · -- it locks, which a first failure does not
    rw [if_neg (hunlocked hreached.2), if_pos hreached] at hnone
    have hlocked : ((r.lock cfg.lockoutDurationMinutes t').checked cfg ty t').1.isLocked = true :=
      checked_justLocked ty rfl rfl
    rw [hnone] at hlocked
    cases hlocked
  · rw [if_neg hreached] at hnone
    rcases deleted_cases hdeleted with ⟨hs, u, hu, hlt⟩ | ⟨hs, -⟩
    · -- the old lock is over, and with it the failure
      have hover : (r.checked cfg ty t').1 = .normal cfg.maxAttempts :=
        checked_over (l := r) hs hu (Int.le_trans (Int.le_of_lt hlt) hle)
      rw [hover] at hnone
      split at hnone
      · cases hnone
      · have hcount := normal_inj hnone
        omega
    · -- the failures add up
      have hone : cfg.maxAttempts ≠ 1 := hunlocked (by rw [hs]; decide)
      have hmore := hcounted hs
      have hbelow : l.failedAttempts + 1 < cfg.maxAttempts := by
        by_contra hge
        exact hreached ⟨by omega, by rw [hs]; decide⟩
      have hfresh : (r.checked cfg ty t').1 = .normal (cfg.maxAttempts - (l.failedAttempts + 1)) :=
        checked_fresh (l := r) hs rfl
      rw [if_neg hone, hfresh] at hnone
      have hcount := normal_inj hnone
      omega

end

variable [Platform]

/-! ## Operations at a moment -/

/-- The outcome of a program, and the world that it leaves, when the clock
    stands still and nothing fails. -/
def atOnce {ε α : Type} (p : Req ε α) (w : World) : Except ε α × World :=
  let out := p.runAlone (fun _ => Ctx.calm) w
  (out.1, out.2.1)

/-- An operation of the service at a moment. -/
def callAt (w : World) (now : Timestamp) (r : LockoutCall) :
    Except AuthError LockoutAnswer × World :=
  atOnce (lockoutService.program r) { w with now := now }

/-- The answers of operations one after the other. -/
def answersFrom (w : World) : List (Timestamp × LockoutCall) → List (Except AuthError LockoutAnswer)
  | [] => []
  | (now, r) :: rest => (callAt w now r).1 :: answersFrom (callAt w now r).2 rest

/-- Checks and failed attempts of one identifier, from a time on. -/
structure Continues (cfg : LockoutConfig) (ty : LockoutType) (id : Str) (from' : Timestamp)
    (rest : List (Timestamp × LockoutCall)) : Prop where
  ordered : (from' :: rest.map Prod.fst).Pairwise (· ≤ ·)
  own : ∀ x ∈ rest, x.2 = .check cfg ty id ∨ x.2 = .recordFailed cfg ty id

/-- A check at `t'`, and whatever follows for the identifier, is answered
    alike with and without a cleanup at `t`. -/
def CleanupInvisible (cfg : LockoutConfig) (ty : LockoutType) (id : Str) (t t' : Timestamp)
    (w : World) : Prop :=
  ∀ rest, Continues cfg ty id t' rest →
    answersFrom (callAt w t (.cleanup cfg)).2 ((t', .check cfg ty id) :: rest) =
      answersFrom w ((t', .check cfg ty id) :: rest)

/-- The lockouts of this type are switched off, or the row under the key of the
    identifier is kept or forgettable. -/
def CleanupHarmless (cfg : LockoutConfig) (ty : LockoutType) (id : Str) (t : Timestamp)
    (w : World) : Prop :=
  cfg.enables ty = true → ∀ r, lockoutAt (lockoutRecordId id ty) w.db.lockouts = some r →
    r.isKept t (t - 60 * cfg.resetWindowMinutes) = true ∨ r.IsForgettable cfg id

/-! ## Evaluation -/

section

variable {ε ε' α β : Type} {w : World}

theorem atOnce_bind {p : Req ε α} {f : α → Req ε β} :
    atOnce (p >>= f) w = match atOnce p w with
      | (.ok a, w') => atOnce (f a) w'
      | (.error e, w') => (.error e, w') := by
  induction p generalizing w with
  | done r => cases r <;> rfl
  | step s k ih => exact ih _

theorem atOnce_attempt {p : Req ε α} :
    atOnce (p.attempt : Req ε' _) w = (.ok (atOnce p w).1, (atOnce p w).2) := by
  induction p generalizing w with
  | done r => rfl
  | step s k ih => exact ih _

theorem atOnce_getNow : atOnce (getNow : Req ε Timestamp) w = (.ok w.now, w) := by
  have hstill : w.advance 0 = w := by
    show (⟨w.db, w.now + 0, w.drawn⟩ : World) = w
    rw [Int.add_zero]
  show (Except.ok (w.advance 0).now, w.advance 0) = _
  rw [hstill]

/-- The world with other lockout records. -/
def World.withLockouts (w : World) (t : List AccountLockout) : World :=
  { w with db := { w.db with lockouts := t } }

theorem atOnce_lockout {s : LockoutStmt} {a : s.Reply} {t : List AccountLockout}
    (h : s.exec w.now w.db.lockouts = (.ok a, t)) :
    atOnce (query (.lockout s) : Req AuthError s.Reply) w = (.ok a, w.withLockouts t) := by
  have hexec : Stmt.exec .calm (.db (.lockout s)) w = (.ok a, w.withLockouts t) := by
    obtain ⟨db, now, n⟩ := w
    have hstill : now + ((0 : Nat) : Int) = now := Int.add_zero now
    simp only [Stmt.exec, Ctx.calm, World.advance, DbStmt.exec, hstill]
    rw [h]
    rfl
  rw [← Prog.bind_pure' (query (.lockout s)), query_bind]
  show atOnce (onResponse (fun a => .done (.ok a)) (Stmt.exec .calm (.db (.lockout s)) w).1)
    (Stmt.exec .calm (.db (.lockout s)) w).2 = _
  rw [hexec]
  rfl

end

/-! ## The operations on a row -/

/-- A program answers `r` and leaves this row under the key. -/
structure Leaves {ε α : Type} (key : Str) (out : Except ε α × World) (r : Except ε α)
    (row : Option AccountLockout) : Prop where
  answer : out.1 = r
  keyed : Keyed out.2.db.lockouts
  row : lockoutAt key out.2.db.lockouts = row

section

variable {cfg : LockoutConfig} {ty : LockoutType} {id : Str} {w : World} {l : AccountLockout}

theorem atOnce_save (hkeyed : Keyed w.db.lockouts)
    (hl : l.key = lockoutRecordId l.identifier l.lockoutType) :
    ∃ t, atOnce (saveLockoutRecord l) w = (.ok (), w.withLockouts t) ∧ Keyed t ∧
      lockoutAt l.key t = some l := by
  have hkey : { l with key := lockoutRecordId l.identifier l.lockoutType } = l := by
    rw [← hl]
  have haddressed : (LockoutStmt.save l).IsAddressed := hl
  obtain ⟨a, ha⟩ := hkeyed.answers haddressed w.now
  refine ⟨((LockoutStmt.save l).exec w.now w.db.lockouts).2, ?_, hkeyed.exec haddressed, ?_⟩
  · rw [saveLockoutRecord, hkey]
    exact atOnce_lockout (Prod.ext ha rfl)
  · rw [hkeyed.rowAt_exec haddressed, LockoutStmt.onRow, if_pos rfl]

theorem atOnce_get : atOnce (getLockoutRecord id ty) w =
    (match lockoutOf id ty w.db.lockouts with
      | some l => .ok l
      | none => .error .userNotFound, w) := by
  rw [getLockoutRecord, atOnce_bind,
    atOnce_lockout (s := .get id ty) (a := lockoutOf id ty w.db.lockouts)
      (t := w.db.lockouts) rfl]
  cases lockoutOf id ty w.db.lockouts <;> rfl

theorem resetStaleAttempts_leaves (cfg : LockoutConfig) (hkeyed : Keyed w.db.lockouts)
    (hrow : lockoutAt l.key w.db.lockouts = some l) :
    ∃ t l', atOnce (resetStaleAttempts cfg l) w = (.ok l', w.withLockouts t) ∧ Keyed t ∧
      lockoutAt l.key t = some l' ∧
      l' = if l.shouldResetAttempts cfg w.now = true ∧ l.status = .normal then
        { l with failedAttempts := 0, updatedAt := w.now } else l := by
  have hl := hkeyed.key l (KeyedTable.mem_of_rowAt hrow)
  rw [resetStaleAttempts, atOnce_bind, atOnce_getNow]
  by_cases hstale : l.shouldResetAttempts cfg w.now = true ∧ l.status = .normal
  · obtain ⟨t, hsave, hkeyed', hrow'⟩ := atOnce_save (w := w) hkeyed
      (l := { l with failedAttempts := 0, updatedAt := w.now }) hl
    refine ⟨t, _, ?_, hkeyed', hrow', (if_pos hstale).symm⟩
    simp only [if_pos hstale, atOnce_bind, atOnce_getNow, hsave]
    rfl
  · refine ⟨w.db.lockouts, l, ?_, hkeyed, hrow, (if_neg hstale).symm⟩
    simp only [if_neg hstale]
    rfl

/-- The check of a record that exists. -/
theorem checkRecord_leaves (cfg : LockoutConfig) (ty : LockoutType) (hkeyed : Keyed w.db.lockouts)
    (hrow : lockoutAt l.key w.db.lockouts = some l) :
    Leaves l.key (atOnce (checkRecord cfg ty l) w) (.ok (l.checked cfg ty w.now).1)
      (some (l.checked cfg ty w.now).2) := by
  have hl := hkeyed.key l (KeyedTable.mem_of_rowAt hrow)
  rw [checkRecord, atOnce_bind, atOnce_getNow]
  by_cases hover : l.isLockExpired w.now = true ∧ l.status ≠ .normal
  · obtain ⟨t, hsave, hkeyed', hrow'⟩ := atOnce_save (w := w) hkeyed (l := l.unlockAccount w.now) hl
    simp only [AccountLockout.checked, if_pos hover, atOnce_bind, atOnce_getNow, hsave]
    exact ⟨rfl, hkeyed', hrow'⟩
  · obtain ⟨t, l', hreset, hkeyed', hrow', hl'⟩ := resetStaleAttempts_leaves cfg hkeyed hrow
    simp only [AccountLockout.checked, if_neg hover, atOnce_bind, hreset, atOnce_getNow, ← hl']
    have hnow : (w.withLockouts t).now = w.now := rfl
    rw [hnow]
    by_cases hlocked : l'.isLocked w.now = true
    · simp only [if_pos hlocked, atOnce_bind, atOnce_getNow]
      exact ⟨rfl, hkeyed', hrow'⟩
    · simp only [if_neg hlocked]
      exact ⟨rfl, hkeyed', hrow'⟩

/-- The check sees the row under the key only if it is the identifier's own. -/
theorem checkLockout_leaves (id : Str) (hkeyed : Keyed w.db.lockouts) (hon : cfg.enables ty = true) :
    let row := lockoutAt (lockoutRecordId id ty) w.db.lockouts
    Leaves (lockoutRecordId id ty) (atOnce (checkLockout cfg ty id) w)
      (.ok (rowChecked cfg ty id w.now row).1) (rowChecked cfg ty id w.now row).2 := by
  intro row
  have hrow : lockoutAt (lockoutRecordId id ty) w.db.lockouts = row := rfl
  rw [checkLockout, if_pos hon, atOnce_bind, atOnce_attempt, atOnce_get, hkeyed.lockoutOf_eq, hrow]
  clear_value row
  cases row with
  | none => exact ⟨rfl, hkeyed, hrow⟩
  | some l =>
    by_cases hown : l.identifier = id
    · have hkey : l.key = lockoutRecordId id ty := KeyedTable.key_of_rowAt hrow
      have hat : lockoutAt l.key w.db.lockouts = some l := by
        rw [hkey]
        exact hrow
      have hcheck := checkRecord_leaves cfg ty hkeyed hat
      simp only [rowChecked, Option.filter, hown, decide_true, if_true]
      rw [hkey] at hcheck
      exact hcheck
    · simp only [rowChecked, Option.filter, hown, decide_false]
      exact ⟨rfl, hkeyed, hrow⟩

/-- An addressed statement at a moment. -/
theorem atOnce_addressed (hkeyed : Keyed w.db.lockouts) {s : LockoutStmt} (hs : s.IsAddressed) :
    ∃ a t, atOnce (query (.lockout s) : Req AuthError s.Reply) w = (.ok a, w.withLockouts t) ∧
      Keyed t ∧ ∀ key, lockoutAt key t = s.onRow w.now key (lockoutAt key w.db.lockouts) := by
  obtain ⟨a, ha⟩ := hkeyed.answers hs w.now
  exact ⟨a, _, atOnce_lockout (Prod.ext ha rfl), hkeyed.exec hs, hkeyed.rowAt_exec hs⟩

theorem sendFailedAttempt_leaves (cfg : LockoutConfig) (ty : LockoutType) (id : Str)
    (hkeyed : Keyed w.db.lockouts) :
    ∃ outcome, Leaves (lockoutRecordId id ty) (atOnce (sendFailedAttempt cfg id ty) w) (.ok outcome)
      (some (rowFailed cfg ty id w.now (lockoutAt (lockoutRecordId id ty) w.db.lockouts))) := by
  obtain ⟨_, t₁, hcount, hkeyed₁, hrow₁⟩ :=
    atOnce_addressed hkeyed (s := .countFailure (lockoutRecordId id ty) id ty) rfl
  obtain ⟨justLocked, t₂, hlock, hkeyed₂, hrow₂⟩ :=
    atOnce_addressed (w := w.withLockouts t₁) hkeyed₁
      (s := .lockIfReached (lockoutRecordId id ty) cfg.maxAttempts cfg.lockoutDurationMinutes) trivial
  obtain ⟨attempts, t₃, hread, hkeyed₃, hrow₃⟩ :=
    atOnce_addressed (w := (w.withLockouts t₁).withLockouts t₂) hkeyed₂
      (s := .attempts (lockoutRecordId id ty)) trivial
  refine ⟨⟨attempts.getD 0, justLocked⟩, ?_, ?_, ?_⟩
  all_goals
    simp only [sendFailedAttempt, atOnce_bind, atOnce_attempt, hcount, hlock, hread]
  · rfl
  · exact hkeyed₃
  · show lockoutAt _ t₃ = _
    have h₁ := hrow₁ (lockoutRecordId id ty)
    have h₂ := hrow₂ (lockoutRecordId id ty)
    have h₃ := hrow₃ (lockoutRecordId id ty)
    rw [LockoutStmt.onRow, if_pos rfl] at h₁
    rw [h₃]
    show lockoutAt _ t₂ = _
    rw [h₂]
    show (lockoutAt _ t₁).map _ = _
    rw [h₁]
    rfl

/-- A failed attempt is counted, and locks the record when it is one too many. -/
theorem recordFailedAttempt_leaves (id : Str) (hkeyed : Keyed w.db.lockouts)
    (hon : cfg.enables ty = true) :
    Leaves (lockoutRecordId id ty) (atOnce (recordFailedAttempt cfg ty id) w) (.ok ())
      (some (rowFailed cfg ty id w.now (lockoutAt (lockoutRecordId id ty) w.db.lockouts))) := by
  obtain ⟨outcome, hanswer, hkeyed', hrow'⟩ :=
    sendFailedAttempt_leaves cfg ty id hkeyed
  have hretry : atOnce (incrementFailedAttempts cfg id ty) w =
      (.ok outcome, (atOnce (sendFailedAttempt cfg id ty) w).2) := by
    rw [incrementFailedAttempts, writeConflictRetries, retryOnConflict, atOnce_bind,
      atOnce_attempt, hanswer]
    rfl
  rw [recordFailedAttempt, if_pos hon, atOnce_bind, hretry]
  exact ⟨rfl, hkeyed', hrow'⟩

/-- A cleanup keeps some rows. -/
theorem cleanup_leaves (cfg : LockoutConfig) (hkeyed : Keyed w.db.lockouts) (key : Str) :
    Leaves key (atOnce (cleanupExpiredLockouts cfg) w) (.ok ())
      ((lockoutAt key w.db.lockouts).filter
        (AccountLockout.isKept w.now (w.now - 60 * cfg.resetWindowMinutes))) := by
  obtain ⟨a, t, hquery, hkeyed', hrow'⟩ := atOnce_addressed hkeyed
    (s := .cleanup w.now (w.now - 60 * cfg.resetWindowMinutes)) trivial
  rw [cleanupExpiredLockouts, atOnce_bind, atOnce_getNow]
  show Leaves key (atOnce (query (.lockout (.cleanup w.now (w.now - 60 * cfg.resetWindowMinutes)))) w)
    _ _
  rw [hquery]
  exact ⟨rfl, hkeyed', hrow' key⟩

end

/-! ## Worlds that answer alike -/

section

variable {cfg : LockoutConfig} {ty : LockoutType} {id : Str} {w v : World} {now t t' : Timestamp}

/-- The rows under the key of the identifier are alike. -/
structure AlikeWorlds (cfg : LockoutConfig) (ty : LockoutType) (id : Str) (w v : World) : Prop where
  keyed : Keyed w.db.lockouts
  keyed' : Keyed v.db.lockouts
  rows : AlikeRows cfg id (lockoutAt (lockoutRecordId id ty) w.db.lockouts)
    (lockoutAt (lockoutRecordId id ty) v.db.lockouts)

/-- A check at a moment. -/
theorem callAt_check (id : Str) (now : Timestamp) (hkeyed : Keyed w.db.lockouts)
    (hon : cfg.enables ty = true) :
    let row := lockoutAt (lockoutRecordId id ty) w.db.lockouts
    Leaves (lockoutRecordId id ty) (callAt w now (.check cfg ty id))
      (.ok (.checked (rowChecked cfg ty id now row).1)) (rowChecked cfg ty id now row).2 := by
  intro row
  obtain ⟨hanswer, hkeyed', hrow⟩ :=
    checkLockout_leaves (w := { w with now := now }) id hkeyed hon
  show Leaves _ (atOnce (checkLockout cfg ty id >>= fun result => pure (LockoutAnswer.checked result))
    { w with now := now }) _ _
  have hpair : atOnce (checkLockout cfg ty id) { w with now := now } =
      (.ok (rowChecked cfg ty id now row).1,
        (atOnce (checkLockout cfg ty id) { w with now := now }).2) := Prod.ext hanswer rfl
  rw [atOnce_bind, hpair]
  exact ⟨rfl, hkeyed', hrow⟩

/-- A failed attempt at a moment. -/
theorem callAt_recordFailed (id : Str) (now : Timestamp) (hkeyed : Keyed w.db.lockouts)
    (hon : cfg.enables ty = true) :
    Leaves (lockoutRecordId id ty) (callAt w now (.recordFailed cfg ty id)) (.ok .recorded)
      (some (rowFailed cfg ty id now (lockoutAt (lockoutRecordId id ty) w.db.lockouts))) := by
  obtain ⟨hanswer, hkeyed', hrow⟩ :=
    recordFailedAttempt_leaves (w := { w with now := now }) id hkeyed hon
  show Leaves _ (atOnce (recordFailedAttempt cfg ty id >>= fun _ => pure LockoutAnswer.recorded)
    { w with now := now }) _ _
  have hpair : atOnce (recordFailedAttempt cfg ty id) { w with now := now } =
      (.ok (), (atOnce (recordFailedAttempt cfg ty id) { w with now := now }).2) :=
    Prod.ext hanswer rfl
  rw [atOnce_bind, hpair]
  exact ⟨rfl, hkeyed', hrow⟩

/-- A cleanup at a moment. -/
theorem callAt_cleanup (cfg : LockoutConfig) (now : Timestamp) (hkeyed : Keyed w.db.lockouts)
    (key : Str) :
    Leaves key (callAt w now (.cleanup cfg)) (.ok .cleaned)
      ((lockoutAt key w.db.lockouts).filter
        (AccountLockout.isKept now (now - 60 * cfg.resetWindowMinutes))) := by
  obtain ⟨hanswer, hkeyed', hrow⟩ :=
    cleanup_leaves (w := { w with now := now }) cfg hkeyed key
  show Leaves _ (atOnce (cleanupExpiredLockouts cfg >>= fun _ => pure LockoutAnswer.cleaned)
    { w with now := now }) _ _
  have hpair : atOnce (cleanupExpiredLockouts cfg) { w with now := now } =
      (.ok (), (atOnce (cleanupExpiredLockouts cfg) { w with now := now }).2) :=
    Prod.ext hanswer rfl
  rw [atOnce_bind, hpair]
  exact ⟨rfl, hkeyed', hrow⟩

/-- What is switched off answers without looking at anything. -/
theorem callAt_off (hoff : ¬ cfg.enables ty = true) {r : LockoutCall}
    (hr : r = .check cfg ty id ∨ r = .recordFailed cfg ty id) :
    (callAt w now r).1 = (callAt v now r).1 := by
  rcases hr with rfl | rfl
  · simp only [callAt, checkLockout, if_neg hoff]
    rfl
  · simp only [callAt, recordFailedAttempt, if_neg hoff]
    rfl

/-- One operation of the identifier is answered alike. -/
theorem AlikeWorlds.step (h : AlikeWorlds cfg ty id w v) (now : Timestamp)
    (hon : cfg.enables ty = true) {r : LockoutCall} (hr : r = .check cfg ty id ∨ r = .recordFailed cfg ty id) :
    (callAt w now r).1 = (callAt v now r).1 ∧
      AlikeWorlds cfg ty id (callAt w now r).2 (callAt v now r).2 := by
  rcases hr with rfl | rfl
  · obtain ⟨hanswer, hkeyed, hrow⟩ := callAt_check id now h.keyed hon
    obtain ⟨hanswer', hkeyed', hrow'⟩ := callAt_check id now h.keyed' hon
    obtain ⟨hsame, hrows⟩ := h.rows.checked ty now
    refine ⟨by rw [hanswer, hanswer', hsame], hkeyed, hkeyed', ?_⟩
    rw [hrow, hrow']
    exact hrows
  · obtain ⟨hanswer, hkeyed, hrow⟩ := callAt_recordFailed id now h.keyed hon
    obtain ⟨hanswer', hkeyed', hrow'⟩ := callAt_recordFailed id now h.keyed' hon
    refine ⟨by rw [hanswer, hanswer'], hkeyed, hkeyed', ?_⟩
    rw [hrow, hrow']
    exact h.rows.failed (fun r hr => KeyedTable.key_of_rowAt hr)
      fun r hr => KeyedTable.key_of_rowAt hr

/-- So are all that follow. -/
theorem AlikeWorlds.answers (h : AlikeWorlds cfg ty id w v) (hon : cfg.enables ty = true)
    {rest : List (Timestamp × LockoutCall)}
    (hrest : ∀ x ∈ rest, x.2 = .check cfg ty id ∨ x.2 = .recordFailed cfg ty id) :
    answersFrom w rest = answersFrom v rest := by
  induction rest generalizing w v with
  | nil => rfl
  | cons x rest ih =>
    obtain ⟨hx, hrest⟩ := List.forall_mem_cons.mp hrest
    obtain ⟨hanswer, hnext⟩ := h.step x.1 hon hx
    rw [answersFrom, answersFrom, hanswer, ih hnext hrest]

theorem answersFrom_off (ty : LockoutType) (id : Str) (hoff : ¬ cfg.enables ty = true)
    {rest : List (Timestamp × LockoutCall)}
    (hrest : ∀ x ∈ rest, x.2 = .check cfg ty id ∨ x.2 = .recordFailed cfg ty id) :
    answersFrom w rest = answersFrom v rest := by
  induction rest generalizing w v with
  | nil => rfl
  | cons x rest ih =>
    obtain ⟨hx, hrest⟩ := List.forall_mem_cons.mp hrest
    rw [answersFrom, answersFrom, callAt_off hoff hx, ih hrest]

/-- A harmless cleanup is not seen by the next check, and leaves the worlds
    alike. -/
theorem first_check (hkeyed : Keyed w.db.lockouts) (hon : cfg.enables ty = true) (hle : t ≤ t')
    (hharmless : CleanupHarmless cfg ty id t w) :
    let cleaned := (callAt w t (.cleanup cfg)).2
    (callAt cleaned t' (.check cfg ty id)).1 = (callAt w t' (.check cfg ty id)).1 ∧
      AlikeWorlds cfg ty id (callAt cleaned t' (.check cfg ty id)).2
        (callAt w t' (.check cfg ty id)).2 := by
  intro cleaned
  obtain ⟨-, hkeyed', hrow⟩ := callAt_cleanup cfg t hkeyed (lockoutRecordId id ty)
  by_cases hclear : ∃ r, lockoutAt (lockoutRecordId id ty) w.db.lockouts = some r ∧
      ¬ r.isKept t (t - 60 * cfg.resetWindowMinutes) = true ∧ r.identifier = id
  · -- an own record is gone: the check finds the other one worth nothing
    obtain ⟨r, hr, hdeleted, hown⟩ := hclear
    obtain ⟨hpasses, hclear⟩ := checked_deleted ty hle hown hdeleted
    obtain ⟨hanswer, hk, hrow₁⟩ := callAt_check id t' hkeyed' hon
    obtain ⟨hanswer', hk', hrow₂⟩ := callAt_check id t' hkeyed hon
    rw [hr] at hanswer' hrow₂
    rw [hrow, hr, Option.filter, if_neg hdeleted] at hanswer hrow₁
    refine ⟨by rw [hanswer, hanswer', hpasses]; rfl, hk, hk', ?_⟩
    rw [hrow₁, hrow₂]
    exact .clear trivial hclear
  · -- otherwise the rows are alike already
    have halike : AlikeWorlds cfg ty id cleaned w := by
      refine ⟨hkeyed', hkeyed, ?_⟩
      rw [hrow]
      cases hr : lockoutAt (lockoutRecordId id ty) w.db.lockouts with
      | none => exact .refl _
      | some r =>
        by_cases hkept : r.isKept t (t - 60 * cfg.resetWindowMinutes) = true
        · rw [Option.filter, if_pos hkept]
          exact .refl _
        · rw [Option.filter, if_neg hkept]
          have hother : r.identifier ≠ id := fun hown => hclear ⟨r, hr, hkept, hown⟩
          rcases (hharmless hon r hr).resolve_left hkept with h | h | h
          · exact absurd h hother
          · exact .clear trivial (.inl h)
          · exact .clear trivial (.inr ⟨hother, h⟩)
    exact halike.step t' hon (.inl rfl)

theorem invisible_of_harmless (hkeyed : Keyed w.db.lockouts) (hle : t ≤ t')
    (hharmless : CleanupHarmless cfg ty id t w) : CleanupInvisible cfg ty id t t' w := by
  intro rest hrest
  by_cases hon : cfg.enables ty = true
  · obtain ⟨hanswer, halike⟩ := first_check hkeyed hon hle hharmless
    rw [answersFrom, answersFrom, hanswer, halike.answers hon hrest.own]
  · apply answersFrom_off ty id hon
    intro x hx
    rcases List.mem_cons.mp hx with rfl | hx
    · exact .inl rfl
    · exact hrest.own x hx

/-- The answer to a check behind a check and a failed attempt. -/
theorem answersFrom_three (id : Str) (t' : Timestamp) (hkeyed : Keyed w.db.lockouts) (hon : cfg.enables ty = true) :
    (answersFrom w [(t', .check cfg ty id), (t', .recordFailed cfg ty id),
      (t', .check cfg ty id)]).getLast? =
      some (.ok (.checked (thirdAnswer cfg ty id t'
        (lockoutAt (lockoutRecordId id ty) w.db.lockouts)))) := by
  obtain ⟨-, hkeyed₁, hrow₁⟩ := callAt_check id t' hkeyed hon
  obtain ⟨-, hkeyed₂, hrow₂⟩ := callAt_recordFailed id t' hkeyed₁ hon
  obtain ⟨hanswer, -, -⟩ := callAt_check id t' hkeyed₂ hon
  show some (callAt (callAt (callAt w t' (.check cfg ty id)).2 t' (.recordFailed cfg ty id)).2 t'
    (.check cfg ty id)).1 = _
  rw [hanswer, hrow₂, hrow₁]
  rfl

theorem harmless_of_invisible (hkeyed : Keyed w.db.lockouts) (hle : t ≤ t')
    (h : CleanupInvisible cfg ty id t t' w) : CleanupHarmless cfg ty id t w := by
  intro hon r hr
  by_cases hkept : r.isKept t (t - 60 * cfg.resetWindowMinutes) = true
  · exact .inl hkept
  · right
    by_contra hnot
    have hrest : Continues cfg ty id t' [(t', .recordFailed cfg ty id), (t', .check cfg ty id)] := by
      constructor
      · show [t', t', t'].Pairwise (· ≤ ·)
        simp
      · intro x hx
        rcases List.mem_cons.mp hx with rfl | hx
        · exact .inr rfl
        · rw [List.mem_singleton.mp hx]
          exact .inl rfl
    obtain ⟨-, hkeyed', hrow⟩ :=
      callAt_cleanup cfg t hkeyed (lockoutRecordId id ty)
    have hcleaned := answersFrom_three id t' hkeyed' hon
    have hplain := answersFrom_three id t' hkeyed hon
    rw [h _ hrest, hplain, hrow, hr, Option.filter, if_neg hkept] at hcleaned
    have hkey : r.key = lockoutRecordId id ty := KeyedTable.key_of_rowAt hr
    apply thirdAnswer_differs hkey hle hkept hnot
    injection hcleaned with hcleaned
    injection hcleaned with hcleaned
    injection hcleaned

end

/-- **Cleanups are invisible.** In every reachable state of the service, the
    checks and failures of an identifier behind a cleanup are answered as if
    there had been none, exactly when the cleanup is harmless for it. -/
theorem cleanup_invisible_iff {w : World} (hw : Keyed w.db.lockouts) {c : lockoutService.Conf}
    (hc : Reachable w c) (cfg : LockoutConfig) (ty : LockoutType) (id : Str) {t t' : Timestamp}
    (hle : t ≤ t') :
    CleanupInvisible cfg ty id t t' c.state ↔ CleanupHarmless cfg ty id t c.state := by
  have hkeyed := (keyed_run hw hc).2
  constructor
  · exact harmless_of_invisible hkeyed hle
  · exact invisible_of_harmless hkeyed hle

end SoulAuth

namespace SoulAuth.Sample

open Framework Framework.System

/-- Two failures for an address with an underscore. -/
def countedForOther : lockoutService.Conf :=
  (lockoutService.initial (World.fresh 0)).run
    (.start (.recordFailed lockout .user "a_b@c.d".toList) :: List.replicate 3 (.step 0 .calm) ++
      .start (.recordFailed lockout .user "a_b@c.d".toList) :: List.replicate 3 (.step 1 .calm))

theorem countedForOther_reachable : Reachable (World.fresh 0) countedForOther := ⟨_, rfl⟩

/-- For the address itself the cleanup is harmless. -/
theorem cleanup_invisible_own :
    CleanupInvisible lockout .user "a_b@c.d".toList 3601 3700 countedForOther.state ↔
      CleanupHarmless lockout .user "a_b@c.d".toList 3601 countedForOther.state :=
  cleanup_invisible_iff keyed_nil countedForOther_reachable lockout .user _ (by decide)

/-- The address with a blank has the same record key. When the failures of the
    other one have not been cleaned up, its own first failure is the third. -/
theorem cleanup_visible :
    ¬ CleanupInvisible lockout .user "a b@c.d".toList 3601 3601 countedForOther.state := by
  intro h
  have hrest : Continues lockout .user "a b@c.d".toList 3601
      [(3601, .recordFailed lockout .user "a b@c.d".toList),
        (3601, .check lockout .user "a b@c.d".toList)] := by
    constructor
    · decide
    · intro x hx
      rcases List.mem_cons.mp hx with rfl | hx
      · exact .inr rfl
      · rw [List.mem_singleton.mp hx]
        exact .inl rfl
  have hdiffer : answersFrom (callAt countedForOther.state 3601 (.cleanup lockout)).2
      [(3601, .check lockout .user "a b@c.d".toList),
        (3601, .recordFailed lockout .user "a b@c.d".toList),
        (3601, .check lockout .user "a b@c.d".toList)] ≠
      answersFrom countedForOther.state
        [(3601, .check lockout .user "a b@c.d".toList),
          (3601, .recordFailed lockout .user "a b@c.d".toList),
          (3601, .check lockout .user "a b@c.d".toList)] := by
    decide +kernel
  exact hdiffer (h _ hrest)

end SoulAuth.Sample
