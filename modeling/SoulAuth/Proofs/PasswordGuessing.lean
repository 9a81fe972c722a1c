import SoulAuth.Proofs.LoginGuard
import SoulAuth.Proofs.Tables

/-! # How often a password can be guessed

A login checks the lockout record, evaluates the password, and has its
failure recorded by a task of its own. As long as a login reads the record
only when the earlier failures stand in it, the record is locked before
there are too many.
-/

namespace SoulAuth

open Framework Framework.System

section

variable [Platform]

/-! ## Guesses and recorded failures -/

/-- The address that was submitted with a password that was evaluated
    against a stored hash and found wrong. -/
def wrongGuess (c : (server).Conf) (x : Nat × Entry machine) : Option Str :=
  match c.reqOf x.1, x.2.stmt with
  | some ⟨_, .login email _ _⟩, .verifyPassword stored submitted =>
    if stored ≠ Platform.dummyPasswordHash ∧ Platform.argon2Verify stored submitted = false
    then some email else none
  | _, _ => none

/-- The address belongs to the account with the email address `addr`. -/
def resolvesTo (addr email : Str) : Bool := (validateEmail email).toOption = some addr

/-- A wrong guess at the password of the account. -/
def guesses (c : (server).Conf) (addr : Str) (x : Nat × Entry machine) : Bool :=
  (wrongGuess c x).any (resolvesTo addr)

/-- The failures of an identifier that have been counted, and those that the
    locking statement has seen since. -/
structure Tally where
  counted : Nat
  recorded : Nat

instance (e : Entry machine) (s : LockoutStmt) : Decidable (ExecutesLockout e s) :=
  decidable_of_iff (e.stmt = .db (.lockout s) ∧
    (e.ctx.fault = none ∨ e.ctx.fault = some .lostReply))
    ⟨fun h => ⟨h.1, h.2⟩, fun h => ⟨h.stmt, h.executed⟩⟩

/-- What an entry adds to the tally. -/
def Tally.next (id : Str) (maxAttempts : Nat) (p : Tally) (e : Entry machine) : Tally :=
  match e.stmt with
  | .db (.lockout (.countFailure key id' ty)) =>
    if id' = id ∧ ty = .user ∧ ExecutesLockout e (.countFailure key id' ty)
    then ⟨p.counted + 1, p.recorded⟩ else p
  | .db (.lockout (.lockIfReached key m d)) =>
    if key = lockoutRecordId id .user ∧ m = maxAttempts ∧ ExecutesLockout e (.lockIfReached key m d)
    then ⟨p.counted, p.counted⟩ else p
  | _ => p

/-- The tally of a part of a trace. -/
def tally (id : Str) (maxAttempts : Nat) (tr : List (Nat × Entry machine)) : Tally :=
  tr.foldl (fun p x => p.next id maxAttempts x.2) ⟨0, 0⟩

/-- Nothing in the window unlocks the identifier: its record is not saved or
    cleaned up, and no lock in force ends. -/
structure StaysUnlifted (id : Str) (win : List (Nat × Entry machine)) : Prop where
  save : ∀ x ∈ win, ∀ l, ExecutesLockout x.2 (.save l) → l.key ≠ lockoutRecordId id .user
  cleanup : ∀ x ∈ win, ∀ now stale, ExecutesLockout x.2 (.cleanup now stale) →
    lockoutAt (lockoutRecordId id .user) x.2.after.db.lockouts =
      lockoutAt (lockoutRecordId id .user) x.2.before.db.lockouts
  expiry : ∀ x ∈ win, ∀ y ∈ win, ∀ r u,
    lockoutAt (lockoutRecordId id .user) x.2.before.db.lockouts = some r →
    r.status = .locked → r.lockedUntil = some u → clock y.2 < u

/-- No failure is counted for another identifier with the same key. -/
def CountsApart (id : Str) (win : List (Nat × Entry machine)) : Prop :=
  ∀ x ∈ win, ∀ key id' ty, ExecutesLockout x.2 (.countFailure key id' ty) →
    key = lockoutRecordId id .user → id' = id

/-! ## The record shows the tally -/

/-- The record shows the failures counted, and is locked once the recorded
    ones have reached the bound. -/
structure Tally.Shown (id : Str) (maxAttempts : Nat) (p : Tally) (row : Option AccountLockout) :
    Prop where
  seen : p.recorded ≤ p.counted
  missing : row = none → p.counted = 0
  own : ∀ r, row = some r → 0 < p.counted → r.identifier = id
  attempts : ∀ r, row = some r → p.counted ≤ r.failedAttempts
  ends : ∀ r, row = some r → r.status = .locked → ∃ u, r.lockedUntil = some u
  locked : ∀ r, row = some r → maxAttempts ≤ p.recorded → r.status = .locked

variable {id : Str} {m : Nat} {p : Tally}

omit [Platform] in
theorem Tally.shown_start (hm : 0 < m) {row : Option AccountLockout}
    (hrow : ∀ r, row = some r → r.status = .normal) : Tally.Shown id m ⟨0, 0⟩ row where
  seen := le_refl 0
  missing _ := rfl
  own _ _ h := absurd h (lt_irrefl 0)
  attempts _ _ := Nat.zero_le _
  ends r hr h := by
    rw [hrow r hr] at h
    cases h
  locked _ _ h := absurd hm (not_lt.mpr h)

theorem Tally.next_of_not_executes {e : Entry machine} (h : ∀ s, ¬ ExecutesLockout e s) :
    p.next id m e = p := by
  unfold Tally.next
  split
  · exact if_neg fun hc => h _ hc.2.2
  · exact if_neg fun hc => h _ hc.2.2
  · rfl

omit [Platform] in
theorem Tally.Shown.counted (hm : 0 < m) {row : Option AccountLockout} (h : p.Shown id m row)
    (key : Str) (now : Timestamp) :
    Tally.Shown id m ⟨p.counted + 1, p.recorded⟩
      (some (AccountLockout.counted key id .user now row)) where
  seen := h.seen.trans (Nat.le_succ _)
  missing := nofun
  own r hr _ := by
    cases hr
    cases row <;> rfl
  attempts r hr := by
    cases hr
    cases row with
    | none =>
      have hnone := h.missing rfl
      show p.counted + 1 ≤ 1
      omega
    | some r => exact Nat.succ_le_succ (h.attempts r rfl)
  ends r hr := by
    cases hr
    cases row with
    | none => exact nofun
    | some r => exact h.ends r rfl
  locked r hr hle := by
    cases hr
    cases row with
    | none =>
      -- nothing is recorded of a record that does not exist
      have hnone := h.missing rfl
      have hseen := h.seen
      simp only at hle
      omega
    | some r => exact h.locked r rfl hle

omit [Platform] in
/-- The locking statement locks the record, or leaves it as it is. -/
theorem Tally.Shown.lock {row : Option AccountLockout} (h : p.Shown id m row) (key : Str)
    (m' d : Nat) (now : Timestamp) :
    p.Shown id m (row.map fun r => if r.isReached key m' then r.lock d now else r) where
  seen := h.seen
  missing hnone := h.missing (Option.map_eq_none_iff.mp hnone)
  own r hr hpos := by
    obtain ⟨r₀, hr₀, rfl⟩ := Option.map_eq_some_iff.mp hr
    have hid := h.own r₀ hr₀ hpos
    split <;> exact hid
  attempts r hr := by
    obtain ⟨r₀, hr₀, rfl⟩ := Option.map_eq_some_iff.mp hr
    have hle := h.attempts r₀ hr₀
    split <;> exact hle
  ends r hr hlocked := by
    obtain ⟨r₀, hr₀, rfl⟩ := Option.map_eq_some_iff.mp hr
    by_cases hreached : r₀.isReached key m' = true
    · rw [if_pos hreached]
      exact ⟨_, rfl⟩
    · rw [if_neg hreached] at hlocked ⊢
      exact h.ends r₀ hr₀ hlocked
  locked r hr hle := by
    obtain ⟨r₀, hr₀, rfl⟩ := Option.map_eq_some_iff.mp hr
    split
    · rfl
    · exact h.locked r₀ hr₀ hle

omit [Platform] in
/-- With the bound itself it records the failures counted so far. -/
theorem Tally.Shown.reached {row : Option AccountLockout} (h : p.Shown id m row) {key : Str}
    (hkey : ∀ r, row = some r → r.key = key) (d : Nat) (now : Timestamp) :
    Tally.Shown id m ⟨p.counted, p.counted⟩ (row.map fun r =>
      if r.isReached key m then r.lock d now else r) := by
  obtain ⟨-, hmissing, hown, hattempts, hends, -⟩ := h.lock key m d now
  refine ⟨le_refl _, hmissing, hown, hattempts, hends, fun r hr hle => ?_⟩
  obtain ⟨r₀, hr₀, rfl⟩ := Option.map_eq_some_iff.mp hr
  split
  · rfl
  · next hnot =>
    have hfull := hle.trans (h.attempts r₀ hr₀)
    simpa [AccountLockout.isReached, hkey r₀ hr₀, hfull] using hnot

theorem Tally.Shown.next {e : Entry machine} (hm : 0 < m)
    (h : p.Shown id m (lockoutAt (lockoutRecordId id .user) e.before.db.lockouts))
    (hkeyed : Keyed e.before.db.lockouts)
    (haddressed : ∀ s, e.stmt = .db (.lockout s) → s.IsAddressed)
    (hsave : ∀ l, ExecutesLockout e (.save l) → l.key ≠ lockoutRecordId id .user)
    (hcleanup : ∀ now stale, ExecutesLockout e (.cleanup now stale) →
      lockoutAt (lockoutRecordId id .user) e.after.db.lockouts =
        lockoutAt (lockoutRecordId id .user) e.before.db.lockouts)
    (hapart : ∀ key id' ty, ExecutesLockout e (.countFailure key id' ty) →
      key = lockoutRecordId id .user → id' = id) :
    (p.next id m e).Shown id m (lockoutAt (lockoutRecordId id .user) e.after.db.lockouts) := by
  rcases lockouts_executed e with ⟨s, hex, hafter⟩ | ⟨hnot, hsame⟩
  · have hrow : lockoutAt (lockoutRecordId id .user) (s.exec (clock e) e.before.db.lockouts).2 = _ :=
      hkeyed.rowAt_exec (haddressed s hex.stmt) _
    rw [← hafter] at hrow
    cases s with
    | get id' ty => rwa [hrow, Tally.next, hex.stmt]
    | attempts key => rwa [hrow, Tally.next, hex.stmt]
    | save l =>
      -- the late save of a stale check is what the window excludes
      rw [hrow, LockoutStmt.onRow, if_neg (hsave l hex).symm, Tally.next, hex.stmt]
      exact h
    | cleanup now stale =>
      rw [hcleanup now stale hex, Tally.next, hex.stmt]
      exact h
    | countFailure key id' ty =>
      have hkey : key = lockoutRecordId id' ty := haddressed _ hex.stmt
      rw [hrow, LockoutStmt.onRow, Tally.next, hex.stmt]
      by_cases hK : lockoutRecordId id .user = key
      · -- under this key nobody else's failures are counted
        obtain rfl := hapart key id' ty hex hK.symm
        obtain ⟨rfl, -⟩ := lockoutRecordId_inj.mp (hK.trans hkey)
        simp only [if_pos hK, hex, and_self, if_true]
        exact h.counted hm key (clock e)
      · have hother : ¬ (id' = id ∧ ty = .user ∧ ExecutesLockout e (.countFailure key id' ty)) := by
          rintro ⟨rfl, rfl, -⟩
          exact hK hkey.symm
        simp only [if_neg hK, if_neg hother]
        exact h
    | lockIfReached key m' d =>
      rw [hrow, LockoutStmt.onRow, Tally.next, hex.stmt]
      simp only []
      split
      · next hlocks =>
        obtain ⟨rfl, rfl, -⟩ := hlocks
        exact h.reached (fun r hr => KeyedTable.key_of_rowAt hr) d (clock e)
      · exact h.lock key m' d (clock e)
  · rw [hsame, p.next_of_not_executes hnot]
    exact h

/-! ## A window of a run -/

/-- Along a window that starts unlocked the record shows the tally. -/
theorem shown_along {w : World} (hw : Keyed w.db.lockouts) {c : (server).Conf}
    (hc : Reachable w c) (as : List (server).Action) {win : List (Nat × Entry machine)}
    (hwin : (c.run as).trace = c.trace ++ win) (hm : 0 < m)
    (hstart : ∀ r, lockoutAt (lockoutRecordId id .user) c.state.db.lockouts = some r →
      r.status = .normal)
    (hlift : StaysUnlifted id win) (hapart : CountsApart id win)
    {a b : List (Nat × Entry machine)} {x : Nat × Entry machine} (hsplit : win = a ++ x :: b) :
    (tally id m a).Shown id m
      (lockoutAt (lockoutRecordId id .user) x.2.before.db.lockouts) := by
  have key : ∀ a w', Steps (S := server) c.state a w' → (∃ b, win = a ++ b) →
      (tally id m a).Shown id m (lockoutAt (lockoutRecordId id .user) w'.db.lockouts) := by
    intro a w' hsteps
    -- statement by statement, as long as they are those of the window
    induction hsteps with
    | nil => exact fun _ => Tally.shown_start hm hstart
    | @snoc a w' i e hsteps he ih =>
      rintro ⟨b, hb⟩
      rw [List.append_assoc] at hb
      have hshown := ih ⟨_, hb⟩
      rw [← he] at hshown
      have htr : (c.run as).trace = (c.trace ++ a) ++ (i, e) :: b := by
        rw [hwin, hb]
        simp
      have hmem : (i, e) ∈ win := by
        rw [hb]
        simp
      obtain ⟨c₁, hc₁, -, hstate⟩ := (hc.run as).before htr
      have hkeyed : Keyed e.before.db.lockouts := hstate ▸ (guarded_run hw hc₁).2
      obtain ⟨r, -, hE⟩ := (guarded_run hw (hc.run as)).1.entries _ i e b htr
      rw [tally, List.foldl_append]
      exact hshown.next hm hkeyed hE.addressed (hlift.save _ hmem) (hlift.cleanup _ hmem)
        (hapart _ hmem)
  have hsteps : Steps (S := server) c.state win (c.run as).state := by
    obtain ⟨w₁, h₁, h₂⟩ := (hc.run as).steps.split hwin
    rwa [hc.steps.state_eq h₁]
  obtain ⟨i, e⟩ := x
  rw [hsplit] at hsteps
  exact key a _ hsteps.split_entry.1 ⟨_, hsplit⟩

/-- Whoever guesses wrong has read the record when all failures of the
    window before the guess had been recorded in it. -/
def RecordedFirst (c : (server).Conf) (n : Nat) (addr : Str) (maxAttempts : Nat) : Prop :=
  ∀ tr₁ i g tr₂ x tr₃ email, c.trace = (tr₁ ++ (i, g) :: tr₂) ++ (i, x) :: tr₃ →
    n ≤ (tr₁ ++ (i, g) :: tr₂).length → wrongGuess c (i, x) = some email →
    resolvesTo addr email = true → g.stmt = .db (.lockout (.get email .user)) →
    ((tr₁ ++ (i, g) :: tr₂).drop n).countP (guesses c addr) ≤
      (tally email maxAttempts (tr₁.drop n)).recorded

/-- What a wrong guess is. -/
theorem wrongGuess_eq_some {c : (server).Conf} {i : Nat} {x : Entry machine} {email : Str}
    (h : wrongGuess c (i, x) = some email) : ∃ cfg pw ip stored submitted,
      c.reqOf i = some ⟨cfg, .login email pw ip⟩ ∧ x.stmt = .verifyPassword stored submitted := by
  unfold wrongGuess at h
  split at h
  · next cfg email' pw ip stored submitted hreq hstmt =>
    split at h
    · obtain rfl := Option.some.inj h
      exact ⟨cfg, pw, ip, stored, submitted, hreq, hstmt⟩
    · cases h
  · cases h

/-- A window of a run between two unlocks of the account with the address
    `addr`: it starts with unlocked records and no record of the account is
    unlocked in it. All servers have the lockout settings `cfg`. -/
structure BetweenUnlocks (cfg : LockoutConfig) (addr : Str) (c c' : (server).Conf)
    (win : List (Nat × Entry machine)) : Prop where
  trace : c'.trace = c.trace ++ win
  settings : ∀ i r, c'.reqOf i = some r → r.cfg.lockout = cfg
  enabled : cfg.enableUserLockout = true
  starts : ∀ id, resolvesTo addr id = true → ∀ r,
    lockoutAt (lockoutRecordId id .user) c.state.db.lockouts = some r → r.status = .normal
  unlifted : ∀ id, resolvesTo addr id = true → StaysUnlifted id win
  apart : ∀ id, resolvesTo addr id = true → CountsApart id win

/-- Before a wrong guess there are fewer than `max_attempts`, if whoever
    guesses wrong has read the record when they had been recorded in it. -/
theorem BetweenUnlocks.fewer_before {w : World} (hw : Keyed w.db.lockouts) {c : (server).Conf}
    (hc : Reachable w c) {as : List (server).Action} {win : List (Nat × Entry machine)}
    {cfg : LockoutConfig} {addr : Str} (hbetween : BetweenUnlocks cfg addr c (c.run as) win)
    (hrecorded : RecordedFirst (c.run as) c.trace.length addr cfg.maxAttempts)
    {a b : List (Nat × Entry machine)} {x : Nat × Entry machine} (hsplit : win = a ++ x :: b)
    (hx : guesses (c.run as) addr x = true) :
    a.countP (guesses (c.run as) addr) < cfg.maxAttempts := by
  obtain ⟨hwin, hcfg, henabled, hstart, hlift, hapart⟩ := hbetween
  obtain ⟨i, x⟩ := x
  obtain ⟨email, hguess, hresolves⟩ := (Option.any_eq_true _ _).mp hx
  obtain ⟨cfg', pw, ip, stored, submitted, hreq, hstmt⟩ := wrongGuess_eq_some hguess
  have htr : (c.run as).trace = (c.trace ++ a) ++ (i, x) :: b := by
    rw [hwin, hsplit]
    simp
  obtain ⟨r, hr, hE⟩ := (guarded_run hw (hc.run as)).1.entries _ i x b htr
  obtain rfl := Option.some.inj (hr.symm.trans hreq)
  -- the login has passed a check of the address it submitted
  have hsame : cfg'.lockout = cfg := hcfg i _ hreq
  have hpass := hE.passed email pw ip stored submitted rfl hstmt
  rw [hsame] at hpass
  obtain ⟨g, hg, row, ha, hover⟩ := hpass henabled
  obtain ⟨tr₁, tr₂, hcut⟩ := List.append_of_mem (mem_entriesOf.mp hg)
  have hle := hrecorded tr₁ i g tr₂ x b email (by rw [← hcut]; exact htr)
    (by rw [← hcut]; simp) hguess hresolves ha.stmt
  rw [← hcut, List.drop_left] at hle
  by_contra hfull
  have hreached : cfg.maxAttempts ≤ (tally email cfg.maxAttempts (tr₁.drop c.trace.length)).recorded :=
    (not_lt.mp hfull).trans hle
  -- so the check has read the record within the window
  have hlen : c.trace.length ≤ tr₁.length := by
    by_contra hlt
    rw [List.drop_eq_nil_of_le (by omega)] at hreached
    exact absurd cfg.maxAttempts_pos (not_lt.mpr hreached)
  obtain ⟨a₁, rfl⟩ : ∃ a₁, tr₁ = c.trace ++ a₁ := by
    have hprefix : c.trace <+: tr₁ :=
      List.prefix_of_prefix_length_le (List.prefix_append _ a) ⟨_, hcut.symm⟩ hlen
    exact hprefix.imp fun _ h => h.symm
  rw [List.drop_left] at hreached
  obtain rfl : a = a₁ ++ (i, g) :: tr₂ := by
    rw [List.append_assoc] at hcut
    exact List.append_cancel_left hcut
  have hwin' : win = a₁ ++ (i, g) :: (tr₂ ++ (i, x) :: b) := by simp [hsplit]
  have hshown := shown_along hw hc as hwin cfg.maxAttempts_pos (hstart email hresolves)
    (hlift email hresolves) (hapart email hresolves) hwin'
  have hbefore : (c.run as).trace = (c.trace ++ a₁) ++ (i, g) :: (tr₂ ++ (i, x) :: b) := by
    rw [htr]
    simp
  obtain ⟨c₁, hc₁, htrace, hstate⟩ := (hc.run as).before hbefore
  have hkeyed : Keyed g.before.db.lockouts := hstate ▸ (guarded_run hw hc₁).2
  -- and has found it locked
  rcases hrow : lockoutAt (lockoutRecordId email .user) g.before.db.lockouts with _ | l
  · have hnone := hshown.missing hrow
    have hseen := hshown.seen
    have hpos := cfg.maxAttempts_pos
    omega
  · have hlocked := hshown.locked l hrow hreached
    obtain ⟨u, hu⟩ := hshown.ends l hrow hlocked
    have hid : l.identifier = email :=
      hshown.own l hrow (lt_of_lt_of_le cfg.maxAttempts_pos (hreached.trans hshown.seen))
    have hfound : lockoutOf email .user g.before.db.lockouts = some l := by
      rw [hkeyed.lockoutOf_eq, hrow]
      simp [Option.filter, hid]
    obtain rfl : row = some l := (Except.ok.inj ha.reply).symm.trans hfound
    obtain ⟨now, hnow, y, hy, hsaw⟩ := hover l u rfl hlocked hu
    have hend : ∀ z ∈ win, clock z.2 < u := fun z hz =>
      (hlift email hresolves).expiry (i, g) (by rw [hwin']; simp) z hz l u hrow hlocked hu
    -- its clock has not reached the end of the lock
    have hearly : clock y < u := by
      rcases List.mem_append.mp (mem_entriesOf.mp hy) with hy | hy
      · have hsteps := hc₁.steps
        rw [htrace, hstate] at hsteps
        have hmono := hsteps.monotone (f := World.now) fun e => after_now e ▸ before_le_clock e
        have hle := hmono.2 i y (List.mem_append_left _ hy)
        rw [after_now] at hle
        exact (hle.trans (before_le_clock g)).trans_lt (hend (i, g) (by rw [hwin']; simp))
      · exact hend (i, y) (by rw [hsplit]; exact List.mem_append_left _ hy)
    rw [hsaw.2] at hearly
    exact absurd hnow (not_le.mpr hearly)

/-- **Guesses are bounded.** Between two unlocks of an account, the logins
    that find a wrong password are at most `max_attempts`, if whoever guesses
    wrong has read the record when the failures before the guess had been
    recorded in it. -/
theorem guesses_bounded {w : World} (hw : Keyed w.db.lockouts) {c : (server).Conf}
    (hc : Reachable w c) {as : List (server).Action} {win : List (Nat × Entry machine)}
    {cfg : LockoutConfig} {addr : Str} (hbetween : BetweenUnlocks cfg addr c (c.run as) win)
    (hrecorded : RecordedFirst (c.run as) c.trace.length addr cfg.maxAttempts) :
    win.countP (guesses (c.run as) addr) ≤ cfg.maxAttempts :=
  countP_le_of_before fun _ _ _ hsplit hx => hbetween.fewer_before hw hc hrecorded hsplit hx

/-! ## Spellings of one address -/

/-- A wrong guess that was submitted under the address `s`. -/
def spelled (c : (server).Conf) (s : Str) (x : Nat × Entry machine) : Bool :=
  wrongGuess c x = some s

/-- The attempts are made one after the other, with their failures recorded:
    whoever guesses wrong has read the record when the earlier failures had
    been recorded, each under the address that had been submitted. -/
def OneByOne (c : (server).Conf) (n : Nat) (addr : Str) (maxAttempts : Nat) : Prop :=
  ∀ tr₁ i g tr₂ x tr₃ email, c.trace = (tr₁ ++ (i, g) :: tr₂) ++ (i, x) :: tr₃ →
    n ≤ (tr₁ ++ (i, g) :: tr₂).length → wrongGuess c (i, x) = some email →
    resolvesTo addr email = true → g.stmt = .db (.lockout (.get email .user)) →
    ∀ s, ((tr₁ ++ (i, g) :: tr₂).drop n).countP (spelled c s) ≤
      (tally s maxAttempts (tr₁.drop n)).recorded

/-- Attempts made one after the other under one spelling have been recorded
    under that spelling. -/
theorem OneByOne.recordedFirst {c : (server).Conf} {n : Nat} {addr : Str} {maxAttempts : Nat}
    (h : OneByOne c n addr maxAttempts)
    (hspell : ∀ x ∈ c.trace.drop n, ∀ s, wrongGuess c x = some s → resolvesTo addr s = true →
      s = id) : RecordedFirst c n addr maxAttempts := by
  intro tr₁ i g tr₂ x tr₃ email htr hlen hguess hresolves hget
  have hdrop : c.trace.drop n = (tr₁ ++ (i, g) :: tr₂).drop n ++ (i, x) :: tr₃ := by
    rw [htr, List.drop_append_of_le_length hlen]
  obtain rfl : email = id := hspell (i, x) (by rw [hdrop]; simp) email hguess hresolves
  refine le_trans (List.countP_mono_left fun y hy hguess' => ?_)
    (h tr₁ i g tr₂ x tr₃ email htr hlen hguess hresolves hget email)
  obtain ⟨s, hs, hs'⟩ := (Option.any_eq_true _ _).mp hguess'
  have hmem : y ∈ c.trace.drop n := by
    rw [hdrop]
    exact List.mem_append_left _ hy
  exact decide_eq_true (hspell y hmem s hs hs' ▸ hs)

/-- **One spelling.** Of the login attempts for an account that are made one
    after the other, at most `max_attempts` find a wrong password between two
    unlocks, if all of these submit the address in the same spelling. -/
theorem guesses_bounded_of_spelling {w : World} (hw : Keyed w.db.lockouts) {c : (server).Conf}
    (hc : Reachable w c) {as : List (server).Action} {win : List (Nat × Entry machine)}
    {cfg : LockoutConfig} {addr : Str} (hbetween : BetweenUnlocks cfg addr c (c.run as) win)
    (hone : OneByOne (c.run as) c.trace.length addr cfg.maxAttempts) (spelling : Str)
    (hspell : ∀ x ∈ win, ∀ s, wrongGuess (c.run as) x = some s → resolvesTo addr s = true →
      s = spelling) :
    win.countP (guesses (c.run as) addr) ≤ cfg.maxAttempts := by
  have hrecorded : RecordedFirst (c.run as) c.trace.length addr cfg.maxAttempts := by
    refine hone.recordedFirst fun x hx => hspell x ?_
    rwa [hbetween.trace, List.drop_left] at hx
  exact countP_le_of_before fun _ _ _ hsplit hx => hbetween.fewer_before hw hc hrecorded hsplit hx

end

namespace Sample

/-- A login with a wrong password, and the recording of its failure. -/
def attempt (email ip : Str) : Endpoint := .login email "wrong".toList ip

def recording (email ip : Str) : Endpoint := .recordLockoutFailure email ip

def aliceAddress : Str := "a@b.c".toList

/-- Whether an entry leaves every lock alone, at time zero, and counts only
    for identifiers whose keys are their own. -/
def unlifting (e : Entry machine) : Bool :=
  clock e = 0 && e.before.db.lockouts.all (fun r => r.lockedUntil.all fun u => decide (0 < u)) &&
    match e.stmt with
    | .db (.lockout (.save _)) | .db (.lockout (.cleanup _ _)) => false
    | .db (.lockout (.countFailure key id ty)) =>
      key = lockoutRecordId id ty && id.all fun c => c ≠ ' ' && c ≠ '_'
    | _ => true

theorem clock_unlifting {e : Entry machine} (h : unlifting e = true) : clock e = 0 := by
  simp only [unlifting, Bool.and_eq_true, decide_eq_true_eq] at h
  exact h.1.1

theorem staysUnlifted_of {id : Str} {win : List (Nat × Entry machine)}
    (h : ∀ x ∈ win, unlifting x.2 = true) : StaysUnlifted id win where
  save x hx l hex := by
    have hx := h x hx
    simp [unlifting, hex.stmt] at hx
  cleanup x hx now stale hex := by
    have hx := h x hx
    simp [unlifting, hex.stmt] at hx
  expiry x hx y hy r u hr _ hu := by
    have hrows := h x hx
    simp only [unlifting, Bool.and_eq_true, List.all_eq_true, decide_eq_true_eq] at hrows
    have hpos := hrows.1.2 r (KeyedTable.mem_of_rowAt hr)
    rw [hu] at hpos
    rw [clock_unlifting (h y hy)]
    exact of_decide_eq_true hpos

theorem countsApart_of {id : Str} {win : List (Nat × Entry machine)}
    (h : ∀ x ∈ win, unlifting x.2 = true) : CountsApart id win := by
  intro x hx key id' ty hex hkey
  have hx := h x hx
  simp only [unlifting, hex.stmt, Bool.and_eq_true, List.all_eq_true, decide_eq_true_eq] at hx
  have hcollide := (lockoutRecordId_inj.mp (hkey.symm.trans hx.2.1)).2
  exact (Collide.eq hcollide hx.2.2).symm

/-- Whether a run has the sample's configuration everywhere and lifts no lock. -/
def quietRun (c : (server).Conf) : Bool :=
  c.threads.all (fun th => decide (th.req.cfg = config)) && c.trace.all fun x => unlifting x.2

/-- Choices after the prelude that unlock nothing. -/
theorem betweenUnlocks_of (as : List (server).Action)
    (h : quietRun (after (prelude ++ as)) = true) :
    ∃ win, BetweenUnlocks lockout aliceAddress (after prelude) ((after prelude).run as) win := by
  obtain ⟨hcfg, hquiet⟩ := Bool.and_eq_true_iff.mp h
  obtain ⟨win, hwin, -⟩ := (after prelude).run_trace as
  have hrun : (after prelude).run as = after (prelude ++ as) := (Conf.run_append _ _ _).symm
  have hall : ∀ x ∈ win, unlifting x.2 = true := by
    intro x hx
    refine List.all_eq_true.mp hquiet x ?_
    rw [← hrun, hwin]
    exact List.mem_append_right _ hx
  refine ⟨win, hwin, fun i r hr => ?_, rfl, fun id _ r hr => ?_, fun id _ => staysUnlifted_of hall,
    fun id _ => countsApart_of hall⟩
  · rw [hrun] at hr
    obtain ⟨th, hth, rfl⟩ := Option.map_eq_some_iff.mp hr
    have hth' := of_decide_eq_true (List.all_eq_true.mp hcfg th (List.mem_of_getElem? hth))
    rw [hth']
    rfl
  · have hempty : (after prelude).state.db.lockouts = [] := by decide +kernel
    rw [hempty] at hr
    cases hr

/-- The guesses of the window are those of the run. -/
theorem countP_window {as : List (server).Action} {win : List (Nat × Entry machine)}
    (h : BetweenUnlocks lockout aliceAddress (after prelude) ((after prelude).run as) win) :
    win.countP (guesses ((after prelude).run as) aliceAddress) + (after prelude).trace.countP
        (guesses (after (prelude ++ as)) aliceAddress) =
      (after (prelude ++ as)).trace.countP (guesses (after (prelude ++ as)) aliceAddress) := by
  have hrun : (after prelude).run as = after (prelude ++ as) := (Conf.run_append _ _ _).symm
  rw [← hrun, h.trace, List.countP_append, Nat.add_comm]

/-- Four logins of Alice's account at the same time. -/
def together : List (server).Action :=
  [start config (attempt aliceAddress "1".toList), start config (attempt aliceAddress "2".toList),
      start config (attempt aliceAddress "3".toList),
      start config (attempt aliceAddress "4".toList)] ++
    steps 2 2 ++ steps 3 2 ++ steps 4 2 ++ steps 5 2 ++
    steps 2 3 ++ steps 3 3 ++ steps 4 3 ++ steps 5 3

/-- All four passwords are evaluated, and found wrong. -/
theorem together_guesses : quietRun (after (prelude ++ together)) = true ∧
    (after prelude).trace.countP (guesses (after (prelude ++ together)) aliceAddress) = 0 ∧
    (after (prelude ++ together)).trace.countP
      (guesses (after (prelude ++ together)) aliceAddress) = 4 := by decide +kernel

theorem guesses_unbounded :
    ¬ ∀ (w : World) (c : (server).Conf) (as : List (server).Action)
      (win : List (Nat × Entry machine)) (cfg : LockoutConfig) (addr : Str),
      Keyed w.db.lockouts → Reachable w c → BetweenUnlocks cfg addr c (c.run as) win →
      win.countP (guesses (c.run as) addr) ≤ cfg.maxAttempts := by
  intro hall
  obtain ⟨hquiet, hbefore, hfour⟩ := together_guesses
  obtain ⟨win, hbetween⟩ := betweenUnlocks_of together hquiet
  have hle := hall (World.fresh 0) (after prelude) together win lockout aliceAddress keyed_nil
    (after_reachable prelude) hbetween
  have hcount := countP_window hbetween
  have hthree : lockout.maxAttempts = 3 := rfl
  omega

/-- An attempt and the recording of its failure, one after the other. -/
def attemptAlone (i : Nat) (email ip : Str) : List (server).Action :=
  start config (attempt email ip) :: steps i 12 ++ start config (recording email ip) ::
    steps (i + 1) 6

/-- Three attempts, one after the other, and a fourth that finds the account
    locked. -/
def inSuccession : List (server).Action :=
  attemptAlone 2 aliceAddress "1".toList ++ attemptAlone 4 aliceAddress "2".toList ++
    attemptAlone 6 aliceAddress "3".toList ++ attemptAlone 8 aliceAddress "4".toList

/-- Whether the guesses under the spelling `s` had been recorded whenever a
    login read a record. -/
def inTurn (c : (server).Conf) (n maxAttempts : Nat) (s : Str) : Bool :=
  (List.range c.trace.length).all fun q => match c.trace[q]? with
    | none => true
    | some x => match wrongGuess c x with
      | none => true
      | some email => (List.range q).all fun p => match c.trace[p]? with
        | none => true
        | some g => !(g.1 = x.1 && g.2.stmt = .db (.lockout (.get email .user))) ||
            decide (((c.trace.take q).drop n).countP (spelled c s) ≤
              (tally s maxAttempts ((c.trace.take p).drop n)).recorded)

theorem oneByOne_of {c : (server).Conf} {n maxAttempts : Nat} {addr : Str}
    (h : ∀ s, (∀ x ∈ c.trace, wrongGuess c x ≠ some s) ∨ inTurn c n maxAttempts s = true) :
    OneByOne c n addr maxAttempts := by
  intro tr₁ i g tr₂ x tr₃ email htr _ hguess _ hget s
  rcases h s with hnever | hturn
  · rw [List.countP_eq_zero.mpr fun y hy => ?_]
    · exact Nat.zero_le _
    · have hmem : y ∈ c.trace := by
        rw [htr]
        exact List.mem_append_left _ (List.mem_of_mem_drop hy)
      simpa [spelled] using hnever y hmem
  · have hq : (tr₁ ++ (i, g) :: tr₂).length < c.trace.length := by simp [htr]
    have hp : tr₁.length < (tr₁ ++ (i, g) :: tr₂).length := by simp
    have hx : c.trace[(tr₁ ++ (i, g) :: tr₂).length]? = some (i, x) := by
      rw [htr, List.getElem?_append_right (le_refl _), Nat.sub_self]
      rfl
    have hg : c.trace[tr₁.length]? = some (i, g) := by
      rw [htr, List.append_assoc, List.getElem?_append_right (le_refl _), Nat.sub_self]
      rfl
    have hqs := List.all_eq_true.mp hturn _ (List.mem_range.mpr hq)
    simp only [hx, hguess] at hqs
    have hps := List.all_eq_true.mp hqs _ (List.mem_range.mpr hp)
    simp only [hg, hget, decide_true, Bool.and_self, Bool.not_true, Bool.false_or] at hps
    have htake : c.trace.take (tr₁ ++ (i, g) :: tr₂).length = tr₁ ++ (i, g) :: tr₂ := by
      rw [htr, List.take_left]
    have htake' : c.trace.take tr₁.length = tr₁ := by
      rw [htr, List.append_assoc, List.take_left]
    rw [htake, htake'] at hps
    exact of_decide_eq_true hps

/-- Three of the four guess, and each has read what the others recorded. -/
theorem inSuccession_guesses : quietRun (after (prelude ++ inSuccession)) = true ∧
    (after prelude).trace.countP (guesses (after (prelude ++ inSuccession)) aliceAddress) = 0 ∧
    (after (prelude ++ inSuccession)).trace.countP
      (guesses (after (prelude ++ inSuccession)) aliceAddress) = 3 ∧
    (after (prelude ++ inSuccession)).trace.all (fun x =>
      (wrongGuess (after (prelude ++ inSuccession)) x).all fun s => s = aliceAddress) = true ∧
    inTurn (after (prelude ++ inSuccession)) (after prelude).trace.length lockout.maxAttempts
      aliceAddress = true := by decide +kernel

theorem spelling_inSuccession {x : Nat × Entry machine}
    (hx : x ∈ (after (prelude ++ inSuccession)).trace) {s : Str}
    (hs : wrongGuess (after (prelude ++ inSuccession)) x = some s) : s = aliceAddress := by
  obtain ⟨-, -, -, hspell, -⟩ := inSuccession_guesses
  have hx' := List.all_eq_true.mp hspell x hx
  rw [hs] at hx'
  exact of_decide_eq_true hx'

theorem oneByOne_inSuccession : OneByOne (after (prelude ++ inSuccession))
    (after prelude).trace.length aliceAddress lockout.maxAttempts := by
  obtain ⟨-, -, -, -, hturn⟩ := inSuccession_guesses
  apply oneByOne_of
  intro s
  by_cases ha : s = aliceAddress
  · subst ha
    exact .inr hturn
  · exact .inl fun x hx hs => ha (spelling_inSuccession hx hs)

theorem countP_inSuccession {win : List (Nat × Entry machine)}
    (h : BetweenUnlocks lockout aliceAddress (after prelude) ((after prelude).run inSuccession)
      win) :
    win.countP (guesses ((after prelude).run inSuccession) aliceAddress) = 3 := by
  obtain ⟨-, hbefore, hthree, -, -⟩ := inSuccession_guesses
  have hcount := countP_window h
  omega

/-- The window has as many guesses as it may have. -/
theorem guesses_bounded_inSuccession : ∃ win, ((after prelude).run inSuccession).trace =
      (after prelude).trace ++ win ∧
    win.countP (guesses ((after prelude).run inSuccession) aliceAddress) = 3 ∧
    win.countP (guesses ((after prelude).run inSuccession) aliceAddress) ≤
      lockout.maxAttempts := by
  have hrun : (after prelude).run inSuccession = after (prelude ++ inSuccession) :=
    (Conf.run_append _ _ _).symm
  obtain ⟨hquiet, -⟩ := inSuccession_guesses
  obtain ⟨win, hbetween⟩ := betweenUnlocks_of inSuccession hquiet
  refine ⟨win, hbetween.trace, countP_inSuccession hbetween, guesses_bounded (w := World.fresh 0)
    keyed_nil (after_reachable prelude) hbetween ?_⟩
  rw [hrun]
  exact oneByOne_inSuccession.recordedFirst fun x hx s hs _ =>
    spelling_inSuccession (List.mem_of_mem_drop hx) hs

/-! ## Another spelling -/

def otherSpelling : Str := "A@b.c".toList

/-- Three attempts under one spelling, and a fourth under another one. -/
def respelled : List (server).Action :=
  attemptAlone 2 aliceAddress "1".toList ++ attemptAlone 4 aliceAddress "2".toList ++
    attemptAlone 6 aliceAddress "3".toList ++ attemptAlone 8 otherSpelling "4".toList

/-- The fourth guess is made although three have been recorded. -/
theorem respelled_guesses : quietRun (after (prelude ++ respelled)) = true ∧
    (after prelude).trace.countP (guesses (after (prelude ++ respelled)) aliceAddress) = 0 ∧
    (after (prelude ++ respelled)).trace.countP
      (guesses (after (prelude ++ respelled)) aliceAddress) = 4 ∧
    (after (prelude ++ respelled)).trace.all (fun x =>
      (wrongGuess (after (prelude ++ respelled)) x).all fun s =>
        s = aliceAddress || s = otherSpelling) = true ∧
    inTurn (after (prelude ++ respelled)) (after prelude).trace.length lockout.maxAttempts
      aliceAddress = true ∧
    inTurn (after (prelude ++ respelled)) (after prelude).trace.length lockout.maxAttempts
      otherSpelling = true := by decide +kernel

theorem oneByOne_respelled : OneByOne (after (prelude ++ respelled)) (after prelude).trace.length
    aliceAddress lockout.maxAttempts := by
  obtain ⟨-, -, -, hall, halice, hother⟩ := respelled_guesses
  apply oneByOne_of
  intro s
  by_cases ha : s = aliceAddress
  · subst ha
    exact .inr halice
  · by_cases hA : s = otherSpelling
    · subst hA
      exact .inr hother
    · refine .inl fun x hx hs => ?_
      have hx' := List.all_eq_true.mp hall x hx
      rw [hs] at hx'
      simp [ha, hA] at hx'

theorem guesses_unbounded_of_spellings :
    ¬ ∀ (w : World) (c : (server).Conf) (as : List (server).Action)
      (win : List (Nat × Entry machine)) (cfg : LockoutConfig) (addr : Str),
      Keyed w.db.lockouts → Reachable w c → BetweenUnlocks cfg addr c (c.run as) win →
      OneByOne (c.run as) c.trace.length addr cfg.maxAttempts →
      win.countP (guesses (c.run as) addr) ≤ cfg.maxAttempts := by
  intro hall
  have hrun : (after prelude).run respelled = after (prelude ++ respelled) :=
    (Conf.run_append _ _ _).symm
  obtain ⟨hquiet, hbefore, hfour, -, -, -⟩ := respelled_guesses
  obtain ⟨win, hbetween⟩ := betweenUnlocks_of respelled hquiet
  have hle := hall (World.fresh 0) (after prelude) respelled win lockout aliceAddress keyed_nil
    (after_reachable prelude) hbetween (by rw [hrun]; exact oneByOne_respelled)
  have hcount := countP_window hbetween
  have hthree : lockout.maxAttempts = 3 := rfl
  omega

/-- So it has, if their spellings are looked at. -/
theorem guesses_bounded_of_spelling_inSuccession : ∃ win,
    ((after prelude).run inSuccession).trace = (after prelude).trace ++ win ∧
    win.countP (guesses ((after prelude).run inSuccession) aliceAddress) = 3 ∧
    win.countP (guesses ((after prelude).run inSuccession) aliceAddress) ≤
      lockout.maxAttempts := by
  have hrun : (after prelude).run inSuccession = after (prelude ++ inSuccession) :=
    (Conf.run_append _ _ _).symm
  obtain ⟨hquiet, -⟩ := inSuccession_guesses
  obtain ⟨win, hbetween⟩ := betweenUnlocks_of inSuccession hquiet
  refine ⟨win, hbetween.trace, countP_inSuccession hbetween, guesses_bounded_of_spelling
    (w := World.fresh 0) keyed_nil (after_reachable prelude) hbetween ?_ aliceAddress
    fun x hx s hs _ => ?_⟩
  · rw [hrun]
    exact oneByOne_inSuccession
  · rw [hrun] at hs
    refine spelling_inSuccession ?_ hs
    rw [← hrun, hbetween.trace]
    exact List.mem_append_right _ hx

end Sample

end SoulAuth
