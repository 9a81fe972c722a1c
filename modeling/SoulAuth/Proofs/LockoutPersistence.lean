import SoulAuth.Proofs.LockoutCalls
import SoulAuth.Proofs.Tables

/-! # How long a lock lasts

A lock that an increment has set stays until its end, as long as nobody
saves a record that was read before the lock was set: the increments leave
a locked record locked, and a check that finds the lock does not write.
-/

namespace SoulAuth

open Framework Framework.System Framework.Prog

section

variable [Platform]

/-! ## Time -/

/-- The clock of a run never goes back. -/
theorem clock_le {w w' : World} {tr : List (Nat × Entry machine)}
    (h : Steps (S := lockoutService) w tr w') :
    w.now ≤ w'.now ∧ ∀ i e, (i, e) ∈ tr → clock e ≤ w'.now := by
  obtain ⟨hw, hall⟩ := h.monotone (f := World.now) fun e => after_now e ▸ before_le_clock e
  exact ⟨hw, fun i e hmem => after_now e ▸ hall i e hmem⟩

/-! ## A lock in force -/

variable {id : Str} {ty : LockoutType} {t : Timestamp}

/-- The record of the identifier is locked until `t`. -/
def LockedUntil (id : Str) (ty : LockoutType) (t : Timestamp) (w : World) : Prop :=
  ∃ r, lockoutAt (lockoutRecordId id ty) w.db.lockouts = some r ∧ r.identifier = id ∧
    r.status = .locked ∧ r.lockedUntil = some t

/-- The entry is an increment that locks the record of the identifier until `t`. -/
structure SetsLock (id : Str) (ty : LockoutType) (t : Timestamp) (e : Entry machine) : Prop where
  executes : ∃ maxAttempts duration,
    ExecutesLockout e (.lockIfReached (lockoutRecordId id ty) maxAttempts duration)
  locked : LockedUntil id ty t e.after
  new : ¬ LockedUntil id ty t e.before

omit [Platform] in
/-- A lookup finds the lock. -/
theorem LockedUntil.found {w : World} (h : LockedUntil id ty t w) (hkeyed : Keyed w.db.lockouts)
    {l : AccountLockout} (hl : lockoutOf id ty w.db.lockouts = some l) :
    l.status = .locked ∧ l.lockedUntil = some t := by
  obtain ⟨r, hrow, hid, hstatus, huntil⟩ := h
  rw [hkeyed.lockoutOf_eq, hrow] at hl
  simp only [Option.filter, hid, decide_true, if_true, Option.some.injEq] at hl
  subst hl
  exact ⟨hstatus, huntil⟩

omit [Platform] in
theorem LockedUntil.exists_found {w : World} (h : LockedUntil id ty t w)
    (hkeyed : Keyed w.db.lockouts) : ∃ l, lockoutOf id ty w.db.lockouts = some l := by
  obtain ⟨r, hrow, hid, -, -⟩ := h
  refine ⟨r, ?_⟩
  rw [hkeyed.lockoutOf_eq, hrow]
  simp [Option.filter, hid]

/-- What keeps a lock: every statement but the saving of the record, up to
    the end of the lock. -/
theorem LockedUntil.next {h : List (Entry machine)} {r : LockoutCall} {e : Entry machine}
    (hE : lockoutRule.entry r h e) (hkeyed : Keyed e.before.db.lockouts)
    (hresp : r.Respects id ty) (hlocked : LockedUntil id ty t e.before) (hbefore : clock e < t)
    (hclock : ∀ e' ∈ h, clock e' ≤ e.before.now)
    (hsave : ∀ l, ExecutesLockout e (.save l) → l.key ≠ lockoutRecordId id ty) :
    LockedUntil id ty t e.after := by
  obtain ⟨row, hrow₀, hid, hstatus, huntil⟩ := hlocked
  rcases (lockoutRule_after hE hkeyed).2 with ⟨s, hex, hrow⟩ | ⟨-, hsame⟩
  · unfold LockedUntil
    rw [hrow, hrow₀]
    rcases lockoutRule_about hE hresp hex with
      ⟨-, habout⟩ | ⟨id', ty', habout, hne⟩ | ⟨now, stale, rfl, e', he', hsaw⟩
    · cases s with
      | get id' ty' => exact ⟨row, rfl, hid, hstatus, huntil⟩
      | attempts key => exact ⟨row, rfl, hid, hstatus, huntil⟩
      | cleanup now stale => exact habout.elim
      | save l => exact absurd habout.2.2 (hsave l hex)
      | countFailure key id' ty' =>
        obtain ⟨rfl, rfl, rfl⟩ := habout
        exact ⟨AccountLockout.counted _ id' ty' (clock e) (some row),
          by rw [LockoutStmt.onRow, if_pos rfl], rfl, hstatus, huntil⟩
      | lockIfReached key m d =>
        have hnot : row.isReached key m = false := by simp [AccountLockout.isReached, hstatus]
        exact ⟨row, by simp [LockoutStmt.onRow, hnot], hid, hstatus, huntil⟩
    · rw [habout.onRow_of_ne hne fun r' hr' => KeyedTable.key_of_rowAt (hr' ▸ hrow₀)]
      exact ⟨row, rfl, hid, hstatus, huntil⟩
    · -- the cleanup has read its clock before the end of the lock
      have hnow : now ≤ e.before.now := hsaw.2 ▸ hclock e' he'
      have hlt : now < t := lt_of_le_of_lt (hnow.trans (before_le_clock e)) hbefore
      have hkept : row.isKept now stale = true := by
        have hdone : ¬ t < now := not_lt.mpr (le_of_lt hlt)
        simp [AccountLockout.isKept, hstatus, huntil, hdone]
      exact ⟨row, by simp [LockoutStmt.onRow, Option.filter, hkept], hid, hstatus, huntil⟩
  · unfold LockedUntil
    rw [hsame]
    exact ⟨row, hrow₀, hid, hstatus, huntil⟩

/-! ## Runs -/

/-- Request number `i` has started when the trace had more than `n` entries. -/
def StartedAfter (c : lockoutService.Conf) (i n : Nat) : Prop :=
  ∃ th, c.threads[i]? = some th ∧ n < th.startedAt

/-- Request number `i` lifts locks of the identifier. -/
def Lifts (id : Str) (ty : LockoutType) (c : lockoutService.Conf) (i : Nat) : Prop :=
  c.reqOf i = some (.reset ty id) ∨ c.reqOf i = some (.unlock ty id)

/-- A check that started after the lock was set saves nothing while the lock
    is in force: it has found the lock, and its clock shows no end of it. -/
theorem not_mayRewrite {w : World} (hw : Keyed w.db.lockouts) {c : lockoutService.Conf}
    (hc : Reachable w c) {tr₁ mid tr₃ : List (Nat × Entry machine)} {x : Nat × Entry machine}
    (htr : c.trace = tr₁ ++ x :: (mid ++ tr₃)) {k : Nat} (hstart : StartedAfter c k tr₁.length)
    (hlocked : ∀ j y, (j, y) ∈ mid → clock y < t → LockedUntil id ty t y.before)
    (hclock : ∀ j y, (j, y) ∈ mid → clock y < t) :
    ¬ MayRewrite id ty (entriesOf (S := lockoutService) k (tr₁ ++ x :: mid)) := by
  obtain ⟨th, hth, hlt⟩ := hstart
  have hinv := (keyed_run hw hc).1
  have hcut : c.trace = (tr₁ ++ [x]) ++ (mid ++ tr₃) := by simp [htr]
  have hlen : (tr₁ ++ [x]).length ≤ th.startedAt := by
    rw [List.length_append]
    exact hlt
  -- its entries stand after the lock was set
  have hmid : ∀ y ∈ entriesOf (S := lockoutService) k (tr₁ ++ x :: mid), (k, y) ∈ mid := by
    intro y hy
    have hmem : (k, y) ∈ (tr₁ ++ [x]) ++ mid := by simpa using mem_entriesOf.mp hy
    exact (List.mem_append.mp hmem).resolve_left (hinv.not_mem_before hth hcut hlen)
  rintro ⟨y, hy, l, ha, hreason⟩
  have hy' := hmid y hy
  obtain ⟨tr₄, tr₅, hsplit⟩ := List.append_of_mem hy'
  have hkeyed : Keyed y.before.db.lockouts := by
    have htr' : c.trace = (tr₁ ++ x :: tr₄) ++ (k, y) :: (tr₅ ++ tr₃) := by
      rw [htr, hsplit]
      simp
    obtain ⟨c₁, hc₁, -, hstate⟩ := hc.before htr'
    exact hstate ▸ (keyed_run hw hc₁).2
  have hl : lockoutOf id ty y.before.db.lockouts = some l := Except.ok.inj ha.reply
  obtain ⟨hstatus, huntil⟩ := (hlocked k y hy' (hclock k y hy')).found hkeyed hl
  rcases hreason with hnormal | ⟨u, now, hu, hle, y', hy'', hsaw⟩
  · rw [hstatus] at hnormal
    cases hnormal
  · obtain rfl := Option.some.inj (huntil.symm.trans hu)
    have hlate := hclock k y' (hmid y' hy'')
    rw [hsaw.2] at hlate
    exact absurd hle (not_le.mpr hlate)

/-- The lock stays as long as nobody lifts it and no call that was under way
    when it was set saves the record. -/
theorem locked_along {w : World} (hw : Keyed w.db.lockouts) {c : lockoutService.Conf}
    (hc : Reachable w c) (hresp : ∀ i r, c.reqOf i = some r → r.Respects id ty)
    {tr₁ tr₂ : List (Nat × Entry machine)} {i : Nat} {e : Entry machine}
    (htr : c.trace = tr₁ ++ (i, e) :: tr₂) (hset : LockedUntil id ty t e.after)
    (hfresh : ∀ k x l, (k, x) ∈ tr₂ → clock x < t → ExecutesLockout x (.save l) →
      l.key = lockoutRecordId id ty → StartedAfter c k tr₁.length)
    (hkept : ∀ k, Lifts id ty c k → ¬ StartedAfter c k tr₁.length) :
    ∀ k x, (k, x) ∈ tr₂ → clock x < t → LockedUntil id ty t x.before := by
  have hsteps : Steps (S := lockoutService) e.after tr₂ c.state := by
    have hall := hc.steps
    rw [htr] at hall
    exact hall.split_entry.2
  have key : ∀ mid w', Steps (S := lockoutService) e.after mid w' → (∃ tr₃, tr₂ = mid ++ tr₃) →
      (∀ k x, (k, x) ∈ mid → clock x < t → LockedUntil id ty t x.before) ∧
        (w'.now < t → LockedUntil id ty t w') := by
    intro mid w' hsteps
    induction hsteps with
    | nil => exact fun _ => ⟨fun _ _ h => absurd h List.not_mem_nil, fun _ => hset⟩
    | @snoc mid w' k x hsteps hx ih =>
      rintro ⟨tr₃, htr₃⟩
      rw [List.append_assoc] at htr₃
      obtain ⟨hlocked, hend⟩ := ih ⟨_, htr₃⟩
      have hbefore : clock x < t → LockedUntil id ty t x.before := fun hlt =>
        hx ▸ hend (hx ▸ lt_of_le_of_lt (before_le_clock x) hlt)
      refine ⟨fun j y hmem hlt => ?_, fun hlt => ?_⟩
      · rcases List.mem_append.mp hmem with hmem | hmem
        · exact hlocked j y hmem hlt
        · obtain ⟨rfl, rfl⟩ := Prod.mk.inj (List.mem_singleton.mp hmem)
          exact hbefore hlt
      · rw [after_now] at hlt
        have htr' : c.trace = (tr₁ ++ (i, e) :: mid) ++ (k, x) :: tr₃ := by
          rw [htr, htr₃]
          simp
        obtain ⟨c₁, hc₁, htrace, hstate⟩ := hc.before htr'
        have hkeyed : Keyed x.before.db.lockouts := hstate ▸ (keyed_run hw hc₁).2
        obtain ⟨r, hr, hE⟩ := (keyed_run hw hc).1.entries _ k x tr₃ htr'
        have hseen : ∀ y ∈ entriesOf (S := lockoutService) k (tr₁ ++ (i, e) :: mid), clock y ≤ x.before.now := by
          intro y hy
          have hc₁' := hc₁.steps
          rw [htrace, hstate] at hc₁'
          exact (clock_le hc₁').2 k y (mem_entriesOf.mp hy)
        refine (hbefore hlt).next hE hkeyed (hresp k r hr) hlt hseen fun l hex hkey => ?_
        have hmem : (k, x) ∈ tr₂ := by
          rw [htr₃]
          simp
        have hstart := hfresh k x l hmem hlt hex hkey
        -- nobody else may save it
        rcases lockoutRule_about hE (hresp k r hr) hex with
          ⟨hsubject, -⟩ | ⟨id', ty', habout, hne⟩ | ⟨now, stale, hcleanup, -⟩
        · cases r with
          | check cfg ty' id' =>
            cases hsubject
            rcases hE with hnow | ⟨s, hs, -, hreason⟩
            · exact absurd (hnow.symm.trans hex.stmt) nofun
            · obtain rfl := DbStmt.lockout.inj (Stmt.db.inj (hs.symm.trans hex.stmt))
              have hstop : ∀ j y, (j, y) ∈ mid → clock y < t := fun j y hmem =>
                lt_of_le_of_lt ((clock_le hsteps).2 j y hmem)
                  (hx ▸ lt_of_le_of_lt (before_le_clock x) hlt)
              have htr₄ : c.trace = tr₁ ++ (i, e) :: (mid ++ (k, x) :: tr₃) := by simp [htr']
              exact not_mayRewrite hw hc htr₄ hstart hlocked hstop (hreason ⟨l, rfl⟩)
          | recordFailed cfg ty' id' =>
            rcases hE with hnow | ⟨s, hs, -, hreason⟩
            · exact absurd (hnow.symm.trans hex.stmt) nofun
            · obtain rfl := DbStmt.lockout.inj (Stmt.db.inj (hs.symm.trans hex.stmt))
              exact hreason ⟨l, rfl⟩
          | reset ty' id' =>
            cases hsubject
            exact hkept k (.inl hr) hstart
          | unlock ty' id' =>
            cases hsubject
            exact hkept k (.inr hr) hstart
          | cleanup cfg => cases hsubject
        · exact hne (hkey.symm.trans habout.2.2)
        · cases hcleanup
  exact (key tr₂ c.state hsteps ⟨[], by simp⟩).1

/-- **A lock persists.** After an increment has locked the record until `t`,
    no check that looks before `t` passes unless a reset or an unlocking has
    been started since, as long as no call that was already under way saves
    the record while the lock is in force. -/
theorem lock_persists {w : World} (hw : Keyed w.db.lockouts) {c : lockoutService.Conf}
    (hc : Reachable w c) (hresp : ∀ i r, c.reqOf i = some r → r.Respects id ty)
    {tr₁ tr₂ : List (Nat × Entry machine)} {i : Nat} {e : Entry machine}
    (htr : c.trace = tr₁ ++ (i, e) :: tr₂) (hset : SetsLock id ty t e)
    (hfresh : ∀ k x l, (k, x) ∈ tr₂ → clock x < t → ExecutesLockout x (.save l) →
      l.key = lockoutRecordId id ty → StartedAfter c k tr₁.length)
    {j : Nat} {cfg : LockoutConfig} (hcheck : c.reqOf j = some (.check cfg ty id))
    (henabled : cfg.enables ty = true)
    (hafter : ∀ x, (j, x) ∈ tr₁ → x.stmt ≠ .db (.lockout (.get id ty)))
    (hread : ∀ x, (j, x) ∈ c.trace → x.stmt = .db (.lockout (.get id ty)) → clock x < t)
    (hclock : ∀ x, (j, x) ∈ c.trace → x.stmt = .now → clock x < t)
    {res : LockoutCheckResult} (hpass : c.Returned j (.ok (.checked res)))
    (hopen : res.isLocked = false) :
    ∃ k, Lifts id ty c k ∧ StartedAfter c k tr₁.length := by
  by_contra hnone
  have hlocked := locked_along hw hc hresp htr hset.locked hfresh
    fun k hk hstart => hnone ⟨k, hk, hstart⟩
  obtain ⟨q, hq, hout⟩ := (keyed_run hw hc).1.returned hpass
  obtain rfl := Option.some.inj (hq.symm.trans hcheck)
  obtain ⟨x, hx, row, ha, hover⟩ := hout res rfl hopen henabled
  have hmem := mem_entriesOf.mp hx
  have hlt := hread x hmem ha.stmt
  -- the check has read the record while the lock was in force
  have hin : (j, x) ∈ tr₂ := by
    rw [htr] at hmem
    rcases List.mem_append.mp hmem with hmem | hmem
    · exact absurd ha.stmt (hafter x hmem)
    · rcases List.mem_cons.mp hmem with heq | hmem
      · obtain ⟨-, rfl⟩ := Prod.mk.inj heq
        obtain ⟨m, d, hex⟩ := hset.executes
        exact absurd (hex.stmt.symm.trans ha.stmt) nofun
      · exact hmem
  have hkeyed : Keyed x.before.db.lockouts := by
    obtain ⟨tr₃, tr₄, hsplit⟩ := List.append_of_mem (mem_entriesOf.mp hx)
    obtain ⟨c₁, hc₁, -, hstate⟩ := hc.before hsplit
    exact hstate ▸ (keyed_run hw hc₁).2
  have hin_force := hlocked j x hin hlt
  obtain ⟨l, hl⟩ := hin_force.exists_found hkeyed
  obtain rfl : row = some l := (Except.ok.inj ha.reply).symm.trans hl
  obtain ⟨hstatus, huntil⟩ := hin_force.found hkeyed hl
  obtain ⟨now, hle, y, hy, hsaw⟩ := hover l t rfl hstatus huntil
  have hlate := hclock y (mem_entriesOf.mp hy) hsaw.1
  rw [hsaw.2] at hlate
  exact absurd hle (not_le.mpr hlate)

end

namespace Sample

/-- A run of the lockout service over an empty database. -/
def lockoutRun (as : List lockoutService.Action) : lockoutService.Conf :=
  (lockoutService.initial (World.fresh 0)).run as

theorem lockoutRun_reachable (as : List lockoutService.Action) :
    Reachable (World.fresh 0) (lockoutRun as) := ⟨as, rfl⟩

/-- The address that is locked. -/
def target : Str := "a@b.c".toList

def calls (i n : Nat) : List lockoutService.Action := List.replicate n (.step i .calm)

/-- A failure is recorded by request `i`, up to the counting. -/
def failure (i : Nat) : List lockoutService.Action :=
  .start (.recordFailed lockout .user target) :: calls i 1

/-- Two old failures, a check that finds them stale, and a third failure
    before the check has saved its reset. -/
def stale : List lockoutService.Action :=
  failure 0 ++ calls 0 2 ++ failure 1 ++ calls 1 2 ++
    (.start (.check lockout .user target) :: .step 2 ⟨4000, none⟩ :: calls 2 3) ++ failure 3

/-- The third failure locks the record, the check saves what it has read,
    and another check passes. -/
def overwritten : List lockoutService.Action :=
  stale ++ .step 3 .calm :: (calls 2 1 ++ .start (.check lockout .user target) :: calls 4 6)

/-- Three failures lock the record, an administrator unlocks it, and a check
    passes. -/
def third : List lockoutService.Action :=
  failure 0 ++ calls 0 2 ++ failure 1 ++ calls 1 2 ++ failure 2

def unlocked : List lockoutService.Action :=
  third ++ .step 2 .calm :: (.start (.unlock .user target) :: calls 3 4 ++
    .start (.check lockout .user target) :: calls 4 4)

/-- The statement that locks the record. -/
def lockStmt : Stmt :=
  .db (.lockout (.lockIfReached (lockoutRecordId target .user) lockout.maxAttempts
    lockout.lockoutDurationMinutes))

/-- Whether a record is locked until `t`. -/
def isLockedUntil (id : Str) (ty : LockoutType) (t : Timestamp) (w : World) : Bool :=
  (lockoutAt (lockoutRecordId id ty) w.db.lockouts).any fun r =>
    r.identifier = id && r.status = .locked && r.lockedUntil = some t

theorem lockedUntil_iff {id : Str} {ty : LockoutType} {t : Timestamp} {w : World} :
    LockedUntil id ty t w ↔ isLockedUntil id ty t w = true := by
  simp [LockedUntil, isLockedUntil, Option.any_eq_true, and_assoc]

theorem setsLock_lockStmt {w : World} {t : Timestamp}
    (hbefore : isLockedUntil target .user t w = false)
    (hafter : isLockedUntil target .user t (Entry.after (M := machine) ⟨.calm, lockStmt, w⟩) = true) :
    SetsLock target .user t ⟨.calm, lockStmt, w⟩ where
  executes := ⟨_, _, rfl, .inl rfl⟩
  locked := lockedUntil_iff.mpr hafter
  new := fun h => by
    rw [lockedUntil_iff, hbefore] at h
    cases h

/-- All requests are about the one address. -/
theorem respects_lockoutRun {as : List lockoutService.Action}
    (h : (lockoutRun as).threads.all (fun th => th.req.subject = some (target, .user)) = true)
    {i : Nat} {r : LockoutCall} (hr : (lockoutRun as).reqOf i = some r) :
    r.Respects target .user := by
  obtain ⟨th, hth, rfl⟩ := Option.map_eq_some_iff.mp hr
  have hsubject := of_decide_eq_true (List.all_eq_true.mp h th (List.mem_of_getElem? hth))
  intro id' hid' _
  cases hsubject.symm.trans hid'
  rfl

/-- The second check passes although the record has been locked. -/
theorem lock_overwritten :
    ¬ ∀ (id : Str) (ty : LockoutType) (t : Timestamp) (w : World) (c : lockoutService.Conf)
      (tr₁ tr₂ : List (Nat × Entry machine)) (i : Nat) (e : Entry machine) (j : Nat)
      (cfg : LockoutConfig) (res : LockoutCheckResult),
      Keyed w.db.lockouts → Reachable w c → (∀ i r, c.reqOf i = some r → r.Respects id ty) →
      c.trace = tr₁ ++ (i, e) :: tr₂ → SetsLock id ty t e →
      c.reqOf j = some (.check cfg ty id) → cfg.enables ty = true →
      (∀ x, (j, x) ∈ tr₁ → x.stmt ≠ .db (.lockout (.get id ty))) →
      (∀ x, (j, x) ∈ c.trace → x.stmt = .db (.lockout (.get id ty)) → clock x < t) →
      c.Returned j (.ok (.checked res)) → res.isLocked = false →
      ∃ k, Lifts id ty c k ∧ StartedAfter c k tr₁.length := by
  intro hall
  obtain ⟨tr₂, htr⟩ := (lockoutRun stale).trace_upcoming (i := 3) (s := lockStmt) (by decide +kernel)
    .calm (calls 2 1 ++ .start (.check lockout .user target) :: calls 4 6)
  have hrun : (lockoutRun stale).run (.step 3 .calm :: (calls 2 1 ++
      .start (.check lockout .user target) :: calls 4 6)) = lockoutRun overwritten :=
    (Conf.run_append _ _ _).symm
  rw [hrun] at htr
  have hclock : (lockoutRun overwritten).trace.all (fun x => decide (clock x.2 < 4900)) = true := by
    decide +kernel
  have hnew : (lockoutRun stale).trace.all (fun x => decide (x.1 ≠ 4)) = true := by decide +kernel
  have hnone : (lockoutRun overwritten).threads.all (fun th => match th.req with
      | .reset _ _ | .unlock _ _ => false
      | _ => true) = true := by decide +kernel
  obtain ⟨k, hlifts, -⟩ := hall target .user 4900 (World.fresh 0) (lockoutRun overwritten)
    (lockoutRun stale).trace tr₂ 3 ⟨.calm, lockStmt, (lockoutRun stale).state⟩ 4 lockout (.normal 3)
    keyed_nil (lockoutRun_reachable _) (fun i r => respects_lockoutRun (by decide +kernel)) htr
    (setsLock_lockStmt (by decide +kernel) (by decide +kernel)) (by decide +kernel) rfl
    (fun x hx => absurd rfl (of_decide_eq_true (List.all_eq_true.mp hnew _ hx)))
    (fun x hx _ => of_decide_eq_true (List.all_eq_true.mp hclock _ hx))
    (Conf.returned_of_outcome (by decide +kernel)) rfl
  rcases hlifts with hreq | hreq
  · obtain ⟨th, hth, hreq⟩ := Option.map_eq_some_iff.mp hreq
    have hno := List.all_eq_true.mp hnone th (List.mem_of_getElem? hth)
    rw [hreq] at hno
    cases hno
  · obtain ⟨th, hth, hreq⟩ := Option.map_eq_some_iff.mp hreq
    have hno := List.all_eq_true.mp hnone th (List.mem_of_getElem? hth)
    rw [hreq] at hno
    cases hno

/-- Whether the entry saves a record. -/
def saves (e : Entry machine) : Bool :=
  match e.stmt with
  | .db (.lockout (.save _)) => true
  | _ => false

theorem lock_persists_unlocked :
    ∃ k, Lifts target .user (lockoutRun unlocked) k ∧
      StartedAfter (lockoutRun unlocked) k (lockoutRun third).trace.length := by
  obtain ⟨tr₂, htr⟩ := (lockoutRun third).trace_upcoming (i := 2) (s := lockStmt) (by decide +kernel)
    .calm (.start (.unlock .user target) :: calls 3 4 ++
      .start (.check lockout .user target) :: calls 4 4)
  have hrun : (lockoutRun third).run (.step 2 .calm :: (.start (.unlock .user target) :: calls 3 4 ++
      .start (.check lockout .user target) :: calls 4 4)) = lockoutRun unlocked :=
    (Conf.run_append _ _ _).symm
  rw [hrun] at htr
  have hclock : (lockoutRun unlocked).trace.all (fun x => decide (clock x.2 < 900)) = true := by
    decide +kernel
  have hnew : (lockoutRun third).trace.all (fun x => decide (x.1 ≠ 4)) = true := by decide +kernel
  have hsaves : (lockoutRun unlocked).trace.all (fun x => !saves x.2 || x.1 = 3) = true := by
    decide +kernel
  have hstarted : ((lockoutRun unlocked).threads[3]?).any
      (fun th => decide ((lockoutRun third).trace.length < th.startedAt)) = true := by decide +kernel
  have hpass : (lockoutRun unlocked).Returned 4 (.ok (.checked (.normal 3))) :=
    Conf.returned_of_outcome (by decide +kernel)
  have hcheck : (lockoutRun unlocked).reqOf 4 = some (.check lockout .user target) := by
    decide +kernel
  refine lock_persists (t := 900) keyed_nil (lockoutRun_reachable unlocked)
    (fun i r => respects_lockoutRun (by decide +kernel)) htr
    (setsLock_lockStmt (by decide +kernel) (by decide +kernel))
    (fun k x l hx _ hex _ => ?_) hcheck rfl
    (fun x hx => absurd rfl (of_decide_eq_true (List.all_eq_true.mp hnew _ hx)))
    (fun x hx _ => of_decide_eq_true (List.all_eq_true.mp hclock _ hx))
    (fun x hx _ => of_decide_eq_true (List.all_eq_true.mp hclock _ hx))
    hpass rfl
  -- the only save is the one of the unlocking
  have hmem : (k, x) ∈ (lockoutRun unlocked).trace := by
    rw [htr]
    simp [hx]
  have hsave : saves x = true := by
    unfold saves
    rw [hex.stmt]
  have hthree : k = 3 := by simpa [hsave] using List.all_eq_true.mp hsaves _ hmem
  subst hthree
  obtain ⟨th, hth, hlt⟩ := (Option.any_eq_true _ _).mp hstarted
  exact ⟨th, hth, of_decide_eq_true hlt⟩

end Sample

end SoulAuth
