import SoulAuth.Proofs.LockoutTable

/-! # What the operations of the lockout service do

Every operation stays with the record of its own identifier. A check writes
the record only if it has found it normal or its lock over, and lets nobody
pass whom it has found locked before the lock was over.
-/

namespace SoulAuth

open Framework Framework.System Framework.Prog

/-- The statement is about the record of an identifier. -/
def LockoutStmt.IsAbout (id : Str) (ty : LockoutType) : LockoutStmt → Prop
  | get id' ty' => id' = id ∧ ty' = ty
  | save l => l.identifier = id ∧ l.lockoutType = ty ∧ l.key = lockoutRecordId id ty
  | countFailure key id' ty' => id' = id ∧ ty' = ty ∧ key = lockoutRecordId id ty
  | lockIfReached key _ _ => key = lockoutRecordId id ty
  | attempts key => key = lockoutRecordId id ty
  | cleanup _ _ => False

theorem LockoutStmt.IsAbout.isAddressed {s : LockoutStmt} {id : Str} {ty : LockoutType}
    (h : s.IsAbout id ty) : s.IsAddressed := by
  cases s with
  | save l =>
    obtain ⟨rfl, rfl, hkey⟩ := h
    exact hkey
  | countFailure key id' ty' =>
    obtain ⟨rfl, rfl, hkey⟩ := h
    exact hkey
  | _ => trivial

/-- It leaves the rows under other keys alone. -/
theorem LockoutStmt.IsAbout.onRow_of_ne {s : LockoutStmt} {id : Str} {ty : LockoutType}
    (h : s.IsAbout id ty) {key : Str} (hne : key ≠ lockoutRecordId id ty) {now : Timestamp}
    {r : Option AccountLockout} (hr : ∀ r', r = some r' → r'.key = key) :
    s.onRow now key r = r := by
  cases s with
  | get id' ty' => rfl
  | attempts key' => rfl
  | cleanup t stale => exact h.elim
  | save l =>
    rw [LockoutStmt.onRow, if_neg fun heq => hne (heq.trans h.2.2)]
  | countFailure key' id' ty' =>
    rw [LockoutStmt.onRow, if_neg fun heq => hne (heq.trans h.2.2)]
  | lockIfReached key' m d =>
    cases r with
    | none => rfl
    | some r =>
      have hkey : r.key ≠ key' := fun heq => hne ((hr r rfl).symm.trans (heq.trans h))
      simp [LockoutStmt.onRow, AccountLockout.isReached, hkey]

section

variable [Platform] {h : List (Entry machine)} {id : Str} {ty : LockoutType}

/-- A reason for a check to write the record it has found. -/
def MayRewrite (id : Str) (ty : LockoutType) (h : List (Entry machine)) : Prop :=
  ∃ e ∈ h, ∃ l, Answered (.lockout (.get id ty)) (some l) e ∧ (l.status = .normal ∨
    ∃ u t, l.lockedUntil = some u ∧ u ≤ t ∧ ∃ e' ∈ h, SawTime t e')

/-- A statement on the record of an identifier, which saves it only for a
    reason. -/
def LockoutEntry (S : List (Entry machine) → Prop) (id : Str) (ty : LockoutType)
    (h : List (Entry machine)) (e : Entry machine) : Prop :=
  e.stmt = .now ∨ ∃ s, e.stmt = .db (.lockout s) ∧ s.IsAbout id ty ∧ ((∃ l, s = .save l) → S h)

/-- The cleanup compares with the clock it has read. -/
def CleanupEntry (h : List (Entry machine)) (e : Entry machine) : Prop :=
  e.stmt = .now ∨ ∃ t stale, e.stmt = .db (.lockout (.cleanup t stale)) ∧
    ∃ e' ∈ h, SawTime t e'

/-- What a check that lets pass has seen. -/
def Passed (cfg : LockoutConfig) (ty : LockoutType) (id : Str) (h : List (Entry machine)) : Prop :=
  cfg.enables ty = true → ∃ e ∈ h, ∃ row, Answered (.lockout (.get id ty)) row e ∧
    ∀ l u, row = some l → l.status = .locked → l.lockedUntil = some u →
      ∃ t, u ≤ t ∧ ∃ e' ∈ h, SawTime t e'

theorem MayRewrite.append (h₁ : MayRewrite id ty h) (t : List (Entry machine)) :
    MayRewrite id ty (h ++ t) := by
  obtain ⟨e, he, l, ha, hl⟩ := h₁
  refine ⟨e, by simp [he], l, ha, ?_⟩
  rcases hl with hl | ⟨u, now, hu, hle, e', he', hs⟩
  · exact .inl hl
  · exact .inr ⟨u, now, hu, hle, e', by simp [he'], hs⟩

variable {S : List (Entry machine) → Prop}

theorem lockoutEntry_now {ctx : Ctx} {w : World} : LockoutEntry S id ty h ⟨ctx, .now, w⟩ := .inl rfl

theorem lockoutEntry_read {ctx : Ctx} {w : World} {s : LockoutStmt} (hs : s.IsAbout id ty)
    (hsave : ∀ l, s ≠ .save l) : LockoutEntry S id ty h ⟨ctx, .db (.lockout s), w⟩ :=
  .inr ⟨s, rfl, hs, fun ⟨l, hl⟩ => absurd hl (hsave l)⟩

theorem lockoutEntry_save {ctx : Ctx} {w : World} {l : AccountLockout}
    (hl : l.identifier = id ∧ l.lockoutType = ty ∧ l.key = lockoutRecordId id ty) (hS : S h) :
    LockoutEntry S id ty h ⟨ctx, .db (.lockout (.save l)), w⟩ :=
  .inr ⟨.save l, rfl, hl, fun _ => hS⟩

/-! ## Reading and writing the record -/

/-- What the outcome of a lookup is known from. -/
def Found (id : Str) (ty : LockoutType) (h : List (Entry machine)) :
    Except AuthError AccountLockout → Prop
  | .ok l => l.identifier = id ∧ l.lockoutType = ty ∧
      ∃ e ∈ h, Answered (.lockout (.get id ty)) (some l) e
  | .error .userNotFound => ∃ e ∈ h, Answered (.lockout (.get id ty)) none e
  | .error _ => True

theorem getLockoutRecord_meets :
    (getLockoutRecord id ty).Meets (fun _ => True) (LockoutEntry S id ty) (Found id ty) h := by
  unfold getLockoutRecord
  refine meets_query_bind (fun ctx w _ => lockoutEntry_read ⟨rfl, rfl⟩ nofun)
    (fun e row _ ha => ?_) fun e x _ => trivial
  refine meets_orThrow.mpr ⟨fun l hl => ?_, fun hnone => ?_⟩
  · obtain rfl := hl
    have hfind : e.before.db.lockouts.find? (fun r => r.identifier = id && r.lockoutType = ty) =
        some l := Except.ok.inj ha.reply
    obtain ⟨hid, hty⟩ := Bool.and_eq_true _ _ ▸ List.find?_some hfind
    exact ⟨of_decide_eq_true hid, of_decide_eq_true hty, e, by simp, ha⟩
  · obtain rfl := hnone
    exact ⟨e, by simp, ha⟩

theorem saveLockoutRecord_meets {l : AccountLockout} (hid : l.identifier = id)
    (hty : l.lockoutType = ty) (hS : S h) {Q : List (Entry machine) → Except AuthError Unit → Prop}
    (hQ : ∀ t r, Q (h ++ t) r) :
    (saveLockoutRecord l).Meets (fun _ => True) (LockoutEntry S id ty) Q h := by
  refine meets_query (fun ctx w _ => lockoutEntry_save ⟨hid, hty, ?_⟩ hS) (fun e a _ _ => hQ _ _)
    fun e x _ => hQ _ _
  show lockoutRecordId l.identifier l.lockoutType = _
  rw [hid, hty]

/-! ## The operations -/

/-- The outcome of a check. -/
def CheckOutcome (cfg : LockoutConfig) (ty : LockoutType) (id : Str) (h : List (Entry machine))
    (r : Except AuthError LockoutCheckResult) : Prop :=
  ∀ res, r = .ok res → res.isLocked = false → Passed cfg ty id h

theorem resetStaleAttempts_meets {cfg : LockoutConfig} {l : AccountLockout}
    (hl : l.identifier = id ∧ l.lockoutType = ty)
    (hfound : ∃ e ∈ h, Answered (.lockout (.get id ty)) (some l) e) :
    (resetStaleAttempts cfg l).Meets (fun _ => True) (LockoutEntry (MayRewrite id ty) id ty)
      (fun _ r => ∀ l', r = .ok l' → l'.status = l.status ∧ l'.lockedUntil = l.lockedUntil) h := by
  unfold resetStaleAttempts
  refine meets_getNow_bind (fun _ _ _ => lockoutEntry_now) fun e t _ _ => ?_
  split
  · next hstale =>
    refine meets_getNow_bind (fun _ _ _ => lockoutEntry_now) fun e' t' _ _ => ?_
    have hreason : MayRewrite id ty (h ++ [e] ++ [e']) := by
      obtain ⟨e₀, he₀, ha⟩ := hfound
      exact ⟨e₀, by simp [he₀], l, ha, .inl hstale.2⟩
    refine Meets.bind (P := fun _ _ => True)
      (saveLockoutRecord_meets ?_ ?_ hreason fun _ _ => trivial) (fun t a _ => ?_)
      fun t x _ => nofun
    · exact hl.1
    · exact hl.2
    · rintro l' hl'
      cases hl'
      exact ⟨rfl, rfl⟩
  · rintro l' hl'
    cases hl'
    exact ⟨rfl, rfl⟩

theorem checkRecord_meets {cfg : LockoutConfig} {l : AccountLockout}
    (hl : l.identifier = id ∧ l.lockoutType = ty)
    (hfound : ∃ e ∈ h, Answered (.lockout (.get id ty)) (some l) e) :
    (checkRecord cfg ty l).Meets (fun _ => True) (LockoutEntry (MayRewrite id ty) id ty)
      (CheckOutcome cfg ty id) h := by
  obtain ⟨e₀, he₀, ha⟩ := hfound
  unfold checkRecord
  refine meets_getNow_bind (fun _ _ _ => lockoutEntry_now) fun e₁ t₁ _ hsaw₁ => ?_
  split
  · next hexpired =>
    -- the lock that was found is over
    obtain ⟨u, hu, hle⟩ : ∃ u, l.lockedUntil = some u ∧ u ≤ t₁ := by
      have hexp := hexpired.1
      unfold AccountLockout.isLockExpired at hexp
      split at hexp
      · next u hu => exact ⟨u, hu, of_decide_eq_true hexp⟩
      · cases hexp
    refine meets_getNow_bind (fun _ _ _ => lockoutEntry_now) fun e₂ t₂ _ _ => ?_
    have hreason : MayRewrite id ty (h ++ [e₁] ++ [e₂]) :=
      ⟨e₀, by simp [he₀], l, ha, .inr ⟨u, t₁, hu, hle, e₁, by simp, hsaw₁⟩⟩
    refine Meets.bind (P := fun _ _ => True)
      (saveLockoutRecord_meets ?_ ?_ hreason fun _ _ => trivial) (fun t a _ => ?_)
      fun t x _ => nofun
    · exact hl.1
    · exact hl.2
    · intro res _ _ _
      refine ⟨e₀, by simp [he₀], some l, ha, fun l' u' hl' _ hu' => ?_⟩
      cases hl'
      cases hu.symm.trans hu'
      exact ⟨t₁, hle, e₁, by simp, hsaw₁⟩
  · refine Meets.bind (resetStaleAttempts_meets hl ⟨e₀, by simp [he₀], ha⟩)
      (fun t l' hl' => ?_) fun t x _ => nofun
    obtain ⟨hstatus, huntil⟩ := hl' l' rfl
    refine meets_getNow_bind (fun _ _ _ => lockoutEntry_now) fun e₂ t₂ _ hsaw₂ => ?_
    split
    · refine meets_getNow_bind (fun _ _ _ => lockoutEntry_now) fun e₃ t₃ _ _ => ?_
      intro res hres hpass
      cases hres
      cases hpass
    · next hopen =>
      intro res _ _ _
      refine ⟨e₀, by simp [he₀], some l, ha, fun l₁ u hl₁ hlocked hu => ?_⟩
      cases hl₁
      refine ⟨t₂, ?_, e₂, by simp, hsaw₂⟩
      have hnot : l'.isLocked t₂ = false := by simpa using hopen
      rw [AccountLockout.isLocked, hstatus, huntil, hlocked, hu] at hnot
      exact le_of_not_gt (of_decide_eq_false hnot)

theorem checkLockout_meets (cfg : LockoutConfig) :
    (checkLockout cfg ty id).Meets (fun _ => True) (LockoutEntry (MayRewrite id ty) id ty)
      (CheckOutcome cfg ty id) h := by
  unfold checkLockout
  split
  · refine Meets.bind (P := fun h' r => ∀ found, r = .ok found → Found id ty h' found)
      (Meets.attempt getLockoutRecord_meets fun t r hr => ?_) (fun t found hf => ?_)
      fun t x _ => nofun
    · exact fun found hfound => by cases hfound; exact hr
    · have hf' := hf found rfl
      cases found with
      | ok l => exact checkRecord_meets ⟨hf'.1, hf'.2.1⟩ hf'.2.2
      | error x =>
        cases x with
        | userNotFound =>
          intro res _ _ _
          obtain ⟨e, he, ha⟩ := hf'
          exact ⟨e, he, none, ha, nofun⟩
        | _ => exact nofun
  · next hoff => exact fun _ _ _ hon => absurd hon hoff

/-- A reset saves the record in any case. -/
theorem resetAttempts_meets :
    (resetAttempts ty id).Meets (fun _ => True) (LockoutEntry (fun _ => True) id ty)
      (fun _ _ => True) h := by
  unfold resetAttempts
  refine Meets.bind (P := fun h' r => ∀ found, r = .ok found → Found id ty h' found)
    (Meets.attempt getLockoutRecord_meets fun t r hr found hfound => by cases hfound; exact hr)
    (fun t found hf => ?_) fun t x _ => trivial
  have hf' := hf found rfl
  cases found with
  | ok l =>
    refine meets_getNow_bind (fun _ _ _ => lockoutEntry_now) fun e now _ _ => ?_
    refine saveLockoutRecord_meets ?_ ?_ trivial fun _ _ => trivial
    · exact hf'.1
    · exact hf'.2.1
  | error x => cases x <;> trivial

theorem unlock_meets :
    (unlock ty id).Meets (fun _ => True) (LockoutEntry (fun _ => True) id ty)
      (fun _ _ => True) h := by
  unfold unlock
  refine Meets.bind (P := fun h' r => ∀ found, r = .ok found → Found id ty h' found)
    (Meets.attempt getLockoutRecord_meets fun t r hr found hfound => by cases hfound; exact hr)
    (fun t found hf => ?_) fun t x _ => trivial
  have hf' := hf found rfl
  cases found with
  | ok l =>
    refine meets_getNow_bind (fun _ _ _ => lockoutEntry_now) fun e now _ _ => ?_
    split
    · refine meets_getNow_bind (fun _ _ _ => lockoutEntry_now) fun e' now' _ _ => ?_
      refine Meets.bind (P := fun _ _ => True)
        (saveLockoutRecord_meets ?_ ?_ trivial fun _ _ => trivial) (fun _ _ _ => trivial)
        fun _ _ _ => trivial
      · exact hf'.1
      · exact hf'.2.1
    · trivial
  | error x => cases x <;> trivial

/-- A statement on the record of an identifier that does not save it. -/
def Stmt.Counts (id : Str) (ty : LockoutType) (s : Stmt) : Prop :=
  ∃ l, s = .db (.lockout l) ∧ l.IsAbout id ty ∧ ∀ r, l ≠ .save r

theorem ofExcept_only {S : Stmt → Prop} {α : Type} (r : Except AuthError α) :
    Prog.Only (M := machine) S (Prog.ofExcept r) := by
  cases r <;> trivial

theorem counts_only {l : LockoutStmt} (habout : l.IsAbout id ty) (hsave : ∀ r, l ≠ .save r) :
    Prog.Only (Stmt.Counts id ty) (query (.lockout l) : Req AuthError l.Reply) :=
  ⟨⟨l, rfl, habout, hsave⟩, fun r => by cases r <;> trivial⟩

/-- The statements that record a failure. -/
theorem recordFailedAttempt_only (cfg : LockoutConfig) :
    Prog.Only (Stmt.Counts id ty) (recordFailedAttempt cfg ty id) := by
  unfold recordFailedAttempt
  split
  · refine Prog.Only.bind (retryOnConflict_only ?_ _) fun _ => trivial
    exact Prog.Only.bind (Prog.Only.attempt (counts_only ⟨rfl, rfl, rfl⟩ nofun)) fun _ =>
      Prog.Only.bind (Prog.Only.attempt (counts_only rfl nofun)) fun _ =>
      Prog.Only.bind (Prog.Only.attempt (counts_only rfl nofun)) fun _ =>
      (ofExcept_only _).bind fun _ => (ofExcept_only _).bind fun _ =>
      (ofExcept_only _).bind fun _ => trivial
  · trivial

theorem recordFailedAttempt_meets (cfg : LockoutConfig) :
    (recordFailedAttempt cfg ty id).Meets (fun _ => True) (LockoutEntry (fun _ => False) id ty)
      (fun _ _ => True) h :=
  (recordFailedAttempt_only cfg).meets
    (fun _ _ _ ⟨l, hl, habout, hsave⟩ => .inr ⟨l, hl, habout, fun ⟨r, hr⟩ => hsave r hr⟩)
    fun _ _ _ => trivial

theorem cleanupExpiredLockouts_meets (cfg : LockoutConfig) :
    (cleanupExpiredLockouts cfg).Meets (fun _ => True) CleanupEntry (fun _ _ => True) h := by
  unfold cleanupExpiredLockouts
  refine meets_getNow_bind (fun _ _ _ => .inl rfl) fun e now _ hsaw => ?_
  exact meets_query (fun ctx w _ => .inr ⟨now, _, rfl, e, by simp, hsaw⟩) (fun _ _ _ _ => trivial)
    fun _ _ _ => trivial

/-! ## The rule of the service -/

/-- The record that an operation is about. -/
def LockoutCall.subject : LockoutCall → Option (Str × LockoutType)
  | check _ ty id | recordFailed _ ty id | reset ty id | unlock ty id => some (id, ty)
  | cleanup _ => none

/-- **The rule of the lockout service.** -/
def lockoutRule : Rule lockoutService where
  assumes _ := True
  entry
    | .check _ ty id => LockoutEntry (MayRewrite id ty) id ty
    | .recordFailed _ ty id => LockoutEntry (fun _ => False) id ty
    | .reset ty id | .unlock ty id => LockoutEntry (fun _ => True) id ty
    | .cleanup _ => CleanupEntry
  outcome
    | .check cfg ty id => fun h r =>
      ∀ res, r = .ok (.checked res) → res.isLocked = false → Passed cfg ty id h
    | _ => fun _ _ => True

theorem lockoutRule_met : lockoutRule.Met := by
  intro r
  cases r with
  | check cfg ty id =>
    refine Meets.bind (checkLockout_meets cfg) (fun t res hres => ?_) fun t x _ => nofun
    intro res' heq hopen
    cases heq
    exact hres res rfl hopen
  | recordFailed cfg ty id =>
    exact Meets.bind (recordFailedAttempt_meets cfg) (fun _ _ _ => trivial) fun _ _ _ => trivial
  | reset ty id =>
    exact Meets.bind resetAttempts_meets (fun _ _ _ => trivial) fun _ _ _ => trivial
  | unlock ty id =>
    exact Meets.bind unlock_meets (fun _ _ _ => trivial) fun _ _ _ => trivial
  | cleanup cfg =>
    exact Meets.bind (cleanupExpiredLockouts_meets cfg) (fun _ _ _ => trivial)
      fun _ _ _ => trivial

/-- The entries of an operation, by the record it is about. -/
theorem lockoutRule_entry {r : LockoutCall} {e : Entry machine} (hE : lockoutRule.entry r h e) :
    e.stmt = .now ∨ ∃ s, e.stmt = .db (.lockout s) ∧
      ((∃ id ty, r.subject = some (id, ty) ∧ s.IsAbout id ty) ∨
        ∃ cfg t stale, r = .cleanup cfg ∧ s = .cleanup t stale ∧ ∃ e' ∈ h, SawTime t e') := by
  cases r with
  | cleanup cfg =>
    rcases hE with hE | ⟨t, stale, hs, he'⟩
    · exact .inl hE
    · exact .inr ⟨_, hs, .inr ⟨cfg, t, stale, rfl, rfl, he'⟩⟩
  | check _ ty id | recordFailed _ ty id | reset ty id | unlock ty id =>
    rcases hE with hE | ⟨s, hs, habout, -⟩
    · exact .inl hE
    · exact .inr ⟨s, hs, .inl ⟨id, ty, rfl, habout⟩⟩

/-! ## Runs -/

/-- What an entry of an operation makes of the table. -/
theorem lockoutRule_after {r : LockoutCall} {e : Entry machine} (hE : lockoutRule.entry r h e)
    (hkeyed : Keyed e.before.db.lockouts) :
    Keyed e.after.db.lockouts ∧
      ((∃ s, ExecutesLockout e s ∧ ∀ key, lockoutAt key e.after.db.lockouts =
          s.onRow (clock e) key (lockoutAt key e.before.db.lockouts)) ∨
        (∀ s, ¬ ExecutesLockout e s) ∧ e.after.db.lockouts = e.before.db.lockouts) := by
  rcases lockouts_executed e with ⟨s, hex, hafter⟩ | ⟨hnot, hsame⟩
  · have haddressed : s.IsAddressed := by
      rcases lockoutRule_entry hE with hnow | ⟨s', hs', hcase⟩
      · exact absurd (hnow.symm.trans hex.stmt) nofun
      · obtain rfl := DbStmt.lockout.inj (Stmt.db.inj (hs'.symm.trans hex.stmt))
        rcases hcase with ⟨id, ty, -, habout⟩ | ⟨_, t, stale, -, rfl, -⟩
        · exact habout.isAddressed
        · trivial
    rw [hafter]
    exact ⟨hkeyed.exec haddressed, .inl ⟨s, hex, fun key => hkeyed.rowAt_exec haddressed key⟩⟩
  · exact ⟨by rw [hsame]; exact hkeyed, .inr ⟨hnot, hsame⟩⟩

/-- In every run of the service the rows stay under their keys. -/
theorem keyed_run {w : World} (hw : Keyed w.db.lockouts) {c : lockoutService.Conf}
    (hc : Reachable w c) : lockoutRule.Inv c ∧ Keyed c.state.db.lockouts := by
  refine hc.lift (R := lockoutRule) (P := fun _ w => Keyed w.db.lockouts) lockoutRule_met hw
    (fun c i r e _ _ hP hbefore _ hE => ?_) fun _ _ _ => trivial
  have hbefore' : e.before.db.lockouts = c.state.db.lockouts := by rw [hbefore]
  exact (lockoutRule_after hE (hbefore' ▸ hP)).1

/-! ## One identifier -/

/-- The row under the key of the identifier is its own. -/
def OwnRow (id : Str) (ty : LockoutType) (t : List AccountLockout) : Prop :=
  ∀ r, lockoutAt (lockoutRecordId id ty) t = some r → r.identifier = id

/-- The operation is not about another identifier with the same key. -/
def LockoutCall.Respects (id : Str) (ty : LockoutType) (r : LockoutCall) : Prop :=
  ∀ id', r.subject = some (id', ty) → lockoutRecordId id' ty = lockoutRecordId id ty → id' = id

omit [Platform] in
theorem OwnRow.lockoutOf_eq {t : List AccountLockout} (h : OwnRow id ty t) (hkeyed : Keyed t) :
    lockoutOf id ty t = lockoutAt (lockoutRecordId id ty) t := by
  rw [hkeyed.lockoutOf_eq]
  cases hrow : lockoutAt (lockoutRecordId id ty) t with
  | none => rfl
  | some r => simp [Option.filter, h r hrow]

/-- The statements of an operation that respects the identifier are about
    it, about a record under another key, or the cleanup. -/
theorem lockoutRule_about {r : LockoutCall} {e : Entry machine} (hE : lockoutRule.entry r h e)
    (hresp : r.Respects id ty) {s : LockoutStmt} (hex : ExecutesLockout e s) :
    (r.subject = some (id, ty) ∧ s.IsAbout id ty) ∨
    (∃ id' ty', s.IsAbout id' ty' ∧ lockoutRecordId id ty ≠ lockoutRecordId id' ty') ∨
    ∃ t stale, s = .cleanup t stale ∧ ∃ e' ∈ h, SawTime t e' := by
  rcases lockoutRule_entry hE with hnow | ⟨s', hs', hcase⟩
  · exact absurd (hnow.symm.trans hex.stmt) nofun
  · obtain rfl := DbStmt.lockout.inj (Stmt.db.inj (hs'.symm.trans hex.stmt))
    rcases hcase with ⟨id', ty', hsub, habout⟩ | ⟨_, t, stale, _, hs, he'⟩
    · by_cases hkey : lockoutRecordId id ty = lockoutRecordId id' ty'
      · obtain ⟨rfl, -⟩ := lockoutRecordId_inj.mp hkey
        obtain rfl := hresp id' hsub hkey.symm
        exact .inl ⟨hsub, habout⟩
      · exact .inr (.inl ⟨id', ty', habout, hkey⟩)
    · exact .inr (.inr ⟨t, stale, hs, he'⟩)

theorem OwnRow.next {r : LockoutCall} {e : Entry machine} (hE : lockoutRule.entry r h e)
    (hkeyed : Keyed e.before.db.lockouts) (hown : OwnRow id ty e.before.db.lockouts)
    (hresp : r.Respects id ty) : OwnRow id ty e.after.db.lockouts := by
  rcases (lockoutRule_after hE hkeyed).2 with ⟨s, hex, hrow⟩ | ⟨-, hsame⟩
  · intro r' hr'
    rw [hrow] at hr'
    rcases lockoutRule_about hE hresp hex with ⟨-, habout⟩ | ⟨id', ty', habout, hne⟩ | ⟨t, stale, rfl, -⟩
    · cases s with
      | get id' ty' => exact hown r' hr'
      | attempts key => exact hown r' hr'
      | cleanup t stale => exact habout.elim
      | save l =>
        obtain ⟨hid, -, hkey⟩ := habout
        rw [LockoutStmt.onRow, if_pos hkey.symm] at hr'
        cases hr'
        exact hid
      | countFailure key id' ty' =>
        obtain ⟨rfl, rfl, rfl⟩ := habout
        rw [LockoutStmt.onRow, if_pos rfl] at hr'
        cases hr'
        cases lockoutAt (lockoutRecordId id' ty') e.before.db.lockouts <;> rfl
      | lockIfReached key m d =>
        obtain ⟨r₀, hr₀, rfl⟩ := Option.map_eq_some_iff.mp hr'
        have hid := hown r₀ hr₀
        split <;> exact hid
    · rw [habout.onRow_of_ne hne fun r₀ hr₀ => KeyedTable.key_of_rowAt hr₀] at hr'
      exact hown r' hr'
    · exact hown r' (Option.filter_eq_some_iff.mp hr').1
  · rw [hsame]
    exact hown

end

end SoulAuth
