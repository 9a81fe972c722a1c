import SoulAuth.Proofs.LockoutCalls

/-! # The lockout records in the whole system

Every request of the server writes a lockout record under the key of its
own identifier, and a login has a password verified only after a check of
the submitted address has let it pass.
-/

namespace SoulAuth

open Framework Framework.System Framework.Prog

variable [Platform]

/-! ## The check before a login -/

/-- A step of the lockout service under the right key. -/
def LockoutStep (e : Entry machine) : Prop :=
  e.stmt = .now ∨ ∃ s, e.stmt = .db (.lockout s) ∧ s.IsAddressed

section

variable {h : List (Entry machine)} {id : Str} {ty : LockoutType}

theorem LockoutEntry.step {S : List (Entry machine) → Prop} {e : Entry machine}
    (hE : LockoutEntry S id ty h e) : LockoutStep e := by
  rcases hE with hnow | ⟨s, hs, habout, -⟩
  · exact .inl hnow
  · exact .inr ⟨s, hs, habout.isAddressed⟩

theorem CleanupEntry.step {e : Entry machine} (hE : CleanupEntry h e) : LockoutStep e := by
  rcases hE with hnow | ⟨t, stale, hs, -⟩
  · exact .inl hnow
  · exact .inr ⟨_, hs, trivial⟩

/-- The programs that only take steps of the lockout service. -/
abbrev Stepping {ε α : Type} (Q : List (Entry machine) → Except ε α → Prop)
    (h : List (Entry machine)) (p : Req ε α) : Prop :=
  p.Meets (fun _ => True) (fun _ => LockoutStep) Q h

/-- A program that keeps to the record of an identifier. -/
theorem stepping_of {ε α : Type} {S : List (Entry machine) → Prop}
    {Q : List (Entry machine) → Except ε α → Prop} {p : Req ε α}
    (hp : p.Meets (fun _ => True) (LockoutEntry S id ty) Q h) : Stepping Q h p :=
  hp.weaken (fun _ hw => hw) (fun _ _ _ hE => hE.step) fun _ _ hr => hr

theorem Passed.append {cfg : LockoutConfig} (hpass : Passed cfg ty id h)
    (t : List (Entry machine)) : Passed cfg ty id (h ++ t) := by
  intro hon
  obtain ⟨e, he, row, ha, hover⟩ := hpass hon
  refine ⟨e, by simp [he], row, ha, fun l u hl hlocked hu => ?_⟩
  obtain ⟨now, hle, e', he', hsaw⟩ := hover l u hl hlocked hu
  exact ⟨now, hle, e', by simp [he'], hsaw⟩

theorem checkWithReauth_stepping (cfg : LockoutConfig) :
    Stepping (CheckOutcome cfg ty id) h (checkWithReauth (checkLockout cfg ty id)) := by
  unfold checkWithReauth
  refine Meets.bind (P := fun h' r => ∀ first, r = .ok first → CheckOutcome cfg ty id h' first)
    (Meets.attempt (stepping_of (checkLockout_meets cfg)) fun t r hr first hfirst => by
      cases hfirst
      exact hr) (fun t first hf => ?_) fun t x _ => nofun
  cases first with
  | ok res => exact hf _ rfl
  | error x =>
    exact Meets.mapError (stepping_of (checkLockout_meets cfg)) (fun t res hres => hres)
      fun t x _ => nofun

/-- A login goes on only if a check of the address has let it pass. -/
theorem ensureNotLockedOut_stepping {cfg : Config} {email ip : Str} :
    Stepping (fun h' r => r = .ok () → Passed cfg.lockout .user email h') h
      (ensureNotLockedOut cfg email ip) := by
  unfold ensureNotLockedOut checkIpLockout checkUserLockout
  refine Meets.bind (checkWithReauth_stepping cfg.lockout) (fun t ipLockout _ => ?_)
    fun t x _ herr => nomatch herr
  refine meets_ofExcept_bind (fun _ _ => ?_) fun x _ herr => nomatch herr
  refine Meets.bind (checkWithReauth_stepping cfg.lockout) (fun t' res hres => ?_)
    fun t x _ herr => nomatch herr
  unfold refuseLocked
  split
  · exact fun herr => nomatch herr
  · next hopen => exact fun _ => hres res rfl (by simpa using hopen)

end

/-! ## The rule -/

/-- What holds of every statement of the server. -/
structure Guarded (c : Call) (h : List (Entry machine)) (e : Entry machine) : Prop where
  addressed : ∀ s, e.stmt = .db (.lockout s) → s.IsAddressed
  passed : ∀ email pw ip stored submitted, c.endpoint = .login email pw ip →
    e.stmt = .verifyPassword stored submitted → Passed c.cfg.lockout .user email h

section

variable {c : Call} {h : List (Entry machine)} {e : Entry machine}

theorem LockoutStep.guarded (hE : LockoutStep e) : Guarded c h e := by
  rcases hE with hnow | ⟨s, hs, haddressed⟩
  · constructor
    · intro s hs
      exact absurd (hnow.symm.trans hs) nofun
    · intro _ _ _ _ _ _ hverify
      exact absurd (hnow.symm.trans hverify) nofun
  · constructor
    · intro s' hs'
      obtain rfl := DbStmt.lockout.inj (Stmt.db.inj (hs.symm.trans hs'))
      exact haddressed
    · intro _ _ _ _ _ _ hverify
      exact absurd (hs.symm.trans hverify) nofun

/-- A statement that does not write the lockout records is addressed. -/
theorem addressed_of_within {L : List Effect} (hL : .writeLockout ∉ L) (hE : e.stmt.Within L)
    {s : LockoutStmt} (hs : e.stmt = .db (.lockout s)) : s.IsAddressed := by
  have hreads : DbStmt.effect (.lockout s) ≠ some .writeLockout := fun heff =>
    hL (hE _ (by rw [hs]; exact heff))
  cases s with
  | save l => exact absurd rfl hreads
  | countFailure key id ty => exact absurd rfl hreads
  | _ => trivial

theorem Stepping.respond {α : Type} {f : α → Reply} {p : Req AuthError α}
    (hp : Stepping (fun _ _ => True) [] p) :
    (respond f p).Meets (fun _ => True) (Guarded c) (fun _ _ => True) [] := by
  refine Prog.meets_bind.mpr (Meets.mapError (P := fun _ _ => True)
    (hp.weaken (fun _ hw => hw) (fun _ _ _ hE => hE.guarded) fun _ _ _ => trivial)
    (fun _ _ _ => trivial) fun _ _ _ => trivial)

/-- A check has let the login pass. -/
def LetIn (c : Call) (h : List (Entry machine)) : Prop :=
  ∀ email pw ip, c.endpoint = .login email pw ip → Passed c.cfg.lockout .user email h

/-- What follows the check of a login, or of its second step. -/
theorem LetIn.guarded (hin : LetIn c h) {ε α : Type} {p : Req ε α} {L : List Effect}
    (hp : Within L p) (hL : .writeLockout ∉ L) :
    p.Meets (fun _ => True) (Guarded c) (fun h' _ => LetIn c h') h := by
  refine hp.meets (fun t e _ hE => ⟨fun s hs => addressed_of_within hL hE hs, ?_⟩) fun t _ _ => ?_
  · intro email pw ip stored submitted hlogin _
    exact (hin email pw ip hlogin).append t
  · exact fun email pw ip hlogin => (hin email pw ip hlogin).append t

end

/-- The rule of the lockout records. -/
def guardRule : Rule server where
  assumes _ := True
  entry := Guarded
  outcome _ _ _ := True

theorem login_guarded {cfg : Config} {email password ip : Str} :
    (respond id (loginRoute cfg email password ip)).Meets (fun _ => True)
      (Guarded ⟨cfg, .login email password ip⟩) (fun _ _ => True) [] := by
  refine Prog.meets_bind.mpr (Meets.mapError (P := fun _ _ => True) ?_ (fun _ _ _ => trivial)
    fun _ _ _ => trivial)
  unfold loginRoute performLogin
  refine Meets.bind (P := fun h' r => ∀ a, r = .ok a → LetIn ⟨cfg, .login email password ip⟩ h')
    ?_ (fun t outcome hin => ?_) fun _ _ _ => trivial
  · refine Meets.bind (P := fun h' r => r = .ok () → Passed cfg.lockout .user email h')
      (ensureNotLockedOut_stepping.weaken (fun _ hw => hw) (fun _ _ _ hE => hE.guarded)
        fun _ _ hr => hr) (fun t a hpass => ?_) fun _ _ _ _ herr => nomatch herr
    have hin : LetIn ⟨cfg, .login email password ip⟩ ([] ++ t) := by
      rintro email' pw ip' ⟨⟩
      exact hpass rfl
    have hlogin : Within [.updateUser, .createSession]
        ((login cfg email password ip).mapError loginError) :=
      .mapError (login_within (by simp) (by simp))
    exact (hin.guarded hlogin (by decide)).weaken (fun _ hw => hw) (fun _ _ _ hE => hE) fun _ _ hr _ _ => hr
  · have hin' := hin outcome rfl
    cases outcome with
    | authenticated issued =>
      have hcookie : Within [] (withCookie issued >>= fun response =>
          (pure (Reply.loggedIn response) : Req AuthError Reply)) :=
        .bind (.bind within_getNow fun _ => within_pure) fun _ => within_pure
      exact (hin'.guarded hcookie (by decide)).weaken (fun _ hw => hw) (fun _ _ _ hE => hE)
        fun _ _ _ => trivial
    | mfaRequired challenge method => trivial

theorem mfaLoginVerify_guarded {cfg : Config} {challenge : MfaChallengeClaims}
    {factor : SecondFactor} {ip : Str} :
    (respondLogin (mfaLoginVerify cfg challenge factor ip)).Meets (fun _ => True)
      (Guarded ⟨cfg, .mfaLoginVerify challenge factor ip⟩) (fun _ _ => True) [] := by
  have hin : ∀ h, LetIn ⟨cfg, .mfaLoginVerify challenge factor ip⟩ h := fun _ _ _ _ => nofun
  refine Prog.meets_bind.mpr (Meets.mapError (P := fun _ _ => True) ?_ (fun _ _ _ => trivial)
    fun _ _ _ => trivial)
  refine Meets.bind (P := fun _ _ => True) ?_ (fun t issued _ => ?_) fun _ _ _ => trivial
  · unfold mfaLoginVerify
    have hdecode : Within [] (decodeMfaChallenge challenge) := .bind within_getNow fun _ => within_ensure
    refine Meets.bind ((hin []).guarded hdecode (by decide)) (fun t _ _ => ?_) fun _ _ _ => trivial
    refine Meets.bind (P := fun _ _ => True) (ensureNotLockedOut_stepping.weaken (fun _ hw => hw)
      (fun _ _ _ hE => hE.guarded) fun _ _ _ => trivial) (fun t' _ _ => ?_) fun _ _ _ => trivial
    have hrest : Within [.writeMfa, .updateUser, .createSession]
        ((verifySecondFactor cfg challenge.sub factor).mapError mfaVerificationError >>=
          fun verified => Prog.ensure (verified.1 = true) .invalidCredentials >>= fun _ =>
            completeMfaLogin cfg challenge.sub ip verified.2) := by
      refine .bind (.mapError ?_) fun _ => .bind within_ensure fun _ =>
        completeMfaLogin_within (by simp) (by simp)
      cases factor with
      | totp code => exact .bind (verifyTotp_within (by simp)) fun _ => within_pure
      | backupCode code => exact .bind (useBackupCode_within (by simp)) fun _ => within_pure
      | none => exact within_throw
    exact ((hin _).guarded hrest (by decide)).weaken (fun _ hw => hw) (fun _ _ _ hE => hE)
      fun _ _ _ => trivial
  · have hcookie : Within [] (withCookie issued) := .bind within_getNow fun _ => within_pure
    exact ((hin _).guarded hcookie (by decide)).weaken (fun _ hw => hw) (fun _ _ _ hE => hE)
      fun _ _ _ => trivial

/-- **Every request keeps to the rule of the lockout records.** -/
theorem guardRule_met : guardRule.Met := by
  rintro ⟨cfg, endpoint⟩
  show (endpoint.program cfg).Meets (fun _ => True) (Guarded ⟨cfg, endpoint⟩) (fun _ _ => True) []
  by_cases hwrites : Effect.writeLockout ∈ endpoint.effects
  · cases endpoint with
    | login email password ip => exact login_guarded
    | mfaLoginVerify challenge factor ip => exact mfaLoginVerify_guarded
    | recordLockoutFailure email ip =>
      have hrecord : ∀ {h : List (Entry machine)} {ty : LockoutType} {id : Str},
          Stepping (fun _ _ => True) h (recordFailedAttempt cfg.lockout ty id) :=
        stepping_of (recordFailedAttempt_meets cfg.lockout)
      exact Stepping.respond (Meets.bind (P := fun _ _ => True)
        (Meets.swallow hrecord fun _ _ _ => trivial)
        (fun _ _ _ => Meets.swallow hrecord fun _ _ _ => trivial) fun _ _ _ => trivial)
    | resetLockoutCounters email ip =>
      have hreset : ∀ {h : List (Entry machine)} {ty : LockoutType} {id : Str},
          Stepping (fun _ _ => True) h (resetAttempts ty id) := stepping_of resetAttempts_meets
      exact Stepping.respond (Meets.bind (P := fun _ _ => True)
        (Meets.swallow hreset fun _ _ _ => trivial)
        (fun _ _ _ => Meets.swallow hreset fun _ _ _ => trivial) fun _ _ _ => trivial)
    | lockoutStatus scope identifier =>
      refine Stepping.respond (meets_ofExcept_bind (fun id _ => ?_) fun _ _ => trivial)
      exact (stepping_of (checkLockout_meets cfg.lockout)).weaken (fun _ hw => hw)
        (fun _ _ _ hE => hE) fun _ _ _ => trivial
    | unlock scope identifier =>
      exact Stepping.respond (meets_ofExcept_bind (fun id _ => stepping_of unlock_meets)
        fun _ _ => trivial)
    | cleanupLockouts =>
      exact Stepping.respond ((cleanupExpiredLockouts_meets cfg.lockout).weaken (fun _ hw => hw)
        (fun _ _ _ hE => hE.step) fun _ _ hr => hr)
    | _ => exact absurd hwrites (by simp [Endpoint.effects])
  · refine (Call.within ⟨cfg, endpoint⟩).meets
      (fun t e _ hE => ⟨fun s hs => addressed_of_within hwrites hE hs, ?_⟩) fun _ _ _ => trivial
    rintro email pw ip stored submitted rfl _
    exact absurd hwrites (by simp [Endpoint.effects])

/-- In every run of the server the rows stay under their keys. -/
theorem guarded_run {w : World} (hw : Keyed w.db.lockouts) {c : (server).Conf}
    (hc : Reachable w c) : guardRule.Inv c ∧ Keyed c.state.db.lockouts := by
  refine hc.lift (R := guardRule) (P := fun _ w => Keyed w.db.lockouts) guardRule_met hw
    (fun c i r e _ _ hP hbefore _ hE => ?_) fun _ _ _ => trivial
  have hkeyed : Keyed e.before.db.lockouts := by
    rw [hbefore]
    exact hP
  rcases lockouts_executed e with ⟨s, hex, hafter⟩ | ⟨-, hsame⟩
  · rw [hafter]
    exact hkeyed.exec (hE.addressed s hex.stmt)
  · rw [hsame]
    exact hkeyed

end SoulAuth
