import SoulAuth.Proofs.FaultyRuns
import SoulAuth.Proofs.MfaEnrolment

/-! # Which TOTP codes are accepted

A code should be accepted when some step of the window has it and has not
been consumed. The program looks for the first step that has the code and asks
only then whether it has been consumed; the two differ when several steps of
the window have the same code.
-/

namespace SoulAuth

open Framework
open Framework.Prog (Runs)

variable [Platform]

/-- A check that nothing disturbs: the record in hand is the stored one, its
    secret can be decrypted, and the database answers. -/
structure CheckedAlone (cfg : Config) (m : UserMfa) (secret : Str) (cs : Nat → Ctx) (w : World) :
    Prop where
  keyed : (w.db.mfa.map UserMfa.userId).Nodup
  stored : factorOf m.userId w.db.mfa = some m
  secret : m.totpSecret = some secret
  key : cfg.mfaKeyConfigured = true
  answers : ∀ n, (cs n).fault = none

/-- The step of the window has the code, under a secret that TOTP accepts. -/
def HasCode (secret code : Str) (now : Timestamp) (step : Int) : Prop :=
  ∃ totp, totpOf secret = .ok totp ∧ Matches totp code now step

/-- A step of the window has the code, and is above the watermark. -/
def Acceptable (secret code : Str) (now : Timestamp) (watermark : Option Int) (step : Int) : Prop :=
  HasCode secret code now step ∧ ∀ last, watermark = some last → last < step

/-- The watermark that is stored for a user. -/
def watermarkOf (u : Str) (w : World) : Option Int :=
  (factorOf u w.db.mfa).bind UserMfa.lastTotpStep

/-- The check accepts exactly when some step is acceptable, and the watermark
    is such a step then. -/
def AcceptsAcceptable (cfg : Config) (m : UserMfa) (secret code : Str) (enable : Bool)
    (cs : Nat → Ctx) (w : World) : Prop :=
  let outcome := (acceptTotpCode cfg m code enable).runAlone cs w
  let acceptable := Acceptable secret code (clockAt cs w.now 0) m.lastTotpStep
  (outcome.1 = .ok true ↔ ∃ step, acceptable step) ∧
    (outcome.1 = .ok true → ∃ step, acceptable step ∧ watermarkOf m.userId outcome.2.1 = some step)

/-- The steps of the window that have the code are all above the watermark,
    or none is. -/
def AllOrNone (secret code : Str) (now : Timestamp) (watermark : Option Int) : Prop :=
  ∀ step other, Acceptable secret code now watermark step →
    HasCode secret code now other → Acceptable secret code now watermark other

section

variable {cfg : Config} {m : UserMfa} {secret code : Str} {enable : Bool} {cs : Nat → Ctx}
  {w : World} {now : Timestamp} {watermark : Option Int} {step : Int}

/-- What the check does with the step that it has found. -/
def StepTaken (m : UserMfa) (step : Int) (r : Except AuthError Bool) (w' : World) : Prop :=
  (r = .ok true ↔ ∀ last, m.lastTotpStep = some last → last < step) ∧
    (r = .ok true → watermarkOf m.userId w' = some step)

/-- What the check makes of the step that it has found, if any. -/
def Searched (m : UserMfa) (found : Option Int) (r : Except AuthError Bool) (w' : World) : Prop :=
  match found with
  | none => r = .ok false
  | some step => StepTaken m step r w'

/-- The statement accepts the steps above the watermark, and stores them. -/
theorem consumeTotpStep_taken (hkeyed : (w.db.mfa.map UserMfa.userId).Nodup)
    (hstored : factorOf m.userId w.db.mfa = some m) (hanswers : (cs 0).fault = none) :
    Runs (query (.mfa (.consumeTotpStep m.userId secret step enable)) : Req AuthError Bool) cs w
      fun r w' _ => StepTaken m step r w' := by
  obtain ⟨db, now, n⟩ := w
  have haccept := any_acceptsStep (u := m.userId) hkeyed step
  apply runs_exec (a := db.mfa.any fun m' => m'.acceptsStep m.userId step) rfl
  · intro _
    constructor
    · rw [Except.ok.injEq, haccept, hstored]
      simp
    · intro hok
      obtain ⟨m', hm', hlast⟩ := haccept.mp (Except.ok.inj hok)
      cases hstored.symm.trans hm'
      have hrow : m.acceptsStep m.userId step = true := by
        rw [UserMfa.acceptsStep]
        cases h : m.lastTotpStep with
        | none => simp
        | some last => simpa using hlast last h
      show (factorOf m.userId ((MfaStmt.consumeTotpStep m.userId secret step enable).exec
        db.mfa).2).bind UserMfa.lastTotpStep = some step
      rw [factorOf_exec, hstored]
      simp only [MfaStmt.onFactor, Option.map_some, hrow, if_true]
      rfl
  · intro x db' hfault _
    exact absurd hanswers hfault

/-- The check finds the first step that has the code, and takes it; a secret
    that TOTP does not accept is an error. -/
theorem acceptTotpCode_runs (code : Str) (enable : Bool) (h : CheckedAlone cfg m secret cs w) :
    Runs (acceptTotpCode cfg m code enable) cs w fun r w' _ =>
      match totpOf secret with
      | .error x => r = .error x
      | .ok totp => Searched m (matchTotpStep totp code (clockAt cs w.now 0)) r w' := by
  obtain ⟨hkeyed, hstored, hsecret, hkey, hanswers⟩ := h
  obtain ⟨db, now, n⟩ := w
  have hcipher : cipher cfg = .ok () := by rw [cipher, if_pos hkey]
  unfold acceptTotpCode verifyTotpCode
  rw [hsecret, hcipher]
  simp only [Prog.orThrow, Prog.ofExcept, Prog.done_ok_bind]
  cases htotp : totpOf secret with
  | error x => exact Prog.runs_done.mpr rfl
  | ok totp =>
    apply runs_getNow_bind.mpr
    show Runs (match matchTotpStep totp code (clockAt cs now 0) with
      | none => _
      | some step => _) _ _ _
    dsimp only
    generalize matchTotpStep totp code (clockAt cs now 0) = found
    cases found with
    | none => rfl
    | some step => exact consumeTotpStep_taken hkeyed hstored (hanswers 1)

/-- **Which codes are accepted.** What is accepted is what is acceptable,
    exactly when no consumed step of the window shares the code with a fresh
    one. -/
theorem accepts_acceptable_iff (h : CheckedAlone cfg m secret cs w) :
    AcceptsAcceptable cfg m secret code enable cs w ↔
      AllOrNone secret code (clockAt cs w.now 0) m.lastTotpStep := by
  have hruns := Runs.outcome (acceptTotpCode_runs code enable h)
  unfold AcceptsAcceptable
  generalize (acceptTotpCode cfg m code enable).runAlone cs w = outcome at hruns ⊢
  obtain ⟨r, w', t⟩ := outcome
  have hrefused : (∀ step, ¬ HasCode secret code (clockAt cs w.now 0) step) → r ≠ .ok true →
      (r = .ok true ↔ ∃ step,
        Acceptable secret code (clockAt cs w.now 0) m.lastTotpStep step) ∧
      (r = .ok true → ∃ step, Acceptable secret code (clockAt cs w.now 0) m.lastTotpStep step ∧
        watermarkOf m.userId w' = some step) := by
    intro hnone hr
    refine ⟨⟨fun hok => absurd hok hr, ?_⟩, fun hok => absurd hok hr⟩
    intro ⟨step, hstep⟩
    exact absurd hstep.1 (hnone step)
  cases htotp : totpOf secret with
  | error x =>
    -- no step has a code, and nothing is accepted
    rw [htotp] at hruns
    have hnone : ∀ step, ¬ HasCode secret code (clockAt cs w.now 0) step := by
      intro step ⟨totp, hread, _⟩
      cases htotp.symm.trans hread
    have herror : r = .error x := hruns
    refine ⟨fun _ step _ hstep => absurd hstep.1 (hnone step), fun _ => hrefused hnone ?_⟩
    rw [herror]
    exact nofun
  | ok totp =>
    rw [htotp] at hruns
    dsimp only at hruns
    have hcode : ∀ step, HasCode secret code (clockAt cs w.now 0) step ↔
        Matches totp code (clockAt cs w.now 0) step := by
      intro step
      constructor
      · intro ⟨totp', hread, hmatch⟩
        cases htotp.symm.trans hread
        exact hmatch
      · intro hmatch
        exact ⟨totp, htotp, hmatch⟩
    rcases matchTotpStep_first totp code (clockAt cs w.now 0) with
      ⟨hfound, hnone⟩ | ⟨step, hfound, hmatch, hfirst⟩
    · -- no step has the code
      rw [hfound] at hruns
      have hnone' : ∀ step, ¬ HasCode secret code (clockAt cs w.now 0) step :=
        fun step hstep => hnone step ((hcode step).mp hstep)
      have hfalse : r = .ok false := hruns
      refine ⟨fun _ step _ hstep => absurd hstep.1 (hnone' step), fun _ => hrefused hnone' ?_⟩
      rw [hfalse]
      exact nofun
    · rw [hfound] at hruns
      obtain ⟨htaken, hstored⟩ : StepTaken m step r w' := hruns
      have hhas := (hcode step).mpr hmatch
      constructor
      · -- a fresh step in the window: the first one is accepted, and the others are later
        intro hspec fresh other hfresh hother
        refine ⟨hother, fun last hlast => ?_⟩
        have habove := htaken.mp (hspec.1.mpr ⟨fresh, hfresh⟩) last hlast
        have hle := hfirst other ((hcode other).mp hother)
        show (last : Int) < other
        omega
      · intro hall
        have hstep : r = .ok true →
            Acceptable secret code (clockAt cs w.now 0) m.lastTotpStep step :=
          fun hok => ⟨hhas, htaken.mp hok⟩
        constructor
        · constructor
          · intro hok
            exact ⟨step, hstep hok⟩
          · intro ⟨fresh, hfresh⟩
            exact htaken.mpr (hall fresh step hfresh hhas).2
        · intro hok
          exact ⟨step, hstep hok, hstored hok⟩

end

end SoulAuth

namespace SoulAuth.Sample

/-- Alice's factor, which has consumed step 3. -/
def stepThreeConsumed : UserMfa where
  userId := alice
  status := .enabled
  method := .totp
  totpSecret := some firstSecret
  backupCodes := []
  lastTotpStep := some 3

/-- The middle of step 3. -/
def atStepThree : World :=
  { World.fresh 105 with db := { Db.empty with mfa := [stepThreeConsumed] } }

theorem checkedAlone_stepThree :
    CheckedAlone withFactors stepThreeConsumed firstSecret (fun _ => Ctx.calm) atStepThree where
  keyed := by decide
  stored := by decide
  secret := rfl
  key := rfl
  answers _ := rfl

theorem accepts_acceptable_stepThree :
    AcceptsAcceptable withFactors stepThreeConsumed firstSecret firstCode false
        (fun _ => Ctx.calm) atStepThree ↔
      AllOrNone firstSecret firstCode 105 (some 3) :=
  accepts_acceptable_iff checkedAlone_stepThree

/-- Steps 2 and 4 have the same code. It is refused for step 2, although step
    4 has not been consumed. -/
theorem totp_fresh_step_refused :
    ¬ AcceptsAcceptable withFactors stepThreeConsumed firstSecret firstCode false
      (fun _ => Ctx.calm) atStepThree := by
  intro h
  have hfresh : Acceptable firstSecret firstCode (clockAt (fun _ => Ctx.calm) atStepThree.now 0)
      stepThreeConsumed.lastTotpStep 4 := by
    refine ⟨⟨_, rfl, ⟨by decide, by decide, by decide⟩, by decide +kernel⟩, ?_⟩
    intro last hlast
    cases hlast
    decide
  have haccepts := h.1.mpr ⟨4, hfresh⟩
  have hrefused : ((acceptTotpCode withFactors stepThreeConsumed firstCode false).runAlone
      (fun _ => Ctx.calm) atStepThree).1 = .ok false := by decide +kernel
  rw [hrefused] at haccepts
  cases haccepts

end SoulAuth.Sample
