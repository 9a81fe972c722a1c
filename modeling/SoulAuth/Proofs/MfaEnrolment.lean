import SoulAuth.Proofs.MfaConduct
import SoulAuth.Proofs.Tables

/-! # The life of a second factor

A record of a second factor lives from the `setup_totp` that saves it to
the statement that replaces or deletes it. Within one life every factor is
accepted once. What ends a life, and what the record holds meanwhile,
depends on reads that other requests may have overtaken.
-/

namespace SoulAuth

open Framework Framework.System Framework.KeyedTable

variable [Platform]

/-! ## Accepted factors -/

/-- The TOTP step that an entry accepts for a user. -/
def acceptedStep (u : Str) (e : Entry machine) : Option Int :=
  match e.stmt with
  | .db (.mfa (.consumeTotpStep id _ step _)) =>
    if id = u ∧ e.ctx.fault = none ∧
        (e.before.db.mfa.any fun m => m.acceptsStep u step) = true then some step
    else none
  | _ => none

/-- The stored backup code that an entry accepts for a user. -/
def acceptedCode (u : Str) (e : Entry machine) : Option Str :=
  match e.stmt with
  | .db (.mfa (.consumeBackupCode id used)) =>
    if id = u ∧ e.ctx.fault = none ∧
        (e.before.db.mfa.any fun m => m.userId = u && m.backupCodes.contains used) = true then
      some used
    else none
  | _ => none

/-- The entry replaces the record of the user, or deletes it. -/
def replacesFactor (u : Str) (e : Entry machine) : Bool :=
  match e.stmt with
  | .db (.mfa s) => s.replaces u && (e.ctx.fault = none || e.ctx.fault = some .lostReply)
  | _ => false

/-- The entry accepts the factor of the user, as a request that presents it
    requires. -/
def Accepts (u : Str) (e : Entry machine) : SecondFactor → Prop
  | .totp code => ∃ secret step now, codeStep secret code now = some step ∧
      acceptedStep u e = some step
  | .backupCode code => ∃ used, verifyBackupCode used code = true ∧ acceptedCode u e = some used
  | .none => False

section

variable {u : Str} {e : Entry machine}

theorem acceptedStep_of_answered {secret : Str} {step : Int} {enable : Bool}
    (h : Answered (.mfa (.consumeTotpStep u secret step enable)) true e) :
    acceptedStep u e = some step := by
  have hreply : (e.before.db.mfa.any fun m => m.acceptsStep u step) = true := by
    simpa [DbStmt.exec, MfaStmt.exec] using h.reply
  unfold acceptedStep
  rw [h.stmt]
  exact if_pos ⟨rfl, h.sound, hreply⟩

theorem acceptedCode_of_answered {used : Str}
    (h : Answered (.mfa (.consumeBackupCode u used)) true e) :
    acceptedCode u e = some used := by
  have hreply : (e.before.db.mfa.any fun m => m.userId = u && m.backupCodes.contains used) =
      true := by
    have hr := h.reply
    simp only [DbStmt.exec, MfaStmt.exec] at hr
    exact Except.ok.inj hr
  unfold acceptedCode
  rw [h.stmt]
  exact if_pos ⟨rfl, h.sound, hreply⟩

theorem acceptedStep_some {step : Int} (h : acceptedStep u e = some step) :
    ∃ secret enable, Executes (.mfa (.consumeTotpStep u secret step enable)) e ∧
      (e.before.db.mfa.any fun m => m.acceptsStep u step) = true := by
  unfold acceptedStep at h
  split at h
  · next id secret step' enable hs =>
    split at h
    · next hc =>
      obtain ⟨rfl, hfault, haccept⟩ := hc
      cases h
      exact ⟨secret, enable, ⟨hs, .inl hfault⟩, haccept⟩
    · cases h
  · cases h

theorem acceptedCode_some {used : Str} (h : acceptedCode u e = some used) :
    Executes (.mfa (.consumeBackupCode u used)) e ∧
      (e.before.db.mfa.any fun m => m.userId = u && m.backupCodes.contains used) = true := by
  unfold acceptedCode at h
  split at h
  · next id used' hs =>
    split at h
    · next hc =>
      obtain ⟨rfl, hfault, haccept⟩ := hc
      cases h
      exact ⟨⟨hs, .inl hfault⟩, haccept⟩
    · cases h
  · cases h

theorem replacesFactor_of_executes {s : MfaStmt} (hs : Executes (.mfa s) e)
    (hr : s.replaces u = true) : replacesFactor u e = true := by
  unfold replacesFactor
  rw [hs.stmt]
  rcases hs.executed with hf | hf <;> simp [hr, hf]

/-- Within one life of a record, its watermark only grows and its codes only
    go. -/
theorem factor_kept (hkept : replacesFactor u e = false) {m' : UserMfa}
    (hm' : factorOf u e.after.db.mfa = some m') :
    ∃ m, factorOf u e.before.db.mfa = some m ∧ m'.backupCodes.Sublist m.backupCodes ∧
      (m'.lastTotpStep = m.lastTotpStep ∨
        ∃ step, m'.lastTotpStep = some step ∧ ∀ last, m.lastTotpStep = some last → last < step) := by
  rcases factor_after u e with ⟨s, hs, hafter⟩ | ⟨-, hafter⟩
  · rw [hafter] at hm'
    have hnot : s.replaces u = false := by
      by_contra hr
      rw [replacesFactor_of_executes hs (by simpa using hr)] at hkept
      cases hkept
    cases s with
    | get id => exact ⟨m', hm', List.Sublist.refl _, .inl rfl⟩
    | consumeTotpStep id secret step enable =>
      obtain ⟨m, hm, rfl⟩ := Option.map_eq_some_iff.mp hm'
      by_cases haccept : m.acceptsStep id step = true
      · rw [if_pos haccept]
        refine ⟨m, hm, List.Sublist.refl _, .inr ⟨step, rfl, fun last hlast => ?_⟩⟩
        simp only [UserMfa.acceptsStep, hlast, Bool.and_eq_true, decide_eq_true_eq] at haccept
        exact haccept.2
      · rw [if_neg haccept]
        exact ⟨m, hm, List.Sublist.refl _, .inl rfl⟩
    | consumeBackupCode id used =>
      obtain ⟨m, hm, rfl⟩ := Option.map_eq_some_iff.mp hm'
      refine ⟨m, hm, ?_⟩
      split
      · exact ⟨List.filter_sublist, .inl rfl⟩
      · exact ⟨List.Sublist.refl _, .inl rfl⟩
    | save row =>
      have hu : ¬ u = row.userId := fun hu => by simp [MfaStmt.replaces, hu] at hnot
      rw [MfaStmt.onFactor, if_neg hu] at hm'
      exact ⟨m', hm', List.Sublist.refl _, .inl rfl⟩
    | delete id =>
      have hu : ¬ u = id := fun hu => by simp [MfaStmt.replaces, hu] at hnot
      rw [MfaStmt.onFactor, if_neg hu] at hm'
      exact ⟨m', hm', List.Sublist.refl _, .inl rfl⟩
  · rw [hafter] at hm'
    exact ⟨m', hm', List.Sublist.refl _, .inl rfl⟩

/-- An accepted step is above the watermark, and becomes it. -/
theorem acceptedStep_raises (hn : (e.before.db.mfa.map UserMfa.userId).Nodup) {step : Int}
    (h : acceptedStep u e = some step) :
    (∃ m, factorOf u e.before.db.mfa = some m ∧
      ∀ last, m.lastTotpStep = some last → last < step) ∧
    ∀ m', factorOf u e.after.db.mfa = some m' → m'.lastTotpStep = some step := by
  obtain ⟨secret, enable, hex, haccept⟩ := acceptedStep_some h
  obtain ⟨m, hm, hlast⟩ := (any_acceptsStep hn _).mp haccept
  refine ⟨⟨m, hm, hlast⟩, fun m' hm' => ?_⟩
  have hrow : m.acceptsStep u step = true := by
    rw [UserMfa.acceptsStep, factorOf_userId hm]
    cases h : m.lastTotpStep with
    | none => simp
    | some last => simpa using hlast last h
  have hafter : e.after.db.mfa = ((MfaStmt.consumeTotpStep u secret step enable).exec
      e.before.db.mfa).2 := by
    rw [hex.after]
    rfl
  rw [hafter, factorOf_exec, hm] at hm'
  simp only [MfaStmt.onFactor, Option.map_some, hrow, if_true] at hm'
  cases hm'
  rfl

/-- An accepted code is among the codes, and no longer after that. -/
theorem acceptedCode_spends (hn : (e.before.db.mfa.map UserMfa.userId).Nodup) {used : Str}
    (h : acceptedCode u e = some used) :
    (∃ m, factorOf u e.before.db.mfa = some m ∧ used ∈ m.backupCodes) ∧
    ∀ m', factorOf u e.after.db.mfa = some m' → used ∉ m'.backupCodes := by
  obtain ⟨hex, haccept⟩ := acceptedCode_some h
  obtain ⟨m, hm, hmem⟩ := (any_holds hn).mp haccept
  refine ⟨⟨m, hm, hmem⟩, fun m' hm' => ?_⟩
  have hafter : e.after.db.mfa = ((MfaStmt.consumeBackupCode u used).exec
      e.before.db.mfa).2 := by
    rw [hex.after]
    rfl
  have hholds : (m.userId = u && m.backupCodes.contains used) = true := by
    simp [factorOf_userId hm, hmem]
  rw [hafter, factorOf_exec, hm] at hm'
  simp only [MfaStmt.onFactor, Option.map_some, hholds, if_true] at hm'
  cases hm'
  simp [UserMfa.without]

end

/-- The steps accepted for a user along a trace. -/
def acceptedSteps (u : Str) (tr : List (Nat × Entry machine)) : List Int :=
  tr.filterMap fun x => acceptedStep u x.2

/-- The backup codes accepted for a user along a trace. -/
def acceptedCodes (u : Str) (tr : List (Nat × Entry machine)) : List Str :=
  tr.filterMap fun x => acceptedCode u x.2

/-- What has been accepted in one life of a record, and the record. -/
structure FactorLife (u : Str) (tr : List (Nat × Entry machine)) (t : List UserMfa) : Prop where
  keyed : (t.map UserMfa.userId).Nodup
  increasing : (acceptedSteps u tr).Pairwise (· < ·)
  watermark : ∀ m, factorOf u t = some m → ∀ step ∈ acceptedSteps u tr,
    ∃ last, m.lastTotpStep = some last ∧ step ≤ last
  once : (acceptedCodes u tr).Nodup
  spent : ∀ m, factorOf u t = some m → ∀ used ∈ acceptedCodes u tr, used ∉ m.backupCodes

section

variable {u : Str} {tr : List (Nat × Entry machine)} {i : Nat} {e : Entry machine}

theorem acceptedSteps_snoc :
    acceptedSteps u (tr ++ [(i, e)]) = acceptedSteps u tr ++ (acceptedStep u e).toList := by
  unfold acceptedSteps
  cases h : acceptedStep u e <;> simp [h]

theorem acceptedCodes_snoc :
    acceptedCodes u (tr ++ [(i, e)]) = acceptedCodes u tr ++ (acceptedCode u e).toList := by
  unfold acceptedCodes
  cases h : acceptedCode u e <;> simp [h]

/-- One entry within a life. -/
theorem FactorLife.next (hlife : FactorLife u tr e.before.db.mfa)
    (hkept : replacesFactor u e = false) : FactorLife u (tr ++ [(i, e)]) e.after.db.mfa where
  keyed := nodup_factors_after hlife.keyed
  increasing := by
    rw [acceptedSteps_snoc]
    cases h : acceptedStep u e with
    | none => simpa using hlife.increasing
    | some step =>
      obtain ⟨⟨m, hm, hlast⟩, -⟩ := acceptedStep_raises hlife.keyed h
      refine List.pairwise_append.mpr ⟨hlife.increasing, by simp, fun a ha b hb => ?_⟩
      obtain rfl : b = step := by simpa using hb
      obtain ⟨last, hl, hle⟩ := hlife.watermark m hm a ha
      exact lt_of_le_of_lt hle (hlast last hl)
  watermark := by
    intro m' hm' step hstep
    rw [acceptedSteps_snoc] at hstep
    obtain ⟨m, hm, -, hgrow⟩ := factor_kept hkept hm'
    rcases List.mem_append.mp hstep with hold | hnew
    · obtain ⟨last, hl, hle⟩ := hlife.watermark m hm step hold
      rcases hgrow with hsame | ⟨step', hstep', hlt⟩
      · exact ⟨last, hsame.trans hl, hle⟩
      · exact ⟨step', hstep', le_of_lt (lt_of_le_of_lt hle (hlt last hl))⟩
    · cases h : acceptedStep u e with
      | none => simp [h] at hnew
      | some step' =>
        obtain rfl : step = step' := by simpa [h] using hnew
        exact ⟨step, (acceptedStep_raises hlife.keyed h).2 m' hm', le_refl _⟩
  once := by
    rw [acceptedCodes_snoc]
    cases h : acceptedCode u e with
    | none => simpa using hlife.once
    | some used =>
      obtain ⟨⟨m, hm, hmem⟩, -⟩ := acceptedCode_spends hlife.keyed h
      refine List.nodup_append.mpr ⟨hlife.once, by simp, fun a ha b hb => ?_⟩
      obtain rfl : b = used := by simpa using hb
      rintro rfl
      exact hlife.spent m hm a ha hmem
  spent := by
    intro m' hm' used hused
    rw [acceptedCodes_snoc] at hused
    obtain ⟨m, hm, hsub, -⟩ := factor_kept hkept hm'
    rcases List.mem_append.mp hused with hold | hnew
    · exact fun hmem => hlife.spent m hm used hold (hsub.subset hmem)
    · cases h : acceptedCode u e with
      | none => simp [h] at hnew
      | some used' =>
        obtain rfl : used = used' := by simpa [h] using hnew
        exact (acceptedCode_spends hlife.keyed h).2 m' hm'

end

section

variable {now : Timestamp} {c : (server).Conf}

/-- The life that a record has led so far, from any point of a run on. -/
theorem factorLife_along (hc : Reachable (World.fresh now) c)
    {tr₁ seg tr₂ : List (Nat × Entry machine)} (htr : c.trace = tr₁ ++ seg ++ tr₂) {u : Str}
    (hkept : ∀ x ∈ seg, replacesFactor u x.2 = false) :
    ∃ w : World, FactorLife u seg w.db.mfa := by
  obtain ⟨w₂, hbefore, -⟩ := hc.steps.split htr
  obtain ⟨w₁, hfirst, hseg⟩ := hbefore.split rfl
  have hkeyed : (w₁.db.mfa.map UserMfa.userId).Nodup := by
    apply hfirst.preserves (P := fun w => (w.db.mfa.map UserMfa.userId).Nodup) List.nodup_nil
    intro i e _ hn
    exact nodup_factors_after hn
  have hlife : (∀ x ∈ seg, replacesFactor u x.2 = false) → FactorLife u seg w₂.db.mfa := by
    apply hseg.accumulates (P := fun tr w =>
      (∀ x ∈ tr, replacesFactor u x.2 = false) → FactorLife u tr w.db.mfa)
    · intro _
      exact ⟨hkeyed, List.Pairwise.nil, by simp [acceptedSteps], List.nodup_nil,
        by simp [acceptedCodes]⟩
    · intro tr i e _ hlife hall
      apply FactorLife.next
      · exact hlife fun x hx => hall x (List.mem_append_left _ hx)
      · exact hall (i, e) (by simp)
  exact ⟨w₂, hlife hkept⟩

theorem mfaRule_holds {w : World} (hc : Reachable w c) : Rule.Inv mfaRule c :=
  hc.rule mfaRule_met fun _ => trivial

/-- A request that was let through by a factor has had it accepted. -/
theorem accepted_of_returned {w : World} (hc : Reachable w c) {i : Nat} {call : Call} {u : Str}
    {factor : SecondFactor} {reply : Reply} (hreq : c.reqOf i = some call)
    (hfactor : call.endpoint.factor = some (u, factor)) (hret : c.Returned i (.ok reply)) :
    ∃ e, (i, e) ∈ c.trace ∧ Accepts u e factor := by
  obtain ⟨call', hreq', hout⟩ := (mfaRule_holds hc).returned hret
  cases hreq.symm.trans hreq'
  have hverified := hout u factor reply hfactor rfl
  cases factor with
  | totp code =>
    obtain ⟨secret, step, enable, ⟨t, -, hstep⟩, hheard⟩ := hverified
    obtain ⟨e, he, ha⟩ := heard_mem hheard fun _ he => he
    exact ⟨e, he, secret, step, t, hstep, acceptedStep_of_answered ha⟩
  | backupCode code =>
    obtain ⟨used, hmatch, hheard⟩ := hverified
    obtain ⟨e, he, ha⟩ := heard_mem hheard fun _ he => he
    exact ⟨e, he, used, hmatch, acceptedCode_of_answered ha⟩
  | none => exact hverified.elim

/-- **One life, one use.** In every run, as long as the record of a user is
    neither replaced nor deleted: the TOTP steps accepted for the user
    strictly increase, no backup code is accepted twice, and a request that
    was let through by a factor has had it accepted. -/
theorem factors_accepted_once (hc : Reachable (World.fresh now) c)
    {tr₁ seg tr₂ : List (Nat × Entry machine)} (htr : c.trace = tr₁ ++ seg ++ tr₂) {u : Str}
    (hkept : ∀ x ∈ seg, replacesFactor u x.2 = false) :
    (acceptedSteps u seg).Pairwise (· < ·) ∧ (acceptedCodes u seg).Nodup ∧
    ∀ i call factor reply, c.reqOf i = some call → call.endpoint.factor = some (u, factor) →
      c.Returned i (.ok reply) → ∃ e, (i, e) ∈ c.trace ∧ Accepts u e factor := by
  obtain ⟨w, hlife⟩ := factorLife_along hc htr hkept
  refine ⟨hlife.increasing, hlife.once, ?_⟩
  intro i call factor reply hreq hfactor hret
  exact accepted_of_returned hc hreq hfactor hret

/-! ## The end of an enabled record -/

/-- An enabled record of the user only ends with a request to disable it
    whose code was verified. -/
def NeverDowngraded (c : (server).Conf) (u : Str) : Prop :=
  ∀ tr₁ i e tr₂, c.trace = tr₁ ++ (i, e) :: tr₂ → FactorEnabled u e.before.db.mfa →
    ¬ FactorEnabled u e.after.db.mfa → ∃ call code, c.reqOf i = some call ∧
      call.endpoint = .mfaDisable u code ∧
      FactorVerified (entriesOf (S := server) i tr₁) u (.totp code)

/-- The entry enables the record of the user. -/
def enablesFactor (u : Str) (e : Entry machine) : Bool :=
  match e.stmt with
  | .db (.mfa (.consumeTotpStep id _ _ true)) =>
    id = u && (e.ctx.fault = none || e.ctx.fault = some .lostReply)
  | _ => false

/-- A setup saves its record for the user, blind to an enabled one: its read
    failed, or an enabling has overtaken it. -/
structure BlindSetup (c : (server).Conf) (u : Str) (r e : Entry machine) : Prop where
  places : ∃ tr₁ i tr₂ tr₃, c.trace = tr₁ ++ (i, r) :: (tr₂ ++ (i, e) :: tr₃) ∧
    (r.ctx.fault ≠ none ∨ ∃ x ∈ tr₂, enablesFactor u x.2 = true)
  read : r.stmt = .db (.mfa (.get u))
  saves : ∃ row, Executes (.mfa (.save row)) e ∧ row.userId = u

/-- Every such save finds a record that is not enabled. -/
def BlindSetupsHarmless (c : (server).Conf) (u : Str) : Prop :=
  ∀ r e, BlindSetup c u r e → ¬ FactorEnabled u e.before.db.mfa

theorem mfaConducted_at {w : World} (hc : Reachable w c) {tr₁ tr₂ : List (Nat × Entry machine)}
    {i : Nat} {e : Entry machine} (htr : c.trace = tr₁ ++ (i, e) :: tr₂) :
    ∃ call, c.reqOf i = some call ∧ MfaConducted call (entriesOf (S := server) i tr₁) e :=
  (mfaRule_holds hc).entries tr₁ i e tr₂ htr

/-- What a save has behind it. -/
theorem enrolling_at {w : World} (hc : Reachable w c) {tr₁ tr₂ : List (Nat × Entry machine)}
    {i : Nat} {e : Entry machine} (htr : c.trace = tr₁ ++ (i, e) :: tr₂) {row : UserMfa}
    (hs : e.stmt = .db (.mfa (.save row))) :
    ∃ call, c.reqOf i = some call ∧ Enrolling call (entriesOf (S := server) i tr₁) row := by
  obtain ⟨call, hreq, hconduct⟩ := mfaConducted_at hc htr
  unfold MfaConducted at hconduct
  rw [hs] at hconduct
  exact ⟨call, hreq, hconduct⟩

/-- Between two places of a run, a record only becomes enabled by an
    enabling code. -/
theorem disabled_along {w w₁ w₂ : World} (hc : Reachable w c)
    {tr₁ tr₂ tr₃ : List (Nat × Entry machine)} (htr : c.trace = tr₁ ++ tr₂ ++ tr₃)
    (hsteps : Steps (S := server) w₁ tr₂ w₂) {u : Str}
    (hnone : ∀ x ∈ tr₂, enablesFactor u x.2 = false) (h : ¬ FactorEnabled u w₁.db.mfa) :
    ¬ FactorEnabled u w₂.db.mfa := by
  apply hsteps.preserves (P := fun w => ¬ FactorEnabled u w.db.mfa) h
  intro i e hmem hb ha
  rcases enabled_start hb ha with ⟨secret, step, m, hex, -, -⟩ | ⟨row, hex, hstatus⟩
  · have hfalse := hnone (i, e) hmem
    unfold enablesFactor at hfalse
    rw [hex.stmt] at hfalse
    rcases hex.executed with hf | hf <;> simp [hf] at hfalse
  · obtain ⟨l₁, l₂, rfl⟩ := List.append_of_mem hmem
    have hcut : c.trace = (tr₁ ++ l₁) ++ (i, e) :: (l₂ ++ tr₃) := by
      rw [htr]
      simp
    obtain ⟨call, -, henrol⟩ := enrolling_at hc hcut hex.stmt
    cases henrol.status.symm.trans hstatus

/-- **No silent downgrade, and when.** In a run an enabled record ends only
    with a verified request to disable it, exactly if every setup whose read
    failed or was overtaken by an enabling saves over a record that is not
    enabled. -/
theorem never_downgraded (hc : Reachable (World.fresh now) c) (u : Str) :
    NeverDowngraded c u ↔ BlindSetupsHarmless c u := by
  constructor
  · intro hnever r e hblind henabled
    obtain ⟨tr₁, i, tr₂, tr₃, htr, -⟩ := hblind.places
    obtain ⟨row, hex, hrow⟩ := hblind.saves
    have hcut : c.trace = (tr₁ ++ (i, r) :: tr₂) ++ (i, e) :: tr₃ := by
      rw [htr]
      simp
    obtain ⟨call, hreq, henrol⟩ := enrolling_at hc hcut hex.stmt
    have hafter : ¬ FactorEnabled u e.after.db.mfa := by
      have htable : e.after.db.mfa = ((MfaStmt.save row).exec e.before.db.mfa).2 := by
        rw [hex.after]
        rfl
      rw [FactorEnabled, htable, factorOf_exec, MfaStmt.onFactor, if_pos hrow.symm,
        Option.map_some, henrol.status]
      intro henabled'
      cases henabled'
    obtain ⟨call', code, hreq', hep, -⟩ := hnever _ i e tr₃ hcut henabled hafter
    cases hreq.symm.trans hreq'
    cases henrol.endpoint.symm.trans hep
  · intro hharmless tr₁ i e tr₂ htr hb ha
    rcases enabled_end hb ha with ⟨row, hex, rfl⟩ | hex
    · -- a setup: it saw the enabled record, or was blind to it
      obtain ⟨call, hreq, henrol⟩ := enrolling_at hc htr hex.stmt
      obtain ⟨r, hr, hread, hfound⟩ := henrol.read
      obtain ⟨l₁, l₂, rfl⟩ := List.append_of_mem (mem_entriesOf.mp hr)
      have hcut : c.trace = l₁ ++ (i, r) :: (l₂ ++ (i, e) :: tr₂) := by
        rw [htr]
        simp
      refine absurd hb ?_
      by_cases hblind : r.ctx.fault ≠ none ∨ ∃ x ∈ l₂, enablesFactor row.userId x.2 = true
      · exact hharmless r e ⟨⟨l₁, i, l₂, tr₂, hcut, hblind⟩, hread, row, hex, rfl⟩
      · obtain ⟨hfault, hnone⟩ := not_or.mp hblind
        have hsteps := hc.steps
        rw [hcut] at hsteps
        have hbetween := hsteps.split_entry.2.split_entry.1
        have htable : r.after.db.mfa = r.before.db.mfa := by
          rcases factors_after r with ⟨s, hs, hafter⟩ | ⟨-, hafter⟩
          · cases hs.stmt.symm.trans hread
            exact hafter
          · exact hafter
        have hplace : c.trace = (l₁ ++ [(i, r)]) ++ l₂ ++ (i, e) :: tr₂ := by
          rw [hcut]
          simp
        apply disabled_along hc hplace hbetween
        · intro x hx
          by_contra hx'
          exact hnone ⟨x, hx, by simpa using hx'⟩
        · rw [htable]
          exact hfound (not_not.mp hfault)
    · obtain ⟨call, hreq, hconduct⟩ := mfaConducted_at hc htr
      unfold MfaConducted at hconduct
      rw [hex.stmt] at hconduct
      obtain ⟨code, hep, hverified⟩ := hconduct
      exact ⟨call, code, hreq, hep, hverified⟩

/-! ## What a record holds -/

/-- The record of the user, if there is one, has its secret and its codes
    from one setup. -/
def FromOneSetup (c : (server).Conf) (u : Str) : Prop :=
  ∀ m, factorOf u c.state.db.mfa = some m → ∃ i e row cfg, (i, e) ∈ c.trace ∧
    c.reqOf i = some ⟨cfg, .mfaSetup u⟩ ∧ e.stmt = .db (.mfa (.save row)) ∧
    m.totpSecret = row.totpSecret ∧ m.backupCodes.Sublist row.backupCodes

/-- The record of the user becomes enabled only by a code that is valid
    under the secret that it then has. -/
def EnabledByCode (c : (server).Conf) (u : Str) : Prop :=
  ∀ tr₁ i e tr₂, c.trace = tr₁ ++ (i, e) :: tr₂ → ¬ FactorEnabled u e.before.db.mfa →
    FactorEnabled u e.after.db.mfa → ∃ call code secret step m, c.reqOf i = some call ∧
      call.endpoint = .mfaEnable u code ∧
      ValidAt (entriesOf (S := server) i tr₁) secret code step ∧
      factorOf u e.after.db.mfa = some m ∧ m.totpSecret = some secret

/-- The entry saves a record of the user. -/
def savesFactor (u : Str) (e : Entry machine) : Bool :=
  match e.stmt with
  | .db (.mfa (.save row)) =>
    row.userId = u && (e.ctx.fault = none || e.ctx.fault = some .lostReply)
  | _ => false

/-- No setup saves a record of the user between the read of a request that
    presents a TOTP code and the statement that accepts the code. -/
def AcceptedInTime (c : (server).Conf) (u : Str) : Prop :=
  ∀ tr₁ i r tr₂ e tr₃ secret step enable,
    c.trace = tr₁ ++ (i, r) :: (tr₂ ++ (i, e) :: tr₃) →
    r.stmt = .db (.mfa (.get u)) →
    Executes (.mfa (.consumeTotpStep u secret step enable)) e →
    (∃ m, factorOf u e.before.db.mfa = some m ∧ m.acceptsStep u step = true) →
    ∀ x ∈ tr₂, savesFactor u x.2 = false

/-- The record of the user, if there is one, has this secret. -/
def HoldsSecret (u secret : Str) (t : List UserMfa) : Prop :=
  ∀ m, factorOf u t = some m → m.totpSecret = some secret

theorem enabledByCode (hc : Reachable (World.fresh now) c) (u : Str) : EnabledByCode c u := by
  intro tr₁ i e tr₂ htr hb ha
  obtain ⟨call, hreq, hconduct⟩ := mfaConducted_at hc htr
  unfold MfaConducted at hconduct
  rcases enabled_start hb ha with ⟨secret, step, m, hex, hm, hsecret⟩ | ⟨row, hex, hstatus⟩
  · rw [hex.stmt] at hconduct
    obtain ⟨code, hep, hvalid⟩ := hconduct.enables rfl
    exact ⟨call, code, secret, step, m, hreq, hep, hvalid, hm, hsecret⟩
  · rw [hex.stmt] at hconduct
    cases hconduct.status.symm.trans hstatus

/-- An entry keeps the secret, unless it saves another record or accepts a
    code with another secret. -/
theorem holdsSecret_next {u secret : Str} {e : Entry machine}
    (h : HoldsSecret u secret e.before.db.mfa) (hsave : savesFactor u e = false)
    (haccept : ∀ secret' step enable, Executes (.mfa (.consumeTotpStep u secret' step enable)) e →
      (∃ m, factorOf u e.before.db.mfa = some m ∧ m.acceptsStep u step = true) →
      secret' = secret) : HoldsSecret u secret e.after.db.mfa := by
  intro m' hm'
  rcases factor_after u e with ⟨s, hs, hafter⟩ | ⟨-, hafter⟩
  · rw [hafter] at hm'
    cases s with
    | get id => exact h m' hm'
    | consumeTotpStep id secret' step enable =>
      obtain ⟨m, hm, rfl⟩ := Option.map_eq_some_iff.mp hm'
      by_cases hstep : m.acceptsStep id step = true
      · have huser : m.userId = id := by
          have hboth := hstep
          simp only [UserMfa.acceptsStep, Bool.and_eq_true, decide_eq_true_eq] at hboth
          exact hboth.1
        obtain rfl : id = u := huser.symm.trans (factorOf_userId hm)
        rw [if_pos hstep, ← haccept secret' step enable hs ⟨m, hm, hstep⟩]
        rfl
      · rw [if_neg hstep]
        exact h m hm
    | consumeBackupCode id used =>
      obtain ⟨m, hm, rfl⟩ := Option.map_eq_some_iff.mp hm'
      split
      · exact h m hm
      · exact h m hm
    | save row =>
      have hu : ¬ u = row.userId := by
        intro hu
        unfold savesFactor at hsave
        rw [hs.stmt] at hsave
        rcases hs.executed with hf | hf <;> simp [hf, hu] at hsave
      rw [MfaStmt.onFactor, if_neg hu] at hm'
      exact h m' hm'
    | delete id =>
      by_cases hu : u = id
      · rw [MfaStmt.onFactor, if_pos hu] at hm'
        cases hm'
      · rw [MfaStmt.onFactor, if_neg hu] at hm'
        exact h m' hm'
  · rw [hafter] at hm'
    exact h m' hm'

/-- A code is accepted with the secret that the record has. The induction is
    on the place in the trace: what was accepted before has kept the secret. -/
theorem accepted_secret {w : World} (hc : Reachable w c) {u : Str} (hin : AcceptedInTime c u)
    (n : Nat) : ∀ {tr₁ tr₂ : List (Nat × Entry machine)} {i : Nat} {e : Entry machine}
    {secret : Str} {step : Int} {enable : Bool}, tr₁.length = n →
    c.trace = tr₁ ++ (i, e) :: tr₂ →
    Executes (.mfa (.consumeTotpStep u secret step enable)) e →
    (∃ m, factorOf u e.before.db.mfa = some m ∧ m.acceptsStep u step = true) →
    HoldsSecret u secret e.before.db.mfa := by
  induction n using Nat.strong_induction_on with
  | _ n ih =>
    intro tr₁ tr₂ i e secret step enable hlen htr hex haccept
    obtain ⟨call, hreq, hconduct⟩ := mfaConducted_at hc htr
    unfold MfaConducted at hconduct
    rw [hex.stmt] at hconduct
    obtain ⟨m₀, ⟨r, hr, hanswer⟩, hsecret⟩ := hconduct.read
    obtain ⟨l₁, l₂, rfl⟩ := List.append_of_mem (mem_entriesOf.mp hr)
    have hcut : c.trace = l₁ ++ (i, r) :: (l₂ ++ (i, e) :: tr₂) := by
      rw [htr]
      simp
    have hnosave := hin l₁ i r l₂ e tr₂ secret step enable hcut hanswer.stmt hex haccept
    have hsteps := hc.steps
    rw [hcut] at hsteps
    have hbetween := hsteps.split_entry.2.split_entry.1
    have hstart : HoldsSecret u secret r.after.db.mfa := by
      intro m hm
      have htable : r.after.db.mfa = r.before.db.mfa := by
        rw [hanswer.after]
        rfl
      rw [htable, hanswer.factor] at hm
      cases hm
      exact hsecret
    apply hbetween.preserves (P := fun w => HoldsSecret u secret w.db.mfa) hstart
    intro k x hx hholds
    apply holdsSecret_next hholds (hnosave (k, x) hx)
    intro secret' step' enable' hex' haccept'
    obtain ⟨a, b, rfl⟩ := List.append_of_mem hx
    have hplace : c.trace = (l₁ ++ (i, r) :: a) ++ (k, x) :: (b ++ (i, e) :: tr₂) := by
      rw [hcut]
      simp
    have hlt : (l₁ ++ (i, r) :: a).length < n := by
      simp at hlen ⊢
      omega
    have hsame := ih _ hlt rfl hplace hex' haccept'
    obtain ⟨m, hm, -⟩ := haccept'
    exact Option.some.inj ((hsame m hm).symm.trans (hholds m hm))

/-- **One enrolment at a time.** In every run in which no setup saves its
    record between the read and the acceptance of a TOTP code, a stored
    record has its secret and its codes from one setup, and in every run it
    becomes enabled only by a code that is valid under the secret it then
    has. -/
theorem enrolment_coherent (hc : Reachable (World.fresh now) c) (u : Str)
    (hin : AcceptedInTime c u) : FromOneSetup c u ∧ EnabledByCode c u := by
  refine ⟨?_, enabledByCode hc u⟩
  let P : World → Prop := fun w => ∀ m, factorOf u w.db.mfa = some m →
    ∃ i e row cfg, (i, e) ∈ c.trace ∧ c.reqOf i = some ⟨cfg, .mfaSetup u⟩ ∧
      e.stmt = .db (.mfa (.save row)) ∧ m.totpSecret = row.totpSecret ∧
      m.backupCodes.Sublist row.backupCodes
  show P c.state
  apply hc.steps.preserves (P := P)
  · intro m hm
    cases hm
  · intro i e hmem hb m' hm'
    obtain ⟨tr₁, tr₂, htr⟩ := List.append_of_mem hmem
    rcases factor_after u e with ⟨s, hs, hafter⟩ | ⟨-, hafter⟩
    · rw [hafter] at hm'
      cases s with
      | get id => exact hb m' hm'
      | consumeTotpStep id secret step enable =>
        obtain ⟨m, hm, rfl⟩ := Option.map_eq_some_iff.mp hm'
        by_cases hstep : m.acceptsStep id step = true
        · have huser : m.userId = id := by
            have hboth := hstep
            simp only [UserMfa.acceptsStep, Bool.and_eq_true, decide_eq_true_eq] at hboth
            exact hboth.1
          obtain rfl : id = u := huser.symm.trans (factorOf_userId hm)
          have hholds := accepted_secret hc hin _ rfl htr hs ⟨m, hm, hstep⟩ m hm
          obtain ⟨j, x, row, cfg, hx, hreq, hsave, hsecret, hcodes⟩ := hb m hm
          rw [if_pos hstep]
          exact ⟨j, x, row, cfg, hx, hreq, hsave, hholds.symm.trans hsecret, hcodes⟩
        · rw [if_neg hstep]
          exact hb m hm
      | consumeBackupCode id used =>
        obtain ⟨m, hm, rfl⟩ := Option.map_eq_some_iff.mp hm'
        obtain ⟨j, x, row, cfg, hx, hreq, hsave, hsecret, hcodes⟩ := hb m hm
        split
        · exact ⟨j, x, row, cfg, hx, hreq, hsave, hsecret, List.filter_sublist.trans hcodes⟩
        · exact ⟨j, x, row, cfg, hx, hreq, hsave, hsecret, hcodes⟩
      | save row =>
        by_cases hu : u = row.userId
        · rw [MfaStmt.onFactor, if_pos hu] at hm'
          obtain rfl : row = m' := Option.some.inj hm'
          obtain ⟨⟨cfg, endpoint⟩, hreq, henrol⟩ := enrolling_at hc htr hs.stmt
          have hep : endpoint = .mfaSetup u := hu ▸ henrol.endpoint
          exact ⟨i, e, row, cfg, hmem, hep ▸ hreq, hs.stmt, rfl, List.Sublist.refl _⟩
        · rw [MfaStmt.onFactor, if_neg hu] at hm'
          exact hb m' hm'
      | delete id =>
        by_cases hu : u = id
        · rw [MfaStmt.onFactor, if_pos hu] at hm'
          cases hm'
        · rw [MfaStmt.onFactor, if_neg hu] at hm'
          exact hb m' hm'
    · rw [hafter] at hm'
      exact hb m' hm'

end

end SoulAuth

namespace SoulAuth.Sample

open Framework Framework.System

/-- A server with the encryption key of second factors. -/
def withFactors : Config := { config with mfaKeyConfigured := true }

/-- The secret of Alice's setup, and a code for it. -/
def firstSecret : Str := numbered 't' 11

def firstCode : Str := '#' :: firstSecret

/-- Request 2 sets up Alice's second factor, request 3 enables it. -/
def factorSetUp : List (server).Action :=
  prelude ++ start withFactors (.mfaSetup alice) :: steps 2 19

def factorEnabled : List (server).Action :=
  factorSetUp ++ start withFactors (.mfaEnable alice firstCode) :: steps 3 3

/-- Request 4 presents the same code once more. -/
def codeReplayed : List (server).Action :=
  factorEnabled ++ start withFactors (.mfaDisable alice firstCode) :: steps 4 3

/-- The place of the trace behind the save of request 2. -/
def savedAt : Nat := (after factorSetUp).trace.length

theorem factors_accepted_once_replayed :
    (acceptedSteps alice ((after codeReplayed).trace.drop savedAt)).Pairwise (· < ·) ∧
    (acceptedCodes alice ((after codeReplayed).trace.drop savedAt)).Nodup ∧
    ∀ i call factor reply, (after codeReplayed).reqOf i = some call →
      call.endpoint.factor = some (alice, factor) → (after codeReplayed).Returned i (.ok reply) →
      ∃ e, (i, e) ∈ (after codeReplayed).trace ∧ Accepts alice e factor := by
  have hcut : (after codeReplayed).trace = (after codeReplayed).trace.take savedAt ++
      (after codeReplayed).trace.drop savedAt ++ [] := by
    rw [List.append_nil, List.take_append_drop]
  exact factors_accepted_once (after_reachable codeReplayed) hcut (by decide +kernel)

/-- Request 4 sets up the factor again although it is enabled: its read has
    failed. -/
def factorReset : List (server).Action :=
  factorEnabled ++ start withFactors (.mfaSetup alice) ::
    .step 4 ⟨0, some .refused⟩ :: steps 4 18

theorem never_downgraded_reset : NeverDowngraded (after factorReset) alice ↔
    BlindSetupsHarmless (after factorReset) alice :=
  never_downgraded (after_reachable factorReset) alice

/-- The enabled factor is pending then. -/
theorem silently_downgraded : ¬ ∀ (now : Timestamp) (c : (server).Conf) (u : Str),
    Reachable (World.fresh now) c → NeverDowngraded c u := by
  intro hall
  have hnever := hall 0 _ alice (after_reachable factorReset)
  have hends : ((after factorReset).trace[(after factorReset).trace.length - 1]?.any fun x =>
      x.1 = 4 && FactorEnabled alice x.2.before.db.mfa &&
        !decide (FactorEnabled alice x.2.after.db.mfa)) = true := by decide +kernel
  obtain ⟨⟨i, e⟩, hat, hx⟩ := (Option.any_eq_true _ _).mp hends
  simp only [Bool.and_eq_true, decide_eq_true_eq, Bool.not_eq_true', decide_eq_false_iff_not]
    at hx
  obtain ⟨⟨rfl, hb⟩, ha⟩ := hx
  obtain ⟨call, code, hreq, hep, -⟩ := hnever _ 4 e _ (split_at hat) hb ha
  have hsetup : (after factorReset).reqOf 4 = some ⟨withFactors, .mfaSetup alice⟩ := by
    decide +kernel
  cases hsetup.symm.trans hreq
  cases hep

/-- Request 3 has read the record of the first setup when request 4 sets up
    the factor again; it enables the record then. -/
def secretOverwritten : List (server).Action :=
  factorSetUp ++ start withFactors (.mfaEnable alice firstCode) :: steps 3 2 ++
    start withFactors (.mfaSetup alice) :: steps 4 19 ++ steps 3 1

/-- The statement saves no record with the secret and the codes of `m`. -/
def savesOther (m : UserMfa) : Stmt → Bool
  | .db (.mfa (.save row)) =>
    !(m.totpSecret = row.totpSecret && m.backupCodes.isSublist row.backupCodes)
  | _ => true

/-- The codes of the second setup are stored with the secret of the first. -/
theorem setups_mixed : ¬ ∀ (now : Timestamp) (c : (server).Conf) (u : Str),
    Reachable (World.fresh now) c → FromOneSetup c u ∧ EnabledByCode c u := by
  intro hall
  have hone := (hall 0 _ alice (after_reachable secretOverwritten)).1
  have hmixed : ((factorOf alice (after secretOverwritten).state.db.mfa).any fun m =>
      (after secretOverwritten).trace.all fun x => savesOther m x.2.stmt) = true := by
    decide +kernel
  obtain ⟨m, hm, hall'⟩ := (Option.any_eq_true _ _).mp hmixed
  obtain ⟨i, e, row, cfg, hmem, -, hs, hsecret, hcodes⟩ := hone m hm
  have hx := List.all_eq_true.mp hall' (i, e) hmem
  rw [hs] at hx
  simp [savesOther, hsecret, List.isSublist_iff_sublist.mpr hcodes] at hx

/-- The entry consumes a TOTP step. -/
def consumesStep (e : Entry machine) : Bool :=
  match e.stmt with
  | .db (.mfa (.consumeTotpStep _ _ _ _)) => true
  | _ => false

/-- Codes are accepted in time when one request presents them all, and no
    setup saves once it has begun. -/
theorem acceptedInTime_of_last {c : (server).Conf} {u : Str} (i n : Nat)
    (honly : (c.trace.all fun x => x.1 = i || !consumesStep x.2) = true)
    (hbefore : ((c.trace.take n).all fun x => x.1 ≠ i) = true)
    (hafter : ((c.trace.drop n).all fun x => !savesFactor u x.2) = true) :
    AcceptedInTime c u := by
  intro tr₁ j r tr₂ e tr₃ secret step enable htr _ hex _ x hx
  have hji : j = i := by
    have hmem : (j, e) ∈ c.trace := by
      rw [htr]
      simp
    have hj := List.all_eq_true.mp honly (j, e) hmem
    have hconsumes : consumesStep e = true := by
      unfold consumesStep
      rw [hex.stmt]
    simpa [hconsumes] using hj
  have hlen : n ≤ tr₁.length := by
    by_contra hlt
    have hin : (j, r) ∈ c.trace.take n := by
      have hpos : (n - tr₁.length) = (n - tr₁.length - 1) + 1 := by omega
      rw [htr, List.take_append, hpos]
      simp
    have hne := List.all_eq_true.mp hbefore (j, r) hin
    simp [hji] at hne
  have hin : x ∈ c.trace.drop n := by
    rw [htr, List.drop_append_of_le_length hlen]
    simp [hx]
  simpa using List.all_eq_true.mp hafter x hin

theorem enrolment_coherent_enabled :
    FromOneSetup (after factorEnabled) alice ∧ EnabledByCode (after factorEnabled) alice :=
  enrolment_coherent (after_reachable factorEnabled) alice
    (acceptedInTime_of_last 3 savedAt (by decide +kernel) (by decide +kernel) (by decide +kernel))

end SoulAuth.Sample
