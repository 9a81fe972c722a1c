import SoulAuth.Framework.KeyedTable
import SoulAuth.Proofs.Tables

/-! # The records of second factors

A user has at most one record. This file says what every statement makes of
the record of one user; the other tables and the other users do not matter.
-/

namespace SoulAuth

open Framework Framework.System Framework.KeyedTable

/-- The record of a user. -/
def factorOf (u : Str) (t : List UserMfa) : Option UserMfa := rowAt UserMfa.userId u t

/-- The record of a user is enabled. -/
def FactorEnabled (u : Str) (t : List UserMfa) : Prop :=
  (factorOf u t).map UserMfa.status = some .enabled

instance (u : Str) (t : List UserMfa) : Decidable (FactorEnabled u t) :=
  inferInstanceAs (Decidable (_ = _))

/-- What an accepted TOTP step makes of a record. -/
def UserMfa.stepped (secret : Str) (step : Int) (enable : Bool) (m : UserMfa) : UserMfa :=
  { m with lastTotpStep := some step, totpSecret := some secret,
           status := if enable then .enabled else m.status }

/-- What an accepted backup code makes of a record. -/
def UserMfa.without (used : Str) (m : UserMfa) : UserMfa :=
  { m with backupCodes := m.backupCodes.filter (· ≠ used) }

/-- What a statement makes of the record of the user `u`. -/
def MfaStmt.onFactor (u : Str) : MfaStmt → Option UserMfa → Option UserMfa
  | get _, m => m
  | consumeTotpStep id secret step enable, m =>
    m.map fun m => if m.acceptsStep id step then m.stepped secret step enable else m
  | consumeBackupCode id used, m =>
    m.map fun m => if m.userId = id && m.backupCodes.contains used then m.without used else m
  | save row, m => if u = row.userId then some row else m
  | delete id, m => if u = id then none else m

/-- The statement replaces the record of the user, or deletes it. -/
def MfaStmt.replaces (u : Str) : MfaStmt → Bool
  | save row => row.userId = u
  | delete id => id = u
  | _ => false

theorem factorOf_exec (u : Str) (s : MfaStmt) (t : List UserMfa) :
    factorOf u (s.exec t).2 = s.onFactor u (factorOf u t) := by
  cases s with
  | get id => rfl
  | consumeTotpStep id secret step enable =>
    apply rowAt_map
    intro m _
    split <;> rfl
  | consumeBackupCode id used =>
    apply rowAt_map
    intro m _
    split <;> rfl
  | save row => exact rowAt_upsert (f := fun _ => row) fun _ _ => rfl
  | delete id =>
    show List.find? _ (List.filter _ t) = _
    rw [List.find?_filter]
    by_cases hu : u = id
    · subst hu
      simp [MfaStmt.onFactor]
    · have hkeys : (fun m : UserMfa => decide (decide (m.userId ≠ id) = true ∧
          decide (m.userId = u) = true)) = fun m => decide (m.userId = u) := by
        funext m
        by_cases hm : m.userId = u
        · simp [hm, hu]
        · simp [hm]
      rw [hkeys, MfaStmt.onFactor, if_neg hu]
      rfl

/-- No statement gives a user a second record. -/
theorem nodup_factors {s : MfaStmt} {t : List UserMfa} (h : (t.map UserMfa.userId).Nodup) :
    ((s.exec t).2.map UserMfa.userId).Nodup := by
  cases s with
  | get id => exact h
  | consumeTotpStep id secret step enable =>
    apply nodup_map _ h
    intro m _
    split <;> rfl
  | consumeBackupCode id used =>
    apply nodup_map _ h
    intro m _
    split <;> rfl
  | save row => exact nodup_upsert (f := fun _ => row) (fun _ _ => rfl) h
  | delete id => exact nodup_filter h

variable {u : Str} {t : List UserMfa} {m : UserMfa}

theorem factorOf_userId (h : factorOf u t = some m) : m.userId = u := key_of_rowAt h

/-- A step is accepted exactly when the record of the user accepts it. -/
theorem any_acceptsStep (hn : (t.map UserMfa.userId).Nodup) (step : Int) :
    (t.any fun m => m.acceptsStep u step) = true ↔
      ∃ m, factorOf u t = some m ∧ ∀ last, m.lastTotpStep = some last → last < step := by
  rw [List.any_eq_true]
  constructor
  · rintro ⟨m, hm, haccept⟩
    obtain ⟨rfl, hlast⟩ : m.userId = u ∧ _ := by simpa [UserMfa.acceptsStep] using haccept
    refine ⟨m, rowAt_of_mem hn hm, fun last h => ?_⟩
    simpa [h] using hlast
  · rintro ⟨m, hm, hlast⟩
    refine ⟨m, mem_of_rowAt hm, ?_⟩
    rw [UserMfa.acceptsStep, factorOf_userId hm]
    cases h : m.lastTotpStep with
    | none => simp
    | some last => simpa using hlast last h

/-- A backup code is accepted exactly when the record of the user has it. -/
theorem any_holds (hn : (t.map UserMfa.userId).Nodup) {used : Str} :
    (t.any fun m => m.userId = u && m.backupCodes.contains used) = true ↔
      ∃ m, factorOf u t = some m ∧ used ∈ m.backupCodes := by
  rw [List.any_eq_true]
  constructor
  · rintro ⟨m, hm, hholds⟩
    obtain ⟨rfl, hused⟩ : m.userId = u ∧ used ∈ m.backupCodes := by simpa using hholds
    exact ⟨m, rowAt_of_mem hn hm, hused⟩
  · rintro ⟨m, hm, hused⟩
    exact ⟨m, mem_of_rowAt hm, by simp [factorOf_userId hm, hused]⟩

/-! ## Entries -/

variable [Platform]

/-- What an entry makes of the records. -/
theorem factors_after (e : Entry machine) :
    (∃ s, Executes (.mfa s) e ∧ e.after.db.mfa = (s.exec e.before.db.mfa).2) ∨
    (∀ s, ¬ Executes (.mfa s) e) ∧ e.after.db.mfa = e.before.db.mfa := by
  rcases db_executed e with ⟨s, hs⟩ | ⟨hnone, hdb⟩
  · cases s with
    | mfa s => exact .inl ⟨s, hs, by rw [hs.after]; rfl⟩
    | _ =>
      refine .inr ⟨fun s' hs' => ?_, by rw [hs.after]; rfl⟩
      cases hs.stmt.symm.trans hs'.stmt
  · exact .inr ⟨fun s => hnone _, by rw [hdb]⟩

/-- What an entry makes of the record of one user. -/
theorem factor_after (u : Str) (e : Entry machine) :
    (∃ s, Executes (.mfa s) e ∧
      factorOf u e.after.db.mfa = s.onFactor u (factorOf u e.before.db.mfa)) ∨
    (∀ s, ¬ Executes (.mfa s) e) ∧
      factorOf u e.after.db.mfa = factorOf u e.before.db.mfa := by
  rcases factors_after e with ⟨s, hs, h⟩ | ⟨hnone, h⟩
  · exact .inl ⟨s, hs, by rw [h, factorOf_exec]⟩
  · exact .inr ⟨hnone, by rw [h]⟩

/-- An enabled record is disabled by replacing or deleting it. -/
theorem enabled_end {u : Str} {e : Entry machine} (hb : FactorEnabled u e.before.db.mfa)
    (ha : ¬ FactorEnabled u e.after.db.mfa) :
    (∃ row, Executes (.mfa (.save row)) e ∧ row.userId = u) ∨ Executes (.mfa (.delete u)) e := by
  unfold FactorEnabled at hb ha
  rcases factor_after u e with ⟨s, hs, hafter⟩ | ⟨-, hafter⟩
  · rw [hafter] at ha
    obtain ⟨m, hm, hstatus⟩ := Option.map_eq_some_iff.mp hb
    rw [hm] at ha
    cases s with
    | get id => exact absurd (congrArg some hstatus) ha
    | consumeTotpStep id secret step enable =>
      refine absurd ?_ ha
      by_cases haccept : m.acceptsStep id step = true
      · cases enable <;> simp [MfaStmt.onFactor, haccept, UserMfa.stepped, hstatus]
      · simp [MfaStmt.onFactor, haccept, hstatus]
    | consumeBackupCode id used =>
      refine absurd ?_ ha
      by_cases hholds : (m.userId = id && m.backupCodes.contains used) = true
      · simp only [MfaStmt.onFactor, Option.map_some, if_pos hholds]
        exact congrArg some hstatus
      · simp only [MfaStmt.onFactor, Option.map_some, if_neg hholds]
        exact congrArg some hstatus
    | save row =>
      by_cases hu : u = row.userId
      · exact .inl ⟨row, hs, hu.symm⟩
      · rw [MfaStmt.onFactor, if_neg hu] at ha
        exact absurd (congrArg some hstatus) ha
    | delete id =>
      by_cases hu : u = id
      · exact .inr (hu ▸ hs)
      · rw [MfaStmt.onFactor, if_neg hu] at ha
        exact absurd (congrArg some hstatus) ha
  · rw [hafter] at ha
    exact absurd hb ha

/-- A record becomes enabled by an enabling code, or is saved as enabled. -/
theorem enabled_start {u : Str} {e : Entry machine} (hb : ¬ FactorEnabled u e.before.db.mfa)
    (ha : FactorEnabled u e.after.db.mfa) :
    (∃ secret step m, Executes (.mfa (.consumeTotpStep u secret step true)) e ∧
      factorOf u e.after.db.mfa = some m ∧ m.totpSecret = some secret) ∨
    ∃ row, Executes (.mfa (.save row)) e ∧ row.status = .enabled := by
  unfold FactorEnabled at hb ha
  rcases factor_after u e with ⟨s, hs, hafter⟩ | ⟨-, hafter⟩
  · rw [hafter] at ha ⊢
    obtain ⟨m', hm', hstatus'⟩ := Option.map_eq_some_iff.mp ha
    have hold : ∀ m, factorOf u e.before.db.mfa = some m → m.status ≠ .enabled := by
      intro m hm hstatus
      rw [hm] at hb
      exact hb (congrArg some hstatus)
    cases s with
    | get id => exact absurd hstatus' (hold m' hm')
    | consumeTotpStep id secret step enable =>
      obtain ⟨m, hm, rfl⟩ := Option.map_eq_some_iff.mp hm'
      by_cases haccept : m.acceptsStep id step = true
      · rw [if_pos haccept] at hstatus'
        cases enable with
        | false => exact absurd hstatus' (hold m hm)
        | true =>
          have hid : id = u := by
            have huser : m.userId = id := by
              simp only [UserMfa.acceptsStep, Bool.and_eq_true, decide_eq_true_eq] at haccept
              exact haccept.1
            exact huser.symm.trans (factorOf_userId hm)
          subst hid
          refine .inl ⟨secret, step, m.stepped secret step true, hs, ?_, rfl⟩
          simp [MfaStmt.onFactor, hm, haccept]
      · rw [if_neg haccept] at hstatus'
        exact absurd hstatus' (hold m hm)
    | consumeBackupCode id used =>
      obtain ⟨m, hm, rfl⟩ := Option.map_eq_some_iff.mp hm'
      have hkept : m.status = .enabled := by
        split at hstatus'
        · exact hstatus'
        · exact hstatus'
      exact absurd hkept (hold m hm)
    | save row =>
      by_cases hu : u = row.userId
      · rw [MfaStmt.onFactor, if_pos hu] at hm'
        have heq : row = m' := Option.some.inj hm'
        exact .inr ⟨row, hs, heq ▸ hstatus'⟩
      · rw [MfaStmt.onFactor, if_neg hu] at hm'
        exact absurd hstatus' (hold m' hm')
    | delete id =>
      by_cases hu : u = id
      · rw [MfaStmt.onFactor, if_pos hu] at hm'
        cases hm'
      · rw [MfaStmt.onFactor, if_neg hu] at hm'
        exact absurd hstatus' (hold m' hm')
  · rw [hafter] at ha
    exact absurd ha hb

theorem nodup_factors_after {e : Entry machine}
    (h : (e.before.db.mfa.map UserMfa.userId).Nodup) :
    (e.after.db.mfa.map UserMfa.userId).Nodup := by
  rcases factors_after e with ⟨s, -, hafter⟩ | ⟨-, hafter⟩
  · rw [hafter]
    exact nodup_factors h
  · rwa [hafter]

end SoulAuth
