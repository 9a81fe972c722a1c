import SoulAuth.Proofs.LockoutCalls
import SoulAuth.Proofs.Tables

/-! # Isolation of lockout records

Two identifiers of one type have records of their own as long as their
record keys differ. With a key in common, counting a failure for one of them
takes the record of the other one over.
-/

namespace SoulAuth

open Framework Framework.System

section

variable [Platform] {id : Str} {ty : LockoutType}

/-- What a check observes of an identifier: the number of attempts and the
    lock. No record is the same as a fresh one. -/
def observed (id : Str) (ty : LockoutType) (w : World) :
    Nat × LockoutStatus × Option Timestamp :=
  match lockoutOf id ty w.db.lockouts with
  | some l => (l.failedAttempts, l.status, l.lockedUntil)
  | none => (0, .normal, none)

/-- Operations on another record change nothing that a check observes. -/
theorem observed_frame {h : List (Entry machine)} {r : LockoutCall} {e : Entry machine}
    (hE : lockoutRule.entry r h e) (hkeyed : Keyed e.before.db.lockouts) {id' : Str}
    {ty' : LockoutType} (hsubject : r.subject = some (id', ty'))
    (hne : lockoutRecordId id ty ≠ lockoutRecordId id' ty') :
    observed id ty e.after = observed id ty e.before := by
  obtain ⟨hkeyed', hrow⟩ := lockoutRule_after hE hkeyed
  have hsame : lockoutAt (lockoutRecordId id ty) e.after.db.lockouts =
      lockoutAt (lockoutRecordId id ty) e.before.db.lockouts := by
    rcases hrow with ⟨s, hex, hrow⟩ | ⟨-, hsame⟩
    · have habout : s.IsAbout id' ty' := by
        rcases lockoutRule_entry hE with hnow | ⟨s', hs', hcase⟩
        · exact absurd (hnow.symm.trans hex.stmt) nofun
        · obtain rfl := DbStmt.lockout.inj (Stmt.db.inj (hs'.symm.trans hex.stmt))
          rcases hcase with ⟨_, _, hsub, habout⟩ | ⟨_, _, _, rfl, -⟩
          · cases hsub.symm.trans hsubject
            exact habout
          · cases hsubject
      rw [hrow]
      exact habout.onRow_of_ne hne fun r' hr' => KeyedTable.key_of_rowAt hr'
    · rw [hsame]
  rw [observed, observed, hkeyed'.lockoutOf_eq, hkeyed.lockoutOf_eq, hsame]

/-! ## Colliding identifiers -/

/-- A failure is counted for `b`, and then one for `a`. -/
def countBoth (ty : LockoutType) (a b : Str) : List lockoutService.Action :=
  [.start (.recordFailed Sample.lockout ty b), .start (.recordFailed Sample.lockout ty a),
    .step 0 .calm, .step 1 .calm]

/-- The first statement of a count. -/
def countEntry (id : Str) (ty : LockoutType) (w : World) : Entry machine :=
  ⟨.calm, .db (.lockout (.countFailure (lockoutRecordId id ty) id ty)), w⟩

theorem trace_countBoth (ty : LockoutType) (a b : Str) :
    ((lockoutService.initial (World.fresh 0)).run (countBoth ty a b)).trace =
      [(0, countEntry b ty (World.fresh 0)),
        (1, countEntry a ty (countEntry b ty (World.fresh 0)).after)] := by
  cases ty with
  | user => rfl
  | ipAddress => rfl

/-- A count leaves the row under the key to its own identifier. -/
theorem lockoutAt_countEntry {w : World} (hw : Keyed w.db.lockouts) :
    Keyed (countEntry id ty w).after.db.lockouts ∧
      lockoutAt (lockoutRecordId id ty) (countEntry id ty w).after.db.lockouts =
        some (AccountLockout.counted (lockoutRecordId id ty) id ty (clock (countEntry id ty w))
          (lockoutAt (lockoutRecordId id ty) w.db.lockouts)) := by
  have haddressed : (LockoutStmt.countFailure (lockoutRecordId id ty) id ty).IsAddressed := rfl
  have hrow : lockoutAt (lockoutRecordId id ty) (countEntry id ty w).after.db.lockouts = _ :=
    hw.rowAt_exec haddressed (lockoutRecordId id ty)
  rw [LockoutStmt.onRow, if_pos rfl] at hrow
  exact ⟨hw.exec haddressed, hrow⟩

/-- Counting for an identifier with the same key makes a count invisible. -/
theorem observed_countBoth {a b : Str} (hne : a ≠ b) (hcollide : Collide a b) :
    (observed b ty (countEntry b ty (World.fresh 0)).after).1 = 1 ∧
      (observed b ty (countEntry a ty (countEntry b ty (World.fresh 0)).after).after).1 = 0 := by
  have hkey : lockoutRecordId a ty = lockoutRecordId b ty := lockoutRecordId_inj.mpr ⟨rfl, hcollide⟩
  obtain ⟨hkeyed, hrow⟩ := @lockoutAt_countEntry _ b ty (World.fresh 0) keyed_nil
  obtain ⟨hkeyed', hrow'⟩ := @lockoutAt_countEntry _ a ty _ hkeyed
  constructor
  · rw [observed, hkeyed.lockoutOf_eq, hrow]
    simp [AccountLockout.counted, World.fresh, Db.empty, KeyedTable.rowAt, Option.filter]
  · rw [observed, hkeyed'.lockoutOf_eq, ← hkey, hrow', hkey, hrow]
    simp [AccountLockout.counted, Option.filter, hne]

/-- **Isolation.** For two identifiers of one type, operations for the one
    never change what a check for the other observes, in any run, exactly if
    their record keys differ. -/
theorem isolated_iff {a b : Str} (hne : a ≠ b) :
    (∀ (now : Timestamp) (c : lockoutService.Conf) (tr₁ tr₂ : List (Nat × Entry machine)) (i : Nat)
      (e : Entry machine) (r : LockoutCall), Reachable (World.fresh now) c →
        c.trace = tr₁ ++ (i, e) :: tr₂ → c.reqOf i = some r → r.subject = some (a, ty) →
        observed b ty e.after = observed b ty e.before) ↔
      Str.replaceChar ' ' '_' a ≠ Str.replaceChar ' ' '_' b := by
  constructor
  · intro hall hcollide
    obtain ⟨hbefore, hafter⟩ := @observed_countBoth _ ty _ _ hne hcollide
    have hsame := hall 0 _ [(0, countEntry b ty (World.fresh 0))] [] 1
      (countEntry a ty (countEntry b ty (World.fresh 0)).after)
      (.recordFailed Sample.lockout ty a) ⟨countBoth ty a b, rfl⟩ (trace_countBoth ty a b)
      (by cases ty <;> rfl) rfl
    have hcount := congrArg Prod.fst hsame
    rw [hafter] at hcount
    exact absurd (hcount.trans hbefore) (by decide)
  · intro hkeys now c tr₁ tr₂ i e r hc htr hreq hsubject
    obtain ⟨hinv, -⟩ := keyed_run (w := World.fresh now) keyed_nil hc
    obtain ⟨r', hr', hE⟩ := hinv.entries tr₁ i e tr₂ htr
    obtain rfl := Option.some.inj (hr'.symm.trans hreq)
    obtain ⟨c₁, hc₁, -, hstate⟩ := hc.before htr
    obtain ⟨-, hkeyed⟩ := keyed_run (w := World.fresh now) keyed_nil hc₁
    rw [hstate] at hkeyed
    refine observed_frame hE hkeyed hsubject fun heq => ?_
    exact hkeys (lockoutRecordId_inj.mp heq).2.symm

end

namespace Sample

/-- Two malformed addresses that differ in a blank share a record. -/
theorem not_isolated :
    ¬ ∀ (ty : LockoutType) (a b : Str), a ≠ b → ∀ (now : Timestamp) (c : lockoutService.Conf)
      (tr₁ tr₂ : List (Nat × Entry machine)) (i : Nat) (e : Entry machine) (r : LockoutCall),
        Reachable (World.fresh now) c → c.trace = tr₁ ++ (i, e) :: tr₂ → c.reqOf i = some r →
        r.subject = some (a, ty) → observed b ty e.after = observed b ty e.before := by
  intro hall
  have hne : "a b@c.d".toList ≠ "a_b@c.d".toList := by decide +kernel
  obtain ⟨hbefore, hafter⟩ := @observed_countBoth _ .user _ _ hne (by decide +kernel)
  have hsame := hall .user _ _ hne 0 _ [(0, countEntry "a_b@c.d".toList .user (World.fresh 0))] [] 1
    (countEntry "a b@c.d".toList .user (countEntry "a_b@c.d".toList .user (World.fresh 0)).after)
    (.recordFailed lockout .user "a b@c.d".toList)
    ⟨countBoth .user "a b@c.d".toList "a_b@c.d".toList, rfl⟩ (trace_countBoth .user _ _) rfl rfl
  have hcount := congrArg Prod.fst hsame
  rw [hafter] at hcount
  exact absurd (hcount.trans hbefore) (by decide)

theorem isolated_iff_two_accounts :
    (∀ (now : Timestamp) (c : lockoutService.Conf) (tr₁ tr₂ : List (Nat × Entry machine)) (i : Nat)
      (e : Entry machine) (r : LockoutCall), Reachable (World.fresh now) c →
        c.trace = tr₁ ++ (i, e) :: tr₂ → c.reqOf i = some r →
        r.subject = some ("x@c.d".toList, .user) →
        observed "y@c.d".toList .user e.after = observed "y@c.d".toList .user e.before) ↔
      Str.replaceChar ' ' '_' "x@c.d".toList ≠ Str.replaceChar ' ' '_' "y@c.d".toList :=
  isolated_iff (by decide +kernel)

end Sample

end SoulAuth
