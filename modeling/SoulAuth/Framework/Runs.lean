import SoulAuth.Framework.Program

/-! # Runs in given contexts

`Runs p cs w Q` says what the run of `p` alone from the state `w` ends with
when its statement number `n` is executed in the context `cs n`. The
postcondition also receives the contexts that are left, so that the next
program can go on with them. The rules compute: each is an equivalence, from
the program to its parts.
-/

namespace SoulAuth.Framework.Prog

variable {M : Machine} {ε ε' α β : Type}

/-- The contexts from number `k` on. -/
def later {C : Type} (k : Nat) (cs : Nat → C) : Nat → C := fun n => cs (k + n)

@[simp] theorem later_apply {C : Type} (k n : Nat) (cs : Nat → C) :
    later k cs n = cs (k + n) := rfl

@[simp] theorem later_zero {C : Type} (cs : Nat → C) : later 0 cs = cs := by
  funext n
  show cs (0 + n) = cs n
  rw [Nat.zero_add]

@[simp] theorem later_later {C : Type} (j k : Nat) (cs : Nat → C) :
    later j (later k cs) = later (k + j) cs := by
  funext n
  show cs (k + (j + n)) = cs (k + j + n)
  rw [Nat.add_assoc]

/-- What the run of `p` alone ends with. -/
def Runs : Prog M ε α → (Nat → M.Ctx) → M.State →
    (Except ε α → M.State → (Nat → M.Ctx) → Prop) → Prop
  | done r, cs, w, Q => Q r w cs
  | step s k, cs, w, Q => (k (M.exec (cs 0) s w).1).Runs (later 1 cs) (M.exec (cs 0) s w).2 Q

variable {p : Prog M ε α} {cs : Nat → M.Ctx} {w : M.State}
  {Q Q' : Except ε α → M.State → (Nat → M.Ctx) → Prop}

@[simp] theorem runs_done {r : Except ε α} : Runs (done r) cs w Q ↔ Q r w cs := Iff.rfl

theorem runs_step {s : M.Stmt} {k : M.Resp s → Prog M ε α} :
    Runs (step s k) cs w Q ↔
      Runs (k (M.exec (cs 0) s w).1) (later 1 cs) (M.exec (cs 0) s w).2 Q := Iff.rfl

/-- The run is the one that `runAlone` computes. -/
theorem runs_iff :
    Runs p cs w Q ↔ Q (p.runAlone cs w).1 (p.runAlone cs w).2.1
      (later (p.runAlone cs w).2.2.length cs) := by
  induction p generalizing cs w with
  | done r =>
    show Q r w cs ↔ Q r w (later 0 cs)
    rw [later_zero]
  | step s k ih =>
    have hnext : (fun n => cs (n + 1)) = later 1 cs := by
      funext n
      show cs (n + 1) = cs (1 + n)
      rw [Nat.add_comm]
    rw [runs_step, ih, later_later]
    simp only [runAlone, hnext, List.length_cons, Nat.add_comm]

/-- A run shows what `runAlone` returns. -/
theorem Runs.outcome {P : Except ε α → M.State → Prop} (h : Runs p cs w fun r w' _ => P r w') :
    P (p.runAlone cs w).1 (p.runAlone cs w).2.1 :=
  runs_iff.mp h

/-- The rule of consequence. -/
theorem Runs.weaken (hp : Runs p cs w Q) (h : ∀ r w' cs', Q r w' cs' → Q' r w' cs') :
    Runs p cs w Q' :=
  runs_iff.mpr (h _ _ _ (runs_iff.mp hp))

theorem runs_bind {f : α → Prog M ε β} {R : Except ε β → M.State → (Nat → M.Ctx) → Prop} :
    Runs (p >>= f) cs w R ↔ Runs p cs w fun r w' cs' => match r with
      | .ok a => Runs (f a) cs' w' R
      | .error e => R (.error e) w' cs' := by
  induction p generalizing cs w with
  | done r => cases r <;> exact Iff.rfl
  | step s k ih => rw [step_bind, runs_step, runs_step, ih]

theorem runs_attempt {R : Except ε' (Except ε α) → M.State → (Nat → M.Ctx) → Prop} :
    Runs (p.attempt : Prog M ε' _) cs w R ↔ Runs p cs w fun r w' cs' => R (.ok r) w' cs' := by
  induction p generalizing cs w with
  | done r => exact Iff.rfl
  | step s k ih => rw [attempt, runs_step, runs_step, ih]

theorem runs_swallow {R : Except ε' Unit → M.State → (Nat → M.Ctx) → Prop} :
    Runs (p.swallow : Prog M ε' _) cs w R ↔ Runs p cs w fun _ w' cs' => R (.ok ()) w' cs' := by
  induction p generalizing cs w with
  | done r => exact Iff.rfl
  | step s k ih => rw [swallow, runs_step, runs_step, ih]

theorem runs_mapError {g : ε → ε'} {R : Except ε' α → M.State → (Nat → M.Ctx) → Prop} :
    Runs (p.mapError g) cs w R ↔ Runs p cs w fun r w' cs' => R (r.mapError g) w' cs' := by
  induction p generalizing cs w with
  | done r => cases r <;> exact Iff.rfl
  | step s k ih => rw [mapError, runs_step, runs_step, ih]

end SoulAuth.Framework.Prog
