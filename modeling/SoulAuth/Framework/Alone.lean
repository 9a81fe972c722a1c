import SoulAuth.Framework.Program

/-! # Programs that run alone

When nothing comes in between, a program is a transformer of states. The
rules here are those of a program logic: `Alone p w Q` says that `p`, run
from the state `w` in whatever contexts, ends with an outcome, a state and
entries that satisfy `Q`.
-/

namespace SoulAuth.Framework.Prog

variable {M : Machine} {ε ε' α β : Type}

/-- What holds of every run of `p` alone from `w`. -/
def Alone (p : Prog M ε α) (w : M.State)
    (Q : Except ε α → M.State → List (Entry M) → Prop) : Prop :=
  ∀ cs, Q (p.runAlone cs w).1 (p.runAlone cs w).2.1 (p.runAlone cs w).2.2

variable {w : M.State} {Q Q' : Except ε α → M.State → List (Entry M) → Prop}

theorem alone_done {r : Except ε α} (h : Q r w []) : Alone (done r) w Q :=
  fun _ => h

theorem alone_step {s : M.Stmt} {k : M.Resp s → Prog M ε α}
    (h : ∀ ctx, Alone (k (M.exec ctx s w).1) (M.exec ctx s w).2
      fun r w' t => Q r w' (⟨ctx, s, w⟩ :: t)) : Alone (step s k) w Q :=
  fun cs => h (cs 0) fun n => cs (n + 1)

/-- The rule of consequence. -/
theorem Alone.weaken {p : Prog M ε α} (hp : Alone p w Q)
    (h : ∀ r w' t, Q r w' t → Q' r w' t) : Alone p w Q' :=
  fun cs => h _ _ _ (hp cs)

/-- Two things hold of every run at once. -/
theorem Alone.and {p : Prog M ε α} (hp : Alone p w Q) (hp' : Alone p w Q') :
    Alone p w fun r w' t => Q r w' t ∧ Q' r w' t :=
  fun cs => ⟨hp cs, hp' cs⟩

/-- The rule of sequencing. -/
theorem Alone.bind {R : Except ε β → M.State → List (Entry M) → Prop} {p : Prog M ε α}
    {f : α → Prog M ε β} (hp : Alone p w Q)
    (hok : ∀ a w' t, Q (.ok a) w' t → Alone (f a) w' fun r w'' t' => R r w'' (t ++ t'))
    (herr : ∀ e w' t, Q (.error e) w' t → R (.error e) w' t) : Alone (p >>= f) w R := by
  induction p generalizing w Q R with
  | done r =>
    intro cs
    cases r with
    | ok a => simpa using hok a w [] (hp cs) cs
    | error e => exact herr e w [] (hp cs)
  | step s k ih =>
    intro cs
    have hrest : Alone (k (M.exec (cs 0) s w).1 >>= f) (M.exec (cs 0) s w).2
        fun r w' t => R r w' (⟨cs 0, s, w⟩ :: t) := by
      refine ih (M.exec (cs 0) s w).1 (Q := fun r w' t => Q r w' (⟨cs 0, s, w⟩ :: t))
        (fun cs' => ?_) (fun a w' t hq => hok a w' _ hq) fun e w' t hq => herr e w' _ hq
      exact hp fun n => match n with
        | 0 => cs 0
        | n + 1 => cs' n
    exact hrest fun n => cs (n + 1)

/-- An attempt has the outcome of its program as its value. -/
theorem Alone.attempt {R : Except ε' (Except ε α) → M.State → List (Entry M) → Prop}
    {p : Prog M ε α} (hp : Alone p w Q) (h : ∀ r w' t, Q r w' t → R (.ok r) w' t) :
    Alone (p.attempt : Prog M ε' _) w R := by
  induction p generalizing w Q R with
  | done r => exact fun cs => h r w [] (hp cs)
  | step s k ih =>
    refine alone_step fun ctx => ih _ (fun cs => ?_) fun r w' t hq => h r w' (⟨ctx, s, w⟩ :: t) hq
    exact hp fun n => match n with
      | 0 => ctx
      | n + 1 => cs n

/-- A translated error does not change what the program does. -/
theorem Alone.mapError {R : Except ε' α → M.State → List (Entry M) → Prop} {p : Prog M ε α}
    {g : ε → ε'} (hp : Alone p w Q) (h : ∀ r w' t, Q r w' t → R (r.mapError g) w' t) :
    Alone (p.mapError g) w R := by
  induction p generalizing w Q R with
  | done r => cases r <;> exact fun cs => h _ w [] (hp cs)
  | step s k ih =>
    refine alone_step fun ctx => ih _ (fun cs => ?_) fun r w' t hq => h r w' (⟨ctx, s, w⟩ :: t) hq
    exact hp fun n => match n with
      | 0 => ctx
      | n + 1 => cs n

theorem alone_ensure_bind {R : Except ε β → M.State → List (Entry M) → Prop} {c : Prop}
    [Decidable c] {x : ε} {f : Unit → Prog M ε β} (hok : c → Alone (f ()) w R)
    (herr : ¬ c → R (.error x) w []) : Alone (ensure c x >>= f) w R := by
  unfold ensure
  split
  · next hc => exact hok hc
  · next hc => exact alone_done (herr hc)

theorem alone_orThrow_bind {R : Except ε β → M.State → List (Entry M) → Prop} {o : Option α}
    {x : ε} {f : α → Prog M ε β} (hok : ∀ a, o = some a → Alone (f a) w R)
    (herr : o = none → R (.error x) w []) : Alone (orThrow x o >>= f) w R := by
  cases o with
  | some a => exact hok a rfl
  | none => exact alone_done (herr rfl)

theorem alone_ofExcept_bind {R : Except ε β → M.State → List (Entry M) → Prop} {r : Except ε α}
    {f : α → Prog M ε β} (hok : ∀ a, r = .ok a → Alone (f a) w R)
    (herr : ∀ x, r = .error x → R (.error x) w []) : Alone (ofExcept r >>= f) w R := by
  cases r with
  | ok a => exact hok a rfl
  | error x => exact alone_done (herr x rfl)

/-- What every statement of a program keeps, the program keeps. -/
theorem Only.alone {S : M.Stmt → Prop} {p : Prog M ε α} (hp : Only S p) {P : M.State → Prop}
    (hS : ∀ e : Entry M, S e.stmt → P e.before → P e.after) (hw : P w) :
    Alone p w fun _ w' _ => P w' := by
  intro cs
  exact hp.runAlone (fun s ctx w => hS ⟨ctx, s, w⟩) hw

/-! ### Undisturbed runs -/

/-- What the runs of `p` alone from `w` end with, if all their entries
    satisfy `G`. -/
structure Ensures (G : Entry M → Prop) (p : Prog M ε α) (w : M.State)
    (Q : Except ε α → M.State → Prop) : Prop where
  alone : Alone p w fun r w' t => (∀ e ∈ t, G e) → Q r w'

section

variable {G : Entry M → Prop} {P P' : Except ε α → M.State → Prop}

theorem ensures_done {r : Except ε α} (h : P r w) : Ensures G (done r) w P :=
  ⟨fun _ _ => h⟩

theorem ensures_step {s : M.Stmt} {k : M.Resp s → Prog M ε α}
    (h : ∀ ctx, G ⟨ctx, s, w⟩ →
      Ensures G (k (M.exec ctx s w).1) (M.exec ctx s w).2 P) : Ensures G (step s k) w P := by
  constructor
  apply alone_step
  intro ctx cs hall
  apply (h ctx (hall _ List.mem_cons_self)).alone cs
  intro e he
  exact hall e (List.mem_cons_of_mem _ he)

theorem ensures_ensure_bind {R : Except ε β → M.State → Prop} {c : Prop} [Decidable c] {x : ε}
    {f : Unit → Prog M ε β} (hc : c) (h : Ensures G (f ()) w R) :
    Ensures G (ensure c x >>= f) w R := by
  rw [ensure, if_pos hc]
  exact h

theorem Ensures.weaken {p : Prog M ε α} (hp : Ensures G p w P) (h : ∀ r w', P r w' → P' r w') :
    Ensures G p w P' :=
  ⟨fun cs hall => h _ _ (hp.alone cs hall)⟩

theorem Ensures.bind {R : Except ε β → M.State → Prop} {p : Prog M ε α} {f : α → Prog M ε β}
    (hp : Ensures G p w P) (hok : ∀ a w', P (.ok a) w' → Ensures G (f a) w' R)
    (herr : ∀ e w', P (.error e) w' → R (.error e) w') : Ensures G (p >>= f) w R := by
  constructor
  refine hp.alone.bind (R := fun r w' t => (∀ e ∈ t, G e) → R r w') ?_ ?_
  · intro a w' t ha cs hall
    have hleft : ∀ e ∈ t, G e := fun e he => hall e (List.mem_append_left _ he)
    apply (hok a w' (ha hleft)).alone cs
    intro e he
    exact hall e (List.mem_append_right _ he)
  · intro e w' t he hall
    exact herr e w' (he hall)

theorem Ensures.attempt {R : Except ε' (Except ε α) → M.State → Prop} {p : Prog M ε α}
    (hp : Ensures G p w P) (h : ∀ r w', P r w' → R (.ok r) w') :
    Ensures G (p.attempt : Prog M ε' _) w R := by
  constructor
  refine hp.alone.attempt (R := fun r w' t => (∀ e ∈ t, G e) → R r w') ?_
  intro r w' t hr hall
  exact h r w' (hr hall)

theorem Ensures.mapError {R : Except ε' α → M.State → Prop} {p : Prog M ε α} {g : ε → ε'}
    (hp : Ensures G p w P) (h : ∀ r w', P r w' → R (r.mapError g) w') :
    Ensures G (p.mapError g) w R := by
  constructor
  refine hp.alone.mapError (R := fun r w' t => (∀ e ∈ t, G e) → R r w') ?_
  intro r w' t hr hall
  exact h r w' (hr hall)

end

end SoulAuth.Framework.Prog
