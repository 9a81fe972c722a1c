import Mathlib.Data.List.Basic

/-! # Request programs over a shared state

A *machine* is a shared state together with its atomic statements. A
request is a program that issues statements one at a time and reacts to
their responses; between two statements of one request anything may happen
to the shared state. The scheduler supplies a *context* with every
statement (how much time passed, whether the statement failed), so that a
statement is a deterministic function of the context and the state.

This file defines programs, the execution of one program alone, and the
thread-local rule set `Meets`: what each statement of a program satisfies,
given the statements the same program issued before it, whatever the other
requests did in between.
-/

namespace SoulAuth.Framework

/-! ## Machines and programs -/

/-- A shared state with atomic statements. `Resp s` is what the statement
    `s` answers; `Ctx` is chosen by the scheduler. -/
structure Machine where
  State : Type
  Stmt : Type
  Resp : Stmt → Type
  Ctx : Type
  exec : Ctx → (s : Stmt) → State → Resp s × State

/-- A program that either has returned (`done`) or issues one statement and
    goes on with its response. -/
inductive Prog (M : Machine) (ε α : Type) : Type where
  | done (r : Except ε α)
  | step (s : M.Stmt) (k : M.Resp s → Prog M ε α)

namespace Prog

variable {M : Machine} {ε ε' α β γ : Type}

/-- Sequencing: an error ends the program. -/
def bind : Prog M ε α → (α → Prog M ε β) → Prog M ε β
  | done (.ok a), f => f a
  | done (.error e), _ => done (.error e)
  | step s k, f => step s fun r => (k r).bind f

instance : Monad (Prog M ε) where
  pure a := done (.ok a)
  bind := bind

/-- Run `p`; when it fails go on with `h`. -/
def handle : Prog M ε α → (ε → Prog M ε α) → Prog M ε α
  | done (.ok a), _ => done (.ok a)
  | done (.error e), h => h e
  | step s k, h => step s fun r => (k r).handle h

instance : MonadExcept ε (Prog M ε) where
  throw e := done (.error e)
  tryCatch := handle

/-- Issue one statement. -/
def issue (s : M.Stmt) : Prog M ε (M.Resp s) := step s fun r => done (.ok r)

/-- Run `p` and hand its outcome to the caller instead of failing. -/
def attempt : Prog M ε α → Prog M ε' (Except ε α)
  | done r => done (.ok r)
  | step s k => step s fun r => (k r).attempt

/-- Run `p` and go on whatever its outcome. -/
def swallow : Prog M ε α → Prog M ε' Unit
  | done _ => done (.ok ())
  | step s k => step s fun r => (k r).swallow

/-- Translate the error of a program. -/
def mapError (f : ε → ε') : Prog M ε α → Prog M ε' α
  | done (.ok a) => done (.ok a)
  | done (.error e) => done (.error (f e))
  | step s k => step s fun r => (k r).mapError f

/-- Fail with `e` unless `c` holds. -/
def ensure (c : Prop) [Decidable c] (e : ε) : Prog M ε Unit :=
  if c then done (.ok ()) else done (.error e)

/-- The value of an option, or the error `e`. -/
def orThrow (e : ε) : Option α → Prog M ε α
  | some a => done (.ok a)
  | none => done (.error e)

/-- The value of a result, or its error. -/
def ofExcept (r : Except ε α) : Prog M ε α := done r

@[simp] theorem pure_eq (a : α) : (pure a : Prog M ε α) = done (.ok a) := rfl

@[simp] theorem throw_eq (e : ε) : (throw e : Prog M ε α) = done (.error e) := rfl

@[simp] theorem done_ok_bind (a : α) (f : α → Prog M ε β) :
    (done (.ok a) : Prog M ε α) >>= f = f a := rfl

@[simp] theorem done_error_bind (e : ε) (f : α → Prog M ε β) :
    (done (.error e) : Prog M ε α) >>= f = done (.error e) := rfl

@[simp] theorem step_bind (s : M.Stmt) (k : M.Resp s → Prog M ε α) (f : α → Prog M ε β) :
    step s k >>= f = step s fun r => k r >>= f := rfl

theorem bind_pure' (p : Prog M ε α) : (p >>= fun a => done (.ok a)) = p := by
  induction p with
  | done r => cases r <;> rfl
  | step s k ih => simp only [step_bind, ih]

theorem bind_assoc' (p : Prog M ε α) (f : α → Prog M ε β) (g : β → Prog M ε γ) :
    p >>= f >>= g = p >>= fun a => f a >>= g := by
  induction p with
  | done r => cases r <;> rfl
  | step s k ih => simp only [step_bind, ih]

theorem mapError_bind (e : ε → ε') (p : Prog M ε α) (f : α → Prog M ε β) :
    (p >>= f).mapError e = p.mapError e >>= fun a => (f a).mapError e := by
  induction p with
  | done r => cases r <;> rfl
  | step s k ih => simp only [mapError, step_bind, ih]

instance : LawfulMonad (Prog M ε) :=
  LawfulMonad.mk' (Prog M ε) bind_pure' (fun _ _ => rfl) bind_assoc'

end Prog

/-! ## Entries of a trace -/

/-- One executed statement: the context it ran in and the state it found. -/
structure Entry (M : Machine) where
  ctx : M.Ctx
  stmt : M.Stmt
  before : M.State

namespace Entry

variable {M : Machine}

/-- What the statement answered. -/
def resp (e : Entry M) : M.Resp e.stmt := (M.exec e.ctx e.stmt e.before).1

/-- The state the statement left. -/
def after (e : Entry M) : M.State := (M.exec e.ctx e.stmt e.before).2

end Entry

/-! ## Running one program alone -/

namespace Prog

variable {M : Machine} {ε ε' α β γ : Type}

/-- Run a program with nothing in between; statement number `n` runs in the
    context `cs n`. Returns the outcome, the final state and the entries. -/
def runAlone (cs : Nat → M.Ctx) :
    Prog M ε α → M.State → Except ε α × M.State × List (Entry M)
  | done r, w => (r, w, [])
  | step s k, w =>
    let out := M.exec (cs 0) s w
    let rest := (k out.1).runAlone (fun n => cs (n + 1)) out.2
    (rest.1, rest.2.1, ⟨cs 0, s, w⟩ :: rest.2.2)

/-! ## Thread-local rules

`Meets I E Q h p`: whatever states satisfying `I` the statements of `p`
find, every entry of `p` satisfies `E` with the entries of the same thread
before it (`h` at first), and the outcome satisfies `Q` with all of them. -/

/-- The thread-local rule of a program. -/
def Meets (I : M.State → Prop) (E : List (Entry M) → Entry M → Prop)
    (Q : List (Entry M) → Except ε α → Prop) : List (Entry M) → Prog M ε α → Prop
  | h, done r => Q h r
  | h, step s k => ∀ ctx w, I w →
      E h ⟨ctx, s, w⟩ ∧ Meets I E Q (h ++ [⟨ctx, s, w⟩]) (k (M.exec ctx s w).1)

@[simp] theorem meets_done {I : M.State → Prop} {E : List (Entry M) → Entry M → Prop}
    {Q : List (Entry M) → Except ε α → Prop} {h : List (Entry M)} {r : Except ε α} :
    Meets I E Q h (done r) ↔ Q h r := Iff.rfl

@[simp] theorem meets_step {I : M.State → Prop} {E : List (Entry M) → Entry M → Prop}
    {Q : List (Entry M) → Except ε α → Prop} {h : List (Entry M)} {s : M.Stmt}
    {k : M.Resp s → Prog M ε α} :
    Meets I E Q h (step s k) ↔ ∀ ctx w, I w →
      E h ⟨ctx, s, w⟩ ∧ Meets I E Q (h ++ [⟨ctx, s, w⟩]) (k (M.exec ctx s w).1) := Iff.rfl

/-- The rule of sequencing: the first program's outcome is judged by the
    rule of the second one. -/
theorem meets_bind {I : M.State → Prop} {E : List (Entry M) → Entry M → Prop}
    {Q : List (Entry M) → Except ε β → Prop} {h : List (Entry M)} {p : Prog M ε α}
    {f : α → Prog M ε β} :
    Meets I E Q h (p >>= f) ↔
      Meets I E (fun h' r => match r with
        | .ok a => Meets I E Q h' (f a)
        | .error e => Q h' (.error e)) h p := by
  induction p generalizing h with
  | done r => cases r <;> rfl
  | step s k ih => simp only [step_bind, meets_step, ih]

theorem meets_attempt {I : M.State → Prop} {E : List (Entry M) → Entry M → Prop}
    {Q : List (Entry M) → Except ε' (Except ε α) → Prop} {h : List (Entry M)}
    {p : Prog M ε α} :
    Meets I E Q h (attempt p) ↔ Meets I E (fun h' r => Q h' (.ok r)) h p := by
  induction p generalizing h with
  | done r => rfl
  | step s k ih => simp only [attempt, meets_step, ih]

theorem meets_swallow {I : M.State → Prop} {E : List (Entry M) → Entry M → Prop}
    {Q : List (Entry M) → Except ε' Unit → Prop} {h : List (Entry M)} {p : Prog M ε α} :
    Meets I E Q h (swallow p) ↔ Meets I E (fun h' _ => Q h' (.ok ())) h p := by
  induction p generalizing h with
  | done r => rfl
  | step s k ih => simp only [swallow, meets_step, ih]

theorem meets_mapError {I : M.State → Prop} {E : List (Entry M) → Entry M → Prop}
    {Q : List (Entry M) → Except ε' α → Prop} {h : List (Entry M)} {g : ε → ε'}
    {p : Prog M ε α} :
    Meets I E Q h (mapError g p) ↔ Meets I E (fun h' r => Q h' (r.mapError g)) h p := by
  induction p generalizing h with
  | done r => cases r <;> rfl
  | step s k ih => simp only [mapError, meets_step, ih]

@[simp] theorem meets_issue {I : M.State → Prop} {E : List (Entry M) → Entry M → Prop}
    {s : M.Stmt} {Q : List (Entry M) → Except ε (M.Resp s) → Prop} {h : List (Entry M)} :
    Meets I E Q h (issue s) ↔ ∀ ctx w, I w →
      E h ⟨ctx, s, w⟩ ∧ Q (h ++ [⟨ctx, s, w⟩]) (.ok (M.exec ctx s w).1) := Iff.rfl

@[simp] theorem meets_ensure {I : M.State → Prop} {E : List (Entry M) → Entry M → Prop}
    {Q : List (Entry M) → Except ε Unit → Prop} {h : List (Entry M)} {c : Prop}
    [Decidable c] {e : ε} :
    Meets I E Q h (ensure c e) ↔ (c → Q h (.ok ())) ∧ (¬ c → Q h (.error e)) := by
  unfold ensure; split <;> simp_all

@[simp] theorem meets_orThrow {I : M.State → Prop} {E : List (Entry M) → Entry M → Prop}
    {Q : List (Entry M) → Except ε α → Prop} {h : List (Entry M)} {e : ε} {o : Option α} :
    Meets I E Q h (orThrow e o) ↔
      (∀ a, o = some a → Q h (.ok a)) ∧ (o = none → Q h (.error e)) := by
  cases o <;> simp [orThrow]

/-- The rule of consequence. The premises may use that the entries seen
    extend the ones the program started with. -/
theorem Meets.weaken {I I' : M.State → Prop} {E E' : List (Entry M) → Entry M → Prop}
    {Q Q' : List (Entry M) → Except ε α → Prop} {h : List (Entry M)} {p : Prog M ε α}
    (hp : Meets I E Q h p) (hI : ∀ w, I' w → I w)
    (hE : ∀ t e, I' e.before → E (h ++ t) e → E' (h ++ t) e)
    (hQ : ∀ t r, Q (h ++ t) r → Q' (h ++ t) r) : Meets I' E' Q' h p := by
  induction p generalizing h with
  | done r => simpa using hQ [] r (by simpa using hp)
  | step s k ih =>
    intro ctx w hw
    obtain ⟨he, hk⟩ := hp ctx w (hI w hw)
    refine ⟨by simpa using hE [] ⟨ctx, s, w⟩ hw (by simpa using he), ih _ hk ?_ ?_⟩
    · intro t e; simpa using hE (⟨ctx, s, w⟩ :: t) e
    · intro t r; simpa using hQ (⟨ctx, s, w⟩ :: t) r

/-- Two outcome rules at once. -/
theorem Meets.and {I : M.State → Prop} {E : List (Entry M) → Entry M → Prop}
    {Q Q' : List (Entry M) → Except ε α → Prop} {h : List (Entry M)} {p : Prog M ε α}
    (hp : Meets I E Q h p) (hp' : Meets I E Q' h p) :
    Meets I E (fun h' r => Q h' r ∧ Q' h' r) h p := by
  induction p generalizing h with
  | done r => exact ⟨hp, hp'⟩
  | step s k ih =>
    intro ctx w hw
    obtain ⟨he, hk⟩ := hp ctx w hw
    exact ⟨he, ih _ hk (hp' ctx w hw).2⟩

/-- Sequencing, forwards: what the first program guarantees of its outcome
    is what the second one starts from. -/
theorem Meets.bind {I : M.State → Prop} {E : List (Entry M) → Entry M → Prop}
    {P : List (Entry M) → Except ε α → Prop} {Q : List (Entry M) → Except ε β → Prop}
    {h : List (Entry M)} {p : Prog M ε α} {f : α → Prog M ε β} (hp : Meets I E P h p)
    (hok : ∀ t a, P (h ++ t) (.ok a) → Meets I E Q (h ++ t) (f a))
    (herr : ∀ t e, P (h ++ t) (.error e) → Q (h ++ t) (.error e)) :
    Meets I E Q h (p >>= f) := by
  refine meets_bind.mpr (hp.weaken (fun _ hw => hw) (fun _ _ _ he => he) fun t r hr => ?_)
  cases r with
  | ok a => exact hok t a hr
  | error e => exact herr t e hr

theorem Meets.attempt {I : M.State → Prop} {E : List (Entry M) → Entry M → Prop}
    {P : List (Entry M) → Except ε α → Prop} {Q : List (Entry M) → Except ε' (Except ε α) → Prop}
    {h : List (Entry M)} {p : Prog M ε α} (hp : Meets I E P h p)
    (hQ : ∀ t r, P (h ++ t) r → Q (h ++ t) (.ok r)) : Meets I E Q h (p.attempt) :=
  meets_attempt.mpr (hp.weaken (fun _ hw => hw) (fun _ _ _ he => he) hQ)

theorem Meets.swallow {I : M.State → Prop} {E : List (Entry M) → Entry M → Prop}
    {P : List (Entry M) → Except ε α → Prop} {Q : List (Entry M) → Except ε' Unit → Prop}
    {h : List (Entry M)} {p : Prog M ε α} (hp : Meets I E P h p)
    (hQ : ∀ t r, P (h ++ t) r → Q (h ++ t) (.ok ())) : Meets I E Q h (p.swallow) :=
  meets_swallow.mpr (hp.weaken (fun _ hw => hw) (fun _ _ _ he => he) hQ)

theorem Meets.mapError {I : M.State → Prop} {E : List (Entry M) → Entry M → Prop}
    {P : List (Entry M) → Except ε α → Prop} {Q : List (Entry M) → Except ε' α → Prop}
    {h : List (Entry M)} {p : Prog M ε α} {g : ε → ε'} (hp : Meets I E P h p)
    (hok : ∀ t a, P (h ++ t) (.ok a) → Q (h ++ t) (.ok a))
    (herr : ∀ t e, P (h ++ t) (.error e) → Q (h ++ t) (.error (g e))) :
    Meets I E Q h (p.mapError g) := by
  refine meets_mapError.mpr (hp.weaken (fun _ hw => hw) (fun _ _ _ he => he) fun t r hr => ?_)
  cases r with
  | ok a => exact hok t a hr
  | error e => exact herr t e hr

/-- What every entry of a program satisfies, the entries together satisfy at
    its end. -/
theorem Meets.gather {I : M.State → Prop} {P : Entry M → Prop}
    {Q : List (Entry M) → Except ε α → Prop} {h : List (Entry M)} {p : Prog M ε α}
    (hp : Meets I (fun _ => P) Q h p) :
    Meets I (fun _ => P) (fun h' r => (∃ t, h' = h ++ t ∧ ∀ e ∈ t, P e) ∧ Q h' r) h p := by
  induction p generalizing h with
  | done r => exact ⟨⟨[], by simp⟩, hp⟩
  | step s k ih =>
    intro ctx w hw
    obtain ⟨he, hk⟩ := hp ctx w hw
    refine ⟨he, (ih _ hk).weaken (fun _ hw => hw) (fun _ _ _ he => he) fun t r hr => ?_⟩
    obtain ⟨⟨t', ht', hall⟩, hQ⟩ := hr
    refine ⟨⟨⟨ctx, s, w⟩ :: t', by rw [ht']; simp, ?_⟩, hQ⟩
    intro e he'
    rcases List.mem_cons.mp he' with rfl | he'
    · exact he
    · exact hall e he'

/-- A rule that asks nothing is met. -/
theorem meets_trivial {I : M.State → Prop} {h : List (Entry M)} {p : Prog M ε α} :
    Meets I (fun _ _ => True) (fun _ _ => True) h p := by
  induction p generalizing h with
  | done r => trivial
  | step s k ih => exact fun ctx w _ => ⟨trivial, ih _⟩

/-! ### A program alone -/

/-- A program that runs alone keeps its rule. -/
theorem Meets.runAlone {E : List (Entry M) → Entry M → Prop}
    {Q : List (Entry M) → Except ε α → Prop} {h : List (Entry M)} {p : Prog M ε α}
    (hp : Meets (fun _ => True) E Q h p) (cs : Nat → M.Ctx) (w : M.State) :
    Q (h ++ (p.runAlone cs w).2.2) (p.runAlone cs w).1 := by
  induction p generalizing h cs w with
  | done r => simpa [Prog.runAlone] using hp
  | step s k ih =>
    have hk := ih _ (hp (cs 0) w trivial).2 (fun n => cs (n + 1)) (M.exec (cs 0) s w).2
    simpa [Prog.runAlone] using hk

/-- Statement number `i` of a program that runs alone runs in the context
    number `i`. -/
theorem runAlone_ctx {p : Prog M ε α} {cs : Nat → M.Ctx} {w : M.State} {i : Nat} {e : Entry M}
    (h : (p.runAlone cs w).2.2[i]? = some e) : e.ctx = cs i := by
  induction p generalizing cs w i with
  | done r => simp [Prog.runAlone] at h
  | step s k ih =>
    cases i with
    | zero =>
      obtain rfl : ⟨cs 0, s, w⟩ = e := by simpa [Prog.runAlone] using h
      rfl
    | succ i =>
      have h' : ((k (M.exec (cs 0) s w).1).runAlone (fun n => cs (n + 1))
          (M.exec (cs 0) s w).2).2.2[i]? = some e := by simpa [Prog.runAlone] using h
      have hctx := ih _ h'
      exact hctx

/-- A program that runs alone finds nothing but what its own statements
    leave. -/
theorem runAlone_before {p : Prog M ε α} {cs : Nat → M.Ctx} {w : M.State} {P : M.State → Prop}
    (hw : P w) (hs : ∀ e ∈ (p.runAlone cs w).2.2, P e.before → P e.after) :
    ∀ e ∈ (p.runAlone cs w).2.2, P e.before := by
  induction p generalizing cs w with
  | done r => simp [Prog.runAlone]
  | step s k ih =>
    intro e he
    simp only [Prog.runAlone, List.mem_cons] at he hs
    rcases he with rfl | he
    · exact hw
    · have hafter : P (M.exec (cs 0) s w).2 := hs ⟨cs 0, s, w⟩ (.inl rfl) hw
      exact ih _ hafter (fun e' he' => hs e' (.inr he')) e he

/-! ### Programs that issue only some statements -/

/-- Every statement of the program satisfies `S`, whatever the responses. -/
def Only (S : M.Stmt → Prop) : Prog M ε α → Prop
  | done _ => True
  | step s k => S s ∧ ∀ r, Only S (k r)

@[simp] theorem only_done {S : M.Stmt → Prop} {r : Except ε α} :
    Only S (done r : Prog M ε α) := trivial

@[simp] theorem only_step {S : M.Stmt → Prop} {s : M.Stmt} {k : M.Resp s → Prog M ε α} :
    Only S (step s k) ↔ S s ∧ ∀ r, Only S (k r) := Iff.rfl

theorem Only.bind {S : M.Stmt → Prop} {p : Prog M ε α} {f : α → Prog M ε β}
    (hp : Only S p) (hf : ∀ a, Only S (f a)) : Only S (p >>= f) := by
  induction p with
  | done r => cases r with
    | ok a => exact hf a
    | error e => trivial
  | step s k ih => exact ⟨hp.1, fun r => ih r (hp.2 r)⟩

theorem Only.attempt {S : M.Stmt → Prop} {p : Prog M ε α} (hp : Only S p) :
    Only S (p.attempt : Prog M ε' _) := by
  induction p with
  | done r => trivial
  | step s k ih => exact ⟨hp.1, fun r => ih r (hp.2 r)⟩

theorem Only.swallow {S : M.Stmt → Prop} {p : Prog M ε α} (hp : Only S p) :
    Only S (p.swallow : Prog M ε' Unit) := by
  induction p with
  | done r => trivial
  | step s k ih => exact ⟨hp.1, fun r => ih r (hp.2 r)⟩

theorem Only.mapError {S : M.Stmt → Prop} {p : Prog M ε α} {g : ε → ε'}
    (hp : Only S p) : Only S (p.mapError g) := by
  induction p with
  | done r => cases r <;> trivial
  | step s k ih => exact ⟨hp.1, fun r => ih r (hp.2 r)⟩

theorem Only.mono {S S' : M.Stmt → Prop} {p : Prog M ε α} (hp : Only S p)
    (hS : ∀ s, S s → S' s) : Only S' p := by
  induction p with
  | done r => trivial
  | step s k ih => exact ⟨hS s hp.1, fun r => ih r (hp.2 r)⟩

@[simp] theorem only_issue {S : M.Stmt → Prop} {s : M.Stmt} :
    Only S (issue s : Prog M ε (M.Resp s)) ↔ S s := by
  simp [issue]

@[simp] theorem only_ensure {S : M.Stmt → Prop} {c : Prop} [Decidable c] {e : ε} :
    Only S (ensure c e : Prog M ε Unit) := by
  unfold ensure; split <;> trivial

@[simp] theorem only_orThrow {S : M.Stmt → Prop} {e : ε} {o : Option α} :
    Only S (orThrow e o : Prog M ε α) := by
  cases o <;> trivial

/-- A program that issues only statements of one kind meets every rule that
    tolerates entries of that kind. -/
theorem Only.meets {S : M.Stmt → Prop} {I : M.State → Prop}
    {E : List (Entry M) → Entry M → Prop} {Q : List (Entry M) → Except ε α → Prop}
    {h : List (Entry M)} {p : Prog M ε α} (hp : Only S p)
    (hE : ∀ t e, (∀ e' ∈ t, S e'.stmt) → S e.stmt → E (h ++ t) e)
    (hQ : ∀ t r, (∀ e' ∈ t, S e'.stmt) → Q (h ++ t) r) : Meets I E Q h p := by
  induction p generalizing h with
  | done r => simpa using hQ [] r (by simp)
  | step s k ih =>
    intro ctx w _
    refine ⟨by simpa using hE [] ⟨ctx, s, w⟩ (by simp) hp.1, ih _ (hp.2 _) ?_ ?_⟩
    · intro t e ht he
      simpa using hE (⟨ctx, s, w⟩ :: t) e (by simpa using ⟨hp.1, ht⟩) he
    · intro t r ht
      simpa using hQ (⟨ctx, s, w⟩ :: t) r (by simpa using ⟨hp.1, ht⟩)

/-- The kind of the statements, added to a rule that is met. -/
theorem Meets.only {S : M.Stmt → Prop} {I : M.State → Prop}
    {E : List (Entry M) → Entry M → Prop} {Q : List (Entry M) → Except ε α → Prop}
    {h : List (Entry M)} {p : Prog M ε α} (hp : Meets I E Q h p) (hs : Only S p) :
    Meets I (fun h' e => E h' e ∧ S e.stmt) Q h p := by
  induction p generalizing h with
  | done r => exact hp
  | step s k ih =>
    intro ctx w hw
    obtain ⟨he, hk⟩ := hp ctx w hw
    exact ⟨⟨he, hs.1⟩, ih _ hk (hs.2 _)⟩

/-- What every statement of a program keeps, the program that runs alone
    keeps. -/
theorem Only.runAlone {S : M.Stmt → Prop} {p : Prog M ε α} (hp : Only S p)
    {P : M.State → Prop} (hS : ∀ s ctx w, S s → P w → P (M.exec ctx s w).2)
    {cs : Nat → M.Ctx} {w : M.State} (hw : P w) : P (p.runAlone cs w).2.1 := by
  induction p generalizing cs w with
  | done r => exact hw
  | step s k ih => exact ih _ (hp.2 _) (hS s (cs 0) w hp.1 hw)

end Prog

end SoulAuth.Framework
