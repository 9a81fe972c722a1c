import SoulAuth.Framework.Interleaving

/-! # Two runs of a program

A request does not run alone: what its statements find is what the other
requests have left. `against cs ws` is the outcome of a program whose
statement number `n` runs in the context `cs n` and finds the state `ws n`,
whoever left it there.

Two programs are twins when they issue the same statements as long as they
find related states, and end with related values or the same error.
Noninterference is the case of equal values: what the relation hides has no
influence.
-/

namespace SoulAuth.Framework.Prog

variable {M : Machine} {ε α α' β β' : Type}

/-! ## A program against a sequence of states -/

/-- The outcome of a program whose statement number `n` finds `ws n`. -/
def against (cs : Nat → M.Ctx) (ws : Nat → M.State) : Prog M ε α → Except ε α
  | done r => r
  | step s k =>
    (k (M.exec (cs 0) s (ws 0)).1).against (fun n => cs (n + 1)) fun n => ws (n + 1)

/-- The contexts and the states are those of the entries. -/
def FoundBy (es : List (Entry M)) (cs : Nat → M.Ctx) (ws : Nat → M.State) : Prop :=
  ∀ n e, es[n]? = some e → cs n = e.ctx ∧ ws n = e.before

/-- What a program meets holds of its outcome, whatever states of the
    invariant it finds. -/
theorem Meets.against {I : M.State → Prop} {E : List (Entry M) → Entry M → Prop}
    {Q : List (Entry M) → Except ε α → Prop} {h : List (Entry M)} {p : Prog M ε α}
    (hp : Meets I E Q h p) (cs : Nat → M.Ctx) {ws : Nat → M.State} (hI : ∀ n, I (ws n)) :
    ∃ es, FoundBy es cs ws ∧ Q (h ++ es) (p.against cs ws) := by
  induction p generalizing h cs ws with
  | done r =>
    refine ⟨[], ?_, by simpa [Prog.against] using hp⟩
    intro n e he
    cases he
  | step s k ih =>
    have hrest : ∀ n, I ((fun n => ws (n + 1)) n) := fun n => hI (n + 1)
    obtain ⟨es, hfound, hQ⟩ := ih _ (hp (cs 0) (ws 0) (hI 0)).2 (fun n => cs (n + 1)) hrest
    refine ⟨⟨cs 0, s, ws 0⟩ :: es, ?_, by simpa [Prog.against] using hQ⟩
    intro n e he
    cases n with
    | zero =>
      cases he
      exact ⟨rfl, rfl⟩
    | succ n => exact hfound n e he

/-- A program ends as it does against the states that its own entries found. -/
theorem meets_against {I : M.State → Prop} {p : Prog M ε α} {h : List (Entry M)} :
    Meets I (fun _ _ => True) (fun t r => ∀ es, t = h ++ es →
      ∀ cs ws, FoundBy es cs ws → p.against cs ws = r) h p := by
  induction p generalizing h with
  | done r => exact fun _ _ _ _ _ => rfl
  | step s k ih =>
    intro ctx w _
    refine ⟨trivial, (ih (M.exec ctx s w).1).weaken (fun _ hw => hw) (fun _ _ _ he => he) ?_⟩
    intro t r hr es heq cs ws hfound
    rw [List.append_assoc] at heq
    obtain rfl : es = ⟨ctx, s, w⟩ :: t := (List.append_cancel_left heq).symm
    obtain ⟨hctx, hstate⟩ := hfound 0 ⟨ctx, s, w⟩ rfl
    show (k (M.exec (cs 0) s (ws 0)).1).against (fun n => cs (n + 1)) _ = r
    rw [hctx, hstate]
    exact hr t rfl _ _ fun n e he => hfound (n + 1) e he

/-! ## Twins -/

/-- Two programs that issue the same statements while they find states
    related by `R`, and end with values related by `T` or with the same
    error. -/
inductive Twins (R : M.State → M.State → Prop) (T : α → α' → Prop) :
    Prog M ε α → Prog M ε α' → Prop
  | ok {a : α} {a' : α'} (h : T a a') : Twins R T (done (.ok a)) (done (.ok a'))
  | error (x : ε) : Twins R T (done (.error x)) (done (.error x))
  | step {s : M.Stmt} {k : M.Resp s → Prog M ε α} {k' : M.Resp s → Prog M ε α'}
      (h : ∀ ctx w w', R w w' → Twins R T (k (M.exec ctx s w).1) (k' (M.exec ctx s w').1)) :
      Twins R T (step s k) (step s k')

variable {R : M.State → M.State → Prop} {T : α → α' → Prop} {p : Prog M ε α}
  {p' : Prog M ε α'}

/-- Twins with equal values have equal outcomes wherever they find related
    states. -/
theorem Twins.against_eq {p p' : Prog M ε α} (h : Twins R Eq p p') {cs : Nat → M.Ctx}
    {ws ws' : Nat → M.State} (hR : ∀ n, R (ws n) (ws' n)) :
    p.against cs ws = p'.against cs ws' := by
  induction h generalizing cs ws ws' with
  | ok h =>
    rw [h]
    rfl
  | error x => rfl
  | step h ih => exact ih (cs 0) (ws 0) (ws' 0) (hR 0) fun n => hR (n + 1)

/-- The rule of sequencing. -/
theorem Twins.bind {T' : β → β' → Prop} {f : α → Prog M ε β} {f' : α' → Prog M ε β'}
    (h : Twins R T p p') (hf : ∀ a a', T a a' → Twins R T' (f a) (f' a')) :
    Twins R T' (p >>= f) (p' >>= f') := by
  induction h with
  | ok h => exact hf _ _ h
  | error x => exact .error x
  | step _ ih => exact .step ih

/-- Sequencing after twins with equal values. -/
theorem Twins.bind_eq {T' : β → β' → Prop} {p p' : Prog M ε α} {f : α → Prog M ε β}
    {f' : α → Prog M ε β'} (h : Twins R Eq p p') (hf : ∀ a, Twins R T' (f a) (f' a)) :
    Twins R T' (p >>= f) (p' >>= f') := by
  apply h.bind
  intro a a' heq
  rw [← heq]
  exact hf a

/-- A program that has ended is its own twin. -/
theorem twins_done (r : Except ε α) : Twins R Eq (done r) (done r) := by
  cases r with
  | ok a => exact .ok rfl
  | error x => exact .error x

/-- A program is its own twin where every one of its statements answers the
    same in related states. -/
theorem Only.twins {S : M.Stmt → Prop} (hp : Only S p)
    (hS : ∀ s ctx w w', S s → R w w' → (M.exec ctx s w).1 = (M.exec ctx s w').1) :
    Twins R Eq p p := by
  induction p with
  | done r => exact twins_done r
  | step s k ih =>
    apply Twins.step
    intro ctx w w' hR
    rw [← hS s ctx w w' hp.1 hR]
    exact ih _ (hp.2 _)

end SoulAuth.Framework.Prog

namespace SoulAuth.Framework.System

open Prog

/-- In every interleaving a request that has returned ended as its program
    does against the states that its entries found. -/
theorem Reachable.against {S : System} {w : S.machine.State} {c : S.Conf} (hc : Reachable w c)
    {i : Nat} {r : Except S.Err S.Res} (hr : c.Returned i r) {cs : Nat → S.machine.Ctx}
    {ws : Nat → S.machine.State} (hfound : FoundBy (entriesOf i c.trace) cs ws) :
    ∃ q, c.reqOf i = some q ∧ (S.program q).against cs ws = r := by
  let found : Rule S :=
    { assumes := fun _ => True
      entry := fun _ _ _ => True
      outcome := fun q es r => ∀ cs ws, FoundBy es cs ws → (S.program q).against cs ws = r }
  have hmet : found.Met := by
    intro q
    apply (meets_against (I := found.assumes)).weaken (fun _ hw => hw) (fun _ _ _ he => he)
    intro t r hr cs ws hfound
    exact hr t rfl cs ws hfound
  obtain ⟨q, hq, hout⟩ := (hc.rule hmet fun _ => trivial).returned hr
  exact ⟨q, hq, hout cs ws hfound⟩

end SoulAuth.Framework.System
