import Mathlib.Data.List.Forall2
import SoulAuth.Framework.Interleaving

/-! # Two services in step

A state may hold the same information in two forms, say in the clear and
encoded. Two programs mirror each other when, one statement after the other,
they keep states related that are, and end alike. Two services whose programs
mirror each other stay in step in every interleaving: the same choices of the
scheduler lead to related states, and every request has the same outcome.
-/

namespace SoulAuth.Framework

namespace Prog

variable {M : Machine} {ε ε' α α' β β' : Type}

/-- Two programs with as many statements, that keep states related by `R` and
    end with values related by `T` or with the same error. -/
inductive Mirrors (R : M.State → M.State → Prop) (T : α → α' → Prop) :
    Prog M ε α → Prog M ε α' → Prop
  | ok {a : α} {a' : α'} (h : T a a') : Mirrors R T (done (.ok a)) (done (.ok a'))
  | error (x : ε) : Mirrors R T (done (.error x)) (done (.error x))
  | step {s s' : M.Stmt} {k : M.Resp s → Prog M ε α} {k' : M.Resp s' → Prog M ε α'}
      (hkeeps : ∀ ctx w w', R w w' → R (M.exec ctx s w).2 (M.exec ctx s' w').2)
      (hnext : ∀ ctx w w', R w w' →
        Mirrors R T (k (M.exec ctx s w).1) (k' (M.exec ctx s' w').1)) :
      Mirrors R T (step s k) (step s' k')

variable {R : M.State → M.State → Prop} {T : α → α' → Prop}

/-- A program that has ended mirrors itself. -/
theorem mirrors_done (r : Except ε α) : Mirrors R Eq (done r) (done r) := by
  cases r with
  | ok a => exact .ok rfl
  | error x => exact .error x

theorem mirrors_ensure (c : Prop) [Decidable c] (e : ε) :
    Mirrors R Eq (ensure c e : Prog M ε Unit) (ensure c e) := by
  unfold ensure
  split
  · exact mirrors_done _
  · exact mirrors_done _

/-- The rule of sequencing. -/
theorem Mirrors.bind {p : Prog M ε α} {p' : Prog M ε α'} {T' : β → β' → Prop}
    {f : α → Prog M ε β} {f' : α' → Prog M ε β'} (h : Mirrors R T p p')
    (hf : ∀ a a', T a a' → Mirrors R T' (f a) (f' a')) :
    Mirrors R T' (p >>= f) (p' >>= f') := by
  induction h with
  | ok h => exact hf _ _ h
  | error x => exact .error x
  | step hkeeps _ ih => exact .step hkeeps ih

/-- Sequencing after programs that end with the same value. -/
theorem Mirrors.bind_eq {p p' : Prog M ε α} {T' : β → β' → Prop} {f : α → Prog M ε β}
    {f' : α → Prog M ε β'} (h : Mirrors R Eq p p') (hf : ∀ a, Mirrors R T' (f a) (f' a)) :
    Mirrors R T' (p >>= f) (p' >>= f') := by
  apply h.bind
  intro a a' heq
  rw [← heq]
  exact hf a

/-- How the outcomes of two programs are related. -/
inductive Outcomes (T : α → α' → Prop) : Except ε α → Except ε α' → Prop
  | ok {a : α} {a' : α'} (h : T a a') : Outcomes T (.ok a) (.ok a')
  | error (x : ε) : Outcomes T (.error x) (.error x)

/-- The rule of attempts. -/
theorem Mirrors.attempt {p : Prog M ε α} {p' : Prog M ε α'} (h : Mirrors R T p p') :
    Mirrors (ε := ε') R (Outcomes T) p.attempt p'.attempt := by
  induction h with
  | ok h => exact .ok (.ok h)
  | error x => exact .ok (.error x)
  | step hkeeps _ ih => exact .step hkeeps ih

end Prog

/-! ## Lists in step -/

section

variable {α β : Type} {P : α → β → Prop} {l : List α} {l' : List β}

theorem forall₂_getElem? (h : List.Forall₂ P l l') (i : Nat) :
    (l[i]? = none ∧ l'[i]? = none) ∨ ∃ x x', l[i]? = some x ∧ l'[i]? = some x' ∧ P x x' := by
  induction h generalizing i with
  | nil => exact .inl ⟨rfl, rfl⟩
  | cons hx _ ih =>
    cases i with
    | zero => exact .inr ⟨_, _, rfl, rfl, hx⟩
    | succ i => simpa using ih i

theorem forall₂_set (h : List.Forall₂ P l l') (i : Nat) {x : α} {x' : β} (hx : P x x') :
    List.Forall₂ P (l.set i x) (l'.set i x') := by
  induction h generalizing i with
  | nil => exact .nil
  | cons hy hrest ih =>
    cases i with
    | zero => exact .cons hx hrest
    | succ i => exact .cons hy (ih i)

end

/-! ## Services -/

section

variable {M : Machine} {Req Req' Err Res : Type}

/-- The system of the requests that a service answers. -/
@[reducible] def service (serve : Req → Prog M Err Res) : System where
  machine := M
  Req := Req
  Err := Err
  Res := Res
  program := serve

/-- The same choice of the scheduler, for the requests of the other service. -/
def mirrorAction {serve : Req → Prog M Err Res} {serve' : Req' → Prog M Err Res}
    (f : Req' → Req) : (service serve').Action → (service serve).Action
  | .start r => .start (f r)
  | .step i ctx => .step i ctx

variable {serve : Req → Prog M Err Res} {serve' : Req' → Prog M Err Res}

/-- Two configurations with related states, whose requests mirror each other. -/
structure Abreast (R : M.State → M.State → Prop) (c : (service serve).Conf)
    (c' : (service serve').Conf) : Prop where
  state : R c.state c'.state
  threads : List.Forall₂
    (fun t t' => Prog.Mirrors R Eq (System.Thread.prog t) (System.Thread.prog t'))
    c.threads c'.threads

variable {R : M.State → M.State → Prop} {c : (service serve).Conf}
  {c' : (service serve').Conf}

theorem Abreast.next {f : Req' → Req}
    (hserve : ∀ r, Prog.Mirrors R Eq (serve (f r)) (serve' r)) (h : Abreast R c c')
    (a : (service serve').Action) : Abreast R (c.next (mirrorAction f a)) (c'.next a) := by
  cases a with
  | start r => exact ⟨h.state, List.rel_append h.threads (.cons (hserve r) .nil)⟩
  | step i ctx =>
    show Abreast R (c.next (.step i ctx)) (c'.next (.step i ctx))
    -- the request is there in both services or in neither
    rcases forall₂_getElem? h.threads i with hnone | hsome
    · have hc : c.next (.step i ctx) = c := by simp [System.Conf.next, hnone.1]
      have hc' : c'.next (.step i ctx) = c' := by simp [System.Conf.next, hnone.2]
      rw [hc, hc']
      exact h
    · obtain ⟨⟨r, p, n⟩, ⟨r', p', n'⟩, ht, ht', hmirrors⟩ := hsome
      -- a program that has ended stays as it is in both
      cases hmirrors with
      | ok heq =>
        have hc : c.next (.step i ctx) = c := by simp [System.Conf.next, ht]
        have hc' : c'.next (.step i ctx) = c' := by simp [System.Conf.next, ht']
        rw [hc, hc']
        exact h
      | error x =>
        have hc : c.next (.step i ctx) = c := by simp [System.Conf.next, ht]
        have hc' : c'.next (.step i ctx) = c' := by simp [System.Conf.next, ht']
        rw [hc, hc']
        exact h
      | step hkeeps hnext =>
        simp only [System.Conf.next, ht, ht']
        exact ⟨hkeeps ctx _ _ h.state, forall₂_set h.threads i (hnext ctx _ _ h.state)⟩

/-- **Services stay in step.** -/
theorem Abreast.run {f : Req' → Req} (hserve : ∀ r, Prog.Mirrors R Eq (serve (f r)) (serve' r))
    (h : Abreast R c c') (as : List (service serve').Action) :
    Abreast R (c.run (as.map (mirrorAction f))) (c'.run as) := by
  induction as generalizing c c' with
  | nil => exact h
  | cons a as ih => exact ih (h.next hserve a)

theorem Abreast.outcome (h : Abreast R c c') (i : Nat) : c.outcome i = c'.outcome i := by
  unfold System.Conf.outcome
  rcases forall₂_getElem? h.threads i with hnone | hsome
  · rw [hnone.1, hnone.2]
    rfl
  · obtain ⟨⟨r, p, n⟩, ⟨r', p', n'⟩, ht, ht', hmirrors⟩ := hsome
    rw [ht, ht']
    cases hmirrors with
    | ok heq =>
      subst heq
      rfl
    | error x => rfl
    | step hkeeps hnext => rfl

/-- Two services start in step in related states. -/
theorem abreast_initial {w w' : M.State} (h : R w w') :
    Abreast R ((service serve).initial w) ((service serve').initial w') :=
  ⟨h, .nil⟩

end

end SoulAuth.Framework
