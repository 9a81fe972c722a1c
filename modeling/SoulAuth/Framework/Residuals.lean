import SoulAuth.Framework.Interleaving

/-! # What is left of a program

After some of its statements have been executed, a program has come down to
the program that is left. `ComesTo p h q` says that the entries `h` lead from
`p` to `q`; the states that the entries found are arbitrary, as they are in
an interleaved run.
-/

namespace SoulAuth.Framework

namespace Prog

variable {M : Machine} {ε α β : Type}

/-- The entries `h` are statements of `p`, one after the other, and `q` is
    left to be executed. -/
inductive ComesTo : Prog M ε α → List (Entry M) → Prog M ε α → Prop
  | nil (p : Prog M ε α) : ComesTo p [] p
  | cons {s : M.Stmt} {k : M.Resp s → Prog M ε α} {ctx : M.Ctx} {w : M.State}
      {h : List (Entry M)} {q : Prog M ε α} :
      ComesTo (k (M.exec ctx s w).1) h q → ComesTo (step s k) (⟨ctx, s, w⟩ :: h) q

variable {p q : Prog M ε α} {h : List (Entry M)}

/-- A program that has returned executes nothing. -/
theorem comesTo_done {r : Except ε α} (hl : ComesTo (done r) h q) : h = [] ∧ q = done r := by
  cases hl
  exact ⟨rfl, rfl⟩

/-- The next statement of a program. -/
theorem comesTo_step {s : M.Stmt} {k : M.Resp s → Prog M ε α} (hl : ComesTo (step s k) h q) :
    h = [] ∧ q = step s k ∨
      ∃ ctx w t, h = ⟨ctx, s, w⟩ :: t ∧ ComesTo (k (M.exec ctx s w).1) t q := by
  cases hl with
  | nil => exact .inl ⟨rfl, rfl⟩
  | cons hl => exact .inr ⟨_, _, _, rfl, hl⟩

theorem ComesTo.snoc {s : M.Stmt} {k : M.Resp s → Prog M ε α} (hl : ComesTo p h (step s k))
    (ctx : M.Ctx) (w : M.State) : ComesTo p (h ++ [⟨ctx, s, w⟩]) (k (M.exec ctx s w).1) := by
  generalize hq : step s k = q at hl
  induction hl with
  | nil =>
    subst hq
    exact .cons (.nil _)
  | cons _ ih => exact .cons (ih hq)

/-- Sequencing. -/
theorem ComesTo.bind {f : α → Prog M ε β} {a : α} {h' : List (Entry M)} {q : Prog M ε β}
    (hp : ComesTo p h (done (.ok a))) (hf : ComesTo (f a) h' q) :
    ComesTo (p >>= f) (h ++ h') q := by
  generalize hr : (done (.ok a) : Prog M ε α) = r at hp
  induction hp with
  | nil =>
    subst hr
    exact hf
  | cons _ ih => exact .cons (ih hr)

/-- A sequence has come down to the rest of its first program, or to a rest
    of the second one. -/
theorem comesTo_bind {f : α → Prog M ε β} {q : Prog M ε β} (hl : ComesTo (p >>= f) h q) :
    (∃ p', ComesTo p h p' ∧ q = p' >>= f) ∨
      ∃ a h₁ h₂, h = h₁ ++ h₂ ∧ ComesTo p h₁ (done (.ok a)) ∧ ComesTo (f a) h₂ q := by
  induction p generalizing h with
  | done r =>
    cases r with
    | ok a => exact .inr ⟨a, [], h, rfl, .nil _, hl⟩
    | error e =>
      obtain ⟨rfl, rfl⟩ := comesTo_done hl
      exact .inl ⟨_, .nil _, rfl⟩
  | step s k ih =>
    rcases comesTo_step hl with ⟨rfl, rfl⟩ | ⟨ctx, w, t, rfl, hrest⟩
    · exact .inl ⟨_, .nil _, rfl⟩
    · rcases ih _ hrest with ⟨p', hp', rfl⟩ | ⟨a, h₁, h₂, rfl, hp', hf⟩
      · exact .inl ⟨p', .cons hp', rfl⟩
      · exact .inr ⟨a, ⟨ctx, s, w⟩ :: h₁, h₂, rfl, .cons hp', hf⟩

/-- When a sequence is about to issue a statement, that is one of its first
    program's or of the second's. -/
theorem comesTo_bind_step {f : α → Prog M ε β} {s : M.Stmt} {k : M.Resp s → Prog M ε β}
    (hl : ComesTo (p >>= f) h (step s k)) :
    (∃ k', ComesTo p h (step s k')) ∨
      ∃ a h₁ h₂, h = h₁ ++ h₂ ∧ ComesTo p h₁ (done (.ok a)) ∧ ComesTo (f a) h₂ (step s k) := by
  rcases comesTo_bind hl with ⟨p', hp', heq⟩ | hsecond
  · cases p' with
    | done r =>
      cases r with
      | ok a =>
        refine .inr ⟨a, h, [], by simp, hp', ?_⟩
        rw [heq]
        exact .nil _
      | error e => cases heq
    | step s' k' =>
      rw [step_bind] at heq
      obtain rfl : s = s' := (step.inj heq).1
      exact .inl ⟨k', hp'⟩
  · exact .inr hsecond

/-- A sequence that has returned has returned from both programs. -/
theorem comesTo_bind_ok {f : α → Prog M ε β} {b : β} (hl : ComesTo (p >>= f) h (done (.ok b))) :
    ∃ a h₁ h₂, h = h₁ ++ h₂ ∧ ComesTo p h₁ (done (.ok a)) ∧ ComesTo (f a) h₂ (done (.ok b)) := by
  rcases comesTo_bind hl with ⟨p', hp', heq⟩ | hsecond
  · cases p' with
    | done r =>
      cases r with
      | ok a =>
        refine ⟨a, h, [], by simp, hp', ?_⟩
        rw [heq]
        exact .nil _
      | error e => cases heq
    | step s' k' => cases heq
  · exact hsecond

/-- A program of statements of one kind comes to such programs. -/
theorem Only.comesTo {S : M.Stmt → Prop} (hp : p.Only S) (hl : ComesTo p h q) : q.Only S := by
  induction hl with
  | nil => exact hp
  | cons _ ih => exact ih (hp.2 _)

/-- A program comes to each of its statements, and to its outcome. -/
theorem meets_comesTo {p₀ : Prog M ε α} (hp : ComesTo p₀ h p) :
    Meets (fun _ => True) (fun h e => ∃ k, ComesTo p₀ h (step e.stmt k))
      (fun h r => ComesTo p₀ h (done r)) h p := by
  induction p generalizing h with
  | done r => exact hp
  | step s k ih =>
    intro ctx w _
    exact ⟨⟨k, hp⟩, ih _ (hp.snoc ctx w)⟩

end Prog

namespace System

variable {S : System}

/-- Every request executes the program that serves it. -/
def residualRule (S : System) : Rule S where
  assumes _ := True
  entry r h e := ∃ k, Prog.ComesTo (S.program r) h (.step e.stmt k)
  outcome r h out := Prog.ComesTo (S.program r) h (.done out)

theorem residualRule_met : (residualRule S).Met := fun r => Prog.meets_comesTo (.nil (S.program r))

/-- Before each of its statements, a request has come down to it. -/
theorem Reachable.comesTo {w : S.machine.State} {c : S.Conf} (hc : Reachable w c)
    {tr₁ tr₂ : List (Nat × Entry S.machine)} {i : Nat} {e : Entry S.machine}
    (htr : c.trace = tr₁ ++ (i, e) :: tr₂) {r : S.Req} (hr : c.reqOf i = some r) :
    ∃ k, Prog.ComesTo (S.program r) (entriesOf i tr₁) (.step e.stmt k) := by
  obtain ⟨r', hr', hentry⟩ := (hc.rule residualRule_met fun _ => trivial).entries tr₁ i e tr₂ htr
  obtain rfl := Option.some.inj (hr.symm.trans hr')
  exact hentry

end System

end SoulAuth.Framework
