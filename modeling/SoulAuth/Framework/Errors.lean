import SoulAuth.Framework.Alone

/-! # The errors of a program

`Fails P p` says that every error with which `p` may end satisfies `P`,
whatever its statements answer. It is a fact about the text of the program,
with one rule for each way to build one.
-/

namespace SoulAuth.Framework.Prog

variable {M : Machine} {ε ε' α β : Type}

/-- Every error of the program satisfies `P`. -/
def Fails (P : ε → Prop) : Prog M ε α → Prop
  | done (.ok _) => True
  | done (.error x) => P x
  | step _ k => ∀ r, Fails P (k r)

variable {P : ε → Prop} {P' : ε' → Prop} {p : Prog M ε α}

theorem fails_pure {a : α} : Fails P (pure a : Prog M ε α) := trivial

theorem fails_throw {x : ε} (h : P x) : Fails P (throw x : Prog M ε α) := h

theorem Fails.bind {f : α → Prog M ε β} (hp : Fails P p) (hf : ∀ a, Fails P (f a)) :
    Fails P (p >>= f) := by
  induction p with
  | done r =>
    cases r with
    | ok a => exact hf a
    | error x => exact hp
  | step s k ih =>
    intro r
    exact ih r (hp r)

/-- A translation of errors has the translated errors only. -/
theorem fails_mapError {g : ε → ε'} (h : ∀ x, P' (g x)) : Fails P' (p.mapError g) := by
  induction p with
  | done r =>
    cases r with
    | ok a => trivial
    | error x => exact h x
  | step s k ih =>
    intro r
    exact ih r

theorem Fails.mapError {g : ε → ε'} (hp : Fails P p) (h : ∀ x, P x → P' (g x)) :
    Fails P' (p.mapError g) := by
  induction p with
  | done r =>
    cases r with
    | ok a => trivial
    | error x => exact h x hp
  | step s k ih =>
    intro r
    exact ih r (hp r)

/-- An attempt does not fail. -/
theorem fails_attempt : Fails P' (p.attempt : Prog M ε' _) := by
  induction p with
  | done r => trivial
  | step s k ih =>
    intro r
    exact ih r

/-- What follows an attempt knows which errors there can be. -/
theorem Fails.attempt_bind {f : Except ε α → Prog M ε' β} (hp : Fails P p)
    (hok : ∀ a, Fails P' (f (.ok a))) (herr : ∀ x, P x → Fails P' (f (.error x))) :
    Fails P' (p.attempt >>= f) := by
  induction p with
  | done r =>
    cases r with
    | ok a => exact hok a
    | error x => exact herr x hp
  | step s k ih =>
    intro r
    exact ih r (hp r)

theorem fails_swallow : Fails P' (p.swallow : Prog M ε' _) := by
  induction p with
  | done r => trivial
  | step s k ih =>
    intro r
    exact ih r

theorem fails_ensure {c : Prop} [Decidable c] {x : ε} (h : ¬ c → P x) :
    Fails P (ensure c x : Prog M ε Unit) := by
  unfold ensure
  split
  · trivial
  · next hc => exact h hc

theorem fails_orThrow {x : ε} {o : Option α} (h : P x) : Fails P (orThrow x o : Prog M ε α) := by
  cases o with
  | some a => trivial
  | none => exact h

theorem fails_ofExcept {r : Except ε α} (h : ∀ x, r = .error x → P x) :
    Fails P (ofExcept r : Prog M ε α) := by
  cases r with
  | ok a => trivial
  | error x => exact h x rfl

/-- Whatever happens in between, the program fails as it may fail. -/
theorem Fails.meets {I : M.State → Prop} {h : List (Entry M)} (hp : Fails P p) :
    Meets I (fun _ _ => True) (fun _ r => ∀ x, r = .error x → P x) h p := by
  induction p generalizing h with
  | done r =>
    intro x hx
    subst hx
    exact hp
  | step s k ih =>
    intro ctx w _
    exact ⟨trivial, ih _ (hp _)⟩

/-- A rule that is met, and what the errors of the program satisfy. -/
theorem Meets.fails {I : M.State → Prop} {E : List (Entry M) → Entry M → Prop}
    {Q : List (Entry M) → Except ε α → Prop} {h : List (Entry M)} (hp : Meets I E Q h p)
    (hf : Fails P p) : Meets I E (fun h' r => Q h' r ∧ ∀ x, r = .error x → P x) h p := by
  induction p generalizing h with
  | done r =>
    refine ⟨hp, fun x hx => ?_⟩
    subst hx
    exact hf
  | step s k ih =>
    intro ctx w hw
    obtain ⟨he, hk⟩ := hp ctx w hw
    exact ⟨he, ih _ hk (hf _)⟩

/-- A run alone fails as the program may fail. -/
theorem Fails.alone {w : M.State} (hp : Fails P p) :
    Alone p w fun r _ _ => ∀ x, r = .error x → P x := by
  induction p generalizing w with
  | done r =>
    apply alone_done
    intro x hx
    subst hx
    exact hp
  | step s k ih =>
    apply alone_step
    intro ctx
    exact ih _ (hp _)

end SoulAuth.Framework.Prog
