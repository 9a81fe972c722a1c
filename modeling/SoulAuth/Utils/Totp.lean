import SoulAuth.Utils.Text

/-! # Time steps

The window in which a TOTP code is looked for. The generator of codes is a
function of the Unix time, at which it is asked for the start of a step.
-/

namespace SoulAuth

/-- `TOTP_STEP_SECS`. -/
def totpStepSecs : Int := 30

/-- `match_totp_step`: the first step of the window that has this code. Steps
    before the epoch are skipped. -/
def matchTotpStep (generate : Nat → Str) (code : Str) (now : Int) : Option Int :=
  let currentStep := now / totpStepSecs
  ([-1, 0, 1].map (currentStep + ·)).find? fun step =>
    0 ≤ step && generate (step * totpStepSecs).toNat = code

/-- The steps that the window has: the current one and its neighbours, as far
    as they are not before the epoch. -/
def InWindow (now step : Int) : Prop :=
  0 ≤ step ∧ now / totpStepSecs - 1 ≤ step ∧ step ≤ now / totpStepSecs + 1

/-- The code is the one of this step. -/
def Matches (generate : Nat → Str) (code : Str) (now step : Int) : Prop :=
  InWindow now step ∧ generate (step * totpStepSecs).toNat = code

section

variable {generate : Nat → Str} {code : Str} {now step : Int}

/-- In an increasing list, the first element with a property is the smallest. -/
theorem find?_of_increasing {l : List Int} {p : Int → Bool} (hl : l.Pairwise (· < ·)) :
    (l.find? p = none ∧ ∀ x ∈ l, ¬ p x = true) ∨
      ∃ x ∈ l, l.find? p = some x ∧ p x = true ∧ ∀ y ∈ l, p y = true → x ≤ y := by
  cases hfind : l.find? p with
  | none => exact .inl ⟨rfl, List.find?_eq_none.mp hfind⟩
  | some x =>
    right
    obtain ⟨hx, before, behind, rfl, hbefore⟩ := List.find?_eq_some_iff_append.mp hfind
    refine ⟨x, List.mem_append_right _ List.mem_cons_self, rfl, hx, ?_⟩
    intro y hy hpy
    rcases List.mem_append.mp hy with hy | hy
    · have hno := hbefore y hy
      simp [hpy] at hno
    · rcases List.mem_cons.mp hy with rfl | hy
      · exact Int.le_refl _
      · have hbehind := (List.pairwise_cons.mp (List.pairwise_append.mp hl).2.1).1
        exact Int.le_of_lt (hbehind y hy)

/-- The steps that are tried are those of the window, apart from its bound. -/
theorem mem_tried : step ∈ [-1, 0, 1].map (now / totpStepSecs + ·) ↔
    now / totpStepSecs - 1 ≤ step ∧ step ≤ now / totpStepSecs + 1 := by
  simp only [List.map_cons, List.map_nil, List.mem_cons, List.not_mem_nil, or_false]
  omega

theorem matches_iff : Matches generate code now step ↔
    step ∈ [-1, 0, 1].map (now / totpStepSecs + ·) ∧
      (0 ≤ step && generate (step * totpStepSecs).toNat = code) = true := by
  rw [mem_tried, Bool.and_eq_true, decide_eq_true_eq, decide_eq_true_eq, Matches, InWindow]
  tauto

/-- No step matches, or the one found is the first that does. -/
theorem matchTotpStep_first (generate : Nat → Str) (code : Str) (now : Int) :
    (matchTotpStep generate code now = none ∧ ∀ step, ¬ Matches generate code now step) ∨
      ∃ step, matchTotpStep generate code now = some step ∧ Matches generate code now step ∧
        ∀ other, Matches generate code now other → step ≤ other := by
  have hincreasing : ([-1, 0, 1].map (now / totpStepSecs + ·)).Pairwise (· < ·) := by
    have hoffsets : [-1, 0, 1].Pairwise ((· < ·) : Int → Int → Prop) := by decide
    exact hoffsets.map _ fun a b hab => Int.add_lt_add_left hab _
  let p : Int → Bool := fun step => 0 ≤ step && generate (step * totpStepSecs).toNat = code
  rcases find?_of_increasing (p := p) hincreasing with ⟨hfind, hnone⟩ | ⟨step, hmem, hfind, hstep, hleast⟩
  · refine .inl ⟨hfind, fun step h => ?_⟩
    have hstep := matches_iff.mp h
    exact hnone step hstep.1 hstep.2
  · refine .inr ⟨step, hfind, matches_iff.mpr ⟨hmem, hstep⟩, fun other h => ?_⟩
    have hother := matches_iff.mp h
    exact hleast other hother.1 hother.2

end

end SoulAuth
