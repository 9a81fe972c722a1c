import Mathlib.Data.Set.NAry
import Mathlib.Data.List.TakeWhile

/-! # Words that say where they end

The text of a compound value is a concatenation of words. It determines the
words when none of them can be taken for another one together with the
beginning of what follows. `Delimited A F x`: as long as what follows is in
`F`, the word `x` is not confused with a word of `A`.
-/

namespace SoulAuth.Framework

variable {α β : Type}

/-- A word of `A` that makes the same text as `x` is `x`. -/
def Delimited (A F : Set (List α)) (x : List α) : Prop :=
  ∀ y ∈ A, ∀ s ∈ F, ∀ t ∈ F, x ++ s = y ++ t → x = y ∧ s = t

/-- The texts that are empty or begin with a letter outside `p`. -/
def Outside (p : α → Bool) : Set (List α) := {s | ∀ c ∈ s.head?, p c = false}

namespace Delimited

variable {A A' B F F' : Set (List α)} {x y : List α} {p : α → Bool} {c sep close : α}

theorem mono (h : Delimited A F x) (hA : A' ⊆ A) (hF : F' ⊆ F) : Delimited A' F' x :=
  fun y hy s hs t ht heq => h y (hA hy) s (hF hs) t (hF ht) heq

/-- A word of letters ends where something else begins. -/
theorem letters (hx : ∀ c ∈ x, p c = true) :
    Delimited {y | ∀ c ∈ y, p c = true} (Outside p) x := by
  have hcut : ∀ y : List α, (∀ c ∈ y, p c = true) → ∀ s ∈ Outside p,
      (y ++ s).takeWhile p = y ∧ (y ++ s).dropWhile p = s := by
    intro y hy s hs
    rw [List.takeWhile_append_of_pos hy, List.dropWhile_append_of_pos hy]
    cases s with
    | nil => simp
    | cons c s =>
      have hc : p c = false := hs c rfl
      simp [hc]
  intro y hy s hs t ht heq
  obtain ⟨hword, hrest⟩ := hcut x hx s hs
  rw [heq] at hword hrest
  exact ⟨hword.symm.trans (hcut y hy t ht).1, hrest.symm.trans (hcut y hy t ht).2⟩

theorem cons (h : Delimited A F x) (c : α) : Delimited ((c :: ·) '' A) F (c :: x) := by
  intro z hz s hs t ht heq
  obtain ⟨y, hy, rfl⟩ := hz
  obtain ⟨hxy, hst⟩ := h y hy s hs t ht (List.cons.inj heq).2
  exact ⟨congrArg (c :: ·) hxy, hst⟩

/-- A word after one that ends whatever follows. -/
theorem append (hx : Delimited A Set.univ x) (hy : Delimited B F y) :
    Delimited (Set.image2 (· ++ ·) A B) F (x ++ y) := by
  intro z hz s hs t ht heq
  obtain ⟨x', hx', y', hy', rfl⟩ := hz
  dsimp only at heq
  rw [List.append_assoc, List.append_assoc] at heq
  obtain ⟨rfl, hrest⟩ := hx x' hx' _ trivial _ trivial heq
  obtain ⟨rfl, rfl⟩ := hy y' hy' s hs t ht hrest
  exact ⟨rfl, rfl⟩

/-- A text is cut at the last separator. -/
theorem last_sep_inj {u u' v v' : List α} (hv : sep ∉ v) (hv' : sep ∉ v')
    (h : u ++ sep :: v = u' ++ sep :: v') : u = u' ∧ v = v' := by
  classical
  -- from the end, the part behind it is a word without separators
  have hplain : ∀ w : List α, sep ∉ w → ∀ c ∈ w.reverse, (c ≠ sep : Bool) = true := by
    intro w hw c hc
    have hne : c ≠ sep := fun heq => hw (heq ▸ List.mem_reverse.mp hc)
    simpa using hne
  have hsep : ∀ w : List α, sep :: w ∈ Outside fun c => (c ≠ sep : Bool) := by
    intro w c hc
    obtain rfl : sep = c := Option.some.inj hc
    simp
  have hreverse : v.reverse ++ sep :: u.reverse = v'.reverse ++ sep :: u'.reverse := by
    simpa using congrArg List.reverse h
  obtain ⟨hword, hrest⟩ :=
    letters (hplain v hv) _ (hplain v' hv') _ (hsep _) _ (hsep _) hreverse
  exact ⟨List.reverse_inj.mp (List.cons.inj hrest).2, List.reverse_inj.mp hword⟩

/-! ## Lists of words -/

/-- The first word, and what follows it. -/
theorem intercalate_close (x : List α) (xs : List (List α)) (s : List α) :
    List.intercalate [sep] (x :: xs) ++ close :: s =
      x ++ if xs.isEmpty then close :: s
        else sep :: (List.intercalate [sep] xs ++ close :: s) := by
  cases xs with
  | nil => simp
  | cons y ys => simp [List.intercalate_cons_cons]

/-- Words between separators, up to the closing letter. -/
theorem intercalate_inj (hsep : ∀ s, sep :: s ∈ F) (hclose : ∀ s, close :: s ∈ F)
    (hne : sep ≠ close) (hstart : ∀ y ∈ A, ∃ c u, y = c :: u ∧ c ≠ close) {xs ys : List (List α)}
    (hxs : ∀ x ∈ xs, x ∈ A ∧ Delimited A F x) (hys : ∀ y ∈ ys, y ∈ A) {s t : List α}
    (heq : List.intercalate [sep] xs ++ close :: s = List.intercalate [sep] ys ++ close :: t) :
    xs = ys ∧ s = t := by
  -- a word does not begin with the closing letter
  have hopen : ∀ y ∈ A, ∀ u v, close :: u ≠ y ++ v := by
    intro y hy u v h
    obtain ⟨c, w, rfl, hc⟩ := hstart y hy
    exact hc (List.cons.inj h).1.symm
  have hrest : ∀ (xs : List (List α)) (s : List α), (if xs.isEmpty then close :: s
      else sep :: (List.intercalate [sep] xs ++ close :: s)) ∈ F := by
    intro xs s
    split
    · exact hclose s
    · exact hsep _
  induction xs generalizing ys with
  | nil =>
    cases ys with
    | nil => exact ⟨rfl, (List.cons.inj heq).2⟩
    | cons y ys =>
      rw [intercalate_close] at heq
      exact absurd heq (hopen y (hys y List.mem_cons_self) _ _)
  | cons x xs ih =>
    obtain ⟨⟨hxA, hx⟩, hxs'⟩ := List.forall_mem_cons.mp hxs
    rw [intercalate_close] at heq
    cases ys with
    | nil => exact absurd heq.symm (hopen x hxA _ _)
    | cons y ys =>
      obtain ⟨hyA, hys'⟩ := List.forall_mem_cons.mp hys
      rw [intercalate_close] at heq
      obtain ⟨rfl, hbehind⟩ := hx y hyA _ (hrest xs s) _ (hrest ys t) heq
      -- both lists end here, or both go on
      cases xs with
      | nil =>
        cases ys with
        | nil => exact ⟨rfl, (List.cons.inj hbehind).2⟩
        | cons y' ys => exact absurd (List.cons.inj hbehind).1.symm hne
      | cons x' xs =>
        cases ys with
        | nil => exact absurd (List.cons.inj hbehind).1 hne
        | cons y' ys =>
          obtain ⟨htail, hst⟩ := ih hxs' hys' (List.cons.inj hbehind).2
          exact ⟨congrArg (x :: ·) htail, hst⟩

/-- Letters in a code, up to a letter with which no code begins. -/
theorem flatMap_inj {f : β → List α} {stop : α}
    (hcode : ∀ b b' s t, f b ++ s = f b' ++ t → b = b' ∧ s = t)
    (hstop : ∀ b s t, f b ++ s ≠ stop :: t) {bs bs' : List β} {s t : List α}
    (heq : bs.flatMap f ++ stop :: s = bs'.flatMap f ++ stop :: t) : bs = bs' ∧ s = t := by
  induction bs generalizing bs' with
  | nil =>
    cases bs' with
    | nil => exact ⟨rfl, (List.cons.inj heq).2⟩
    | cons b bs' =>
      rw [List.flatMap_cons, List.append_assoc] at heq
      exact absurd heq.symm (hstop b _ _)
  | cons b bs ih =>
    rw [List.flatMap_cons, List.append_assoc] at heq
    cases bs' with
    | nil => exact absurd heq (hstop b _ _)
    | cons b' bs' =>
      rw [List.flatMap_cons, List.append_assoc] at heq
      obtain ⟨rfl, hrest⟩ := hcode b b' _ _ heq
      obtain ⟨rfl, hst⟩ := ih hrest
      exact ⟨rfl, hst⟩

end Delimited

end SoulAuth.Framework
