import SoulAuth.Framework.Interleaving

/-! # Resources that are used once

A resource is minted once and *spent* by an atomic step that needs it
unspent. Counting shows that two steps cannot both spend it: every spending
step lowers a potential by one, and only minting raises it.
-/

namespace SoulAuth.Framework

/-! ## Counting rows -/

section

variable {α : Type}

/-- Spending rows takes as many off the count of unspent rows. -/
theorem countP_spend {p q : α → Bool} {f : α → α} (hq : ∀ x, q x = true → p x = true)
    (hspent : ∀ x, q x = true → p (f x) = false) (l : List α) :
    (l.map fun x => if q x then f x else x).countP p + l.countP q = l.countP p := by
  induction l with
  | nil => rfl
  | cons x l ih =>
    by_cases hx : q x = true
    · simp only [List.map_cons, hx, if_true, List.countP_cons, hq x hx, hspent x hx,
        Bool.false_eq_true, if_false]
      omega
    · simp only [List.map_cons, hx, Bool.false_eq_true, if_false, List.countP_cons, Nat.add_zero]
      omega

/-- A change that mints no unspent row does not raise the count. -/
theorem countP_map_le {p : α → Bool} {f : α → α} (hf : ∀ x, p (f x) = true → p x = true)
    (l : List α) : (l.map f).countP p ≤ l.countP p := by
  rw [List.countP_map]
  exact List.countP_mono_left fun x _ hx => hf x hx

/-- At most one element of a list satisfies `p`, if no two places do. -/
theorem filter_length_le_one {p : α → Bool} {l : List α}
    (h : ∀ l₁ x l₂ y l₃, l = l₁ ++ x :: (l₂ ++ y :: l₃) → p x = true → p y = true → False) :
    (l.filter p).length ≤ 1 := by
  induction l with
  | nil => simp
  | cons a l ih =>
    have ih' : (l.filter p).length ≤ 1 := by
      refine ih fun l₁ x l₂ y l₃ hl hx hy => ?_
      exact h (a :: l₁) x l₂ y l₃ (by rw [hl, List.cons_append]) hx hy
    by_cases ha : p a = true
    · have hnil : l.filter p = [] := by
        refine List.filter_eq_nil_iff.mpr fun b hb hpb => ?_
        obtain ⟨l₂, l₃, rfl⟩ := List.append_of_mem hb
        exact h [] a l₂ b l₃ rfl ha hpb
      simp [ha, hnil]
    · simpa [ha] using ih'

end

/-! ## Potentials of a trace -/

namespace System

variable {S : System}

/-- Along a trace, what is gained and the potential left are covered by the
    potential at first and what is put in. -/
theorem Steps.potential {w w' : S.machine.State} {tr : List (Nat × Entry S.machine)}
    (h : Steps w tr w') (pot : S.machine.State → Nat) (gain cost : Nat × Entry S.machine → Nat)
    (hs : ∀ i e, (i, e) ∈ tr → gain (i, e) + pot e.after ≤ pot e.before + cost (i, e)) :
    (tr.map gain).sum + pot w' ≤ pot w + (tr.map cost).sum := by
  induction h with
  | nil => simp
  | snoc i e _ he ih =>
    have hpre := ih fun j e' hm => hs j e' (by simp [hm])
    have hlast := hs i e (by simp)
    rw [← he] at hpre
    simp only [List.map_append, List.map_cons, List.map_nil, List.sum_append, List.sum_cons,
      List.sum_nil]
    omega

/-- **One winner.** If a resource is minted at one place of the trace at
    most, minting raises its potential by at most one, nothing else raises
    it and winning takes one off, then there is one winning entry at most. -/
theorem Steps.one_winner {w w' : S.machine.State} {tr : List (Nat × Entry S.machine)}
    (h : Steps w tr w') (pot : S.machine.State → Nat) (wins mints : Nat × Entry S.machine → Prop)
    (h0 : pot w = 0)
    (hwin : ∀ i e, (i, e) ∈ tr → wins (i, e) → pot e.after + 1 ≤ pot e.before)
    (hmint : ∀ i e, (i, e) ∈ tr → mints (i, e) → pot e.after ≤ pot e.before + 1)
    (hother : ∀ i e, (i, e) ∈ tr → ¬ mints (i, e) → pot e.after ≤ pot e.before)
    (honce : ∀ tr₁ x tr₂ y tr₃, tr = tr₁ ++ x :: (tr₂ ++ y :: tr₃) → mints x → mints y → False)
    {x y : Nat × Entry S.machine} (hx : x ∈ tr) (hy : y ∈ tr) (hwx : wins x) (hwy : wins y) :
    x = y := by
  classical
  have hcount := h.potential pot (fun a => if wins a then 1 else 0)
    (fun a => if mints a then 1 else 0) fun i e hm => by
      by_cases hw : wins (i, e)
      · have := hwin i e hm hw
        rw [if_pos hw]
        omega
      · by_cases hm' : mints (i, e)
        · have := hmint i e hm hm'
          rw [if_neg hw, if_pos hm']
          omega
        · have := hother i e hm hm'
          rw [if_neg hw, if_neg hm']
          omega
  have hsum : ∀ (p : Nat × Entry S.machine → Prop),
      (tr.map fun a => if p a then 1 else 0).sum = (tr.filter fun a => p a).length := by
    intro p
    rw [← List.countP_eq_length_filter]
    clear hcount hx hy honce hother hmint hwin h
    induction tr with
    | nil => rfl
    | cons a tr ih => by_cases ha : p a <;> simp [ha, ih, Nat.add_comm]
  have hmints : (tr.filter fun a => mints a).length ≤ 1 :=
    filter_length_le_one fun l₁ a l₂ b l₃ hl ha hb =>
      honce l₁ a l₂ b l₃ hl (by simpa using ha) (by simpa using hb)
  rw [hsum wins, hsum mints, h0] at hcount
  have hwins : (tr.filter fun a => wins a).length ≤ 1 := by omega
  have hmem : ∀ z, z ∈ tr → wins z → z ∈ tr.filter fun a => wins a := fun z hz hw =>
    List.mem_filter.mpr ⟨hz, by simpa using hw⟩
  have hx' := hmem x hx hwx
  have hy' := hmem y hy hwy
  generalize tr.filter (fun a => wins a) = l at hwins hx' hy'
  match l with
  | [] => simp at hx'
  | [a] => rw [List.mem_singleton.mp hx', List.mem_singleton.mp hy']
  | a :: b :: l => simp at hwins

end System

end SoulAuth.Framework
