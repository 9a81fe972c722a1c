import Mathlib.Data.List.Basic
import Mathlib.Data.Set.Function

/-! # Hash chains

A hash chain is a list of numbered rows, each of which stores the hash of
the row before it and a hash of its own content, which includes the hash
of the row before. Two chains that agree on one hash agree on everything
up to the row that stores it.
-/

namespace SoulAuth.Framework

/-- How rows of a type make a chain: the number of a row, the hash it names
    as its predecessor's, the hash it stores as its own, and the hash
    function on the contents of rows. -/
structure ChainView (ρ κ η : Type) where
  number : ρ → Int
  previous : ρ → η
  stored : ρ → η
  content : ρ → κ
  hash : κ → η

namespace ChainView

variable {ρ κ η : Type} (C : ChainView ρ κ η)

/-- The rows are numbered from `n`, the first follows the hash `p`, and
    every other one follows the row before it. -/
def Linked : η → Int → List ρ → Prop
  | _, _, [] => True
  | p, n, r :: rs =>
    C.number r = n ∧ C.previous r = p ∧ C.hash (C.content r) = C.stored r ∧
      Linked (C.stored r) (n + 1) rs

variable {C} {p : η} {n : Int} {rs : List ρ}

@[simp] theorem linked_nil : C.Linked p n [] := trivial

@[simp] theorem linked_cons {r : ρ} :
    C.Linked p n (r :: rs) ↔ C.number r = n ∧ C.previous r = p ∧
      C.hash (C.content r) = C.stored r ∧ C.Linked (C.stored r) (n + 1) rs := Iff.rfl

variable (C) in
/-- The hash that the row after `rs` has to follow. -/
def head (p : η) (rs : List ρ) : η := (rs.getLast?.map C.stored).getD p

@[simp] theorem head_nil : C.head p [] = p := rfl

@[simp] theorem head_cons {r : ρ} : C.head p (r :: rs) = C.head (C.stored r) rs := by
  cases rs with
  | nil => rfl
  | cons r' rs =>
    obtain ⟨l, hl⟩ := Option.ne_none_iff_exists'.mp
      (mt List.getLast?_eq_none_iff.mp (List.cons_ne_nil r' rs))
    simp [head, List.getLast?_cons_cons, hl]

/-- A chain grows by a row that follows its head. -/
theorem linked_snoc {r : ρ} :
    C.Linked p n (rs ++ [r]) ↔ C.Linked p n rs ∧ C.number r = n + rs.length ∧
      C.previous r = C.head p rs ∧ C.hash (C.content r) = C.stored r := by
  induction rs generalizing p n with
  | nil => simp
  | cons r' rs ih =>
    rw [List.cons_append, linked_cons, ih, linked_cons, head_cons, List.length_cons]
    have hnum : n + 1 + (rs.length : Int) = n + ((rs.length + 1 : Nat) : Int) := by omega
    rw [hnum]
    tauto

/-- A chain is seen through another view of its rows. -/
theorem linked_map {ρ' : Type} {C' : ChainView ρ' κ η} {f : ρ → ρ'} (hhash : C'.hash = C.hash)
    (hf : ∀ r ∈ rs, C'.number (f r) = C.number r ∧ C'.previous (f r) = C.previous r ∧
      C'.stored (f r) = C.stored r ∧ C'.content (f r) = C.content r) :
    C'.Linked p n (rs.map f) ↔ C.Linked p n rs := by
  induction rs generalizing p n with
  | nil => simp
  | cons r rs ih =>
    obtain ⟨⟨h₁, h₂, h₃, h₄⟩, hrest⟩ := List.forall_mem_cons.mp hf
    rw [List.map_cons, linked_cons, linked_cons, h₁, h₂, h₃, h₄, hhash, ih hrest]

/-- The row at each place of a chain. -/
theorem Linked.at_index (h : C.Linked p n rs) {i : Nat} {r : ρ} (hr : rs[i]? = some r) :
    C.number r = n + i ∧ C.hash (C.content r) = C.stored r ∧ (i = 0 → C.previous r = p) ∧
      ∀ j, i = j + 1 → ∃ r', rs[j]? = some r' ∧ C.previous r = C.stored r' := by
  induction rs generalizing p n i with
  | nil => simp at hr
  | cons r₀ rs ih =>
    obtain ⟨hnum, hprev, hhash, hrest⟩ := h
    cases i with
    | zero =>
      obtain rfl : r₀ = r := by simpa using hr
      exact ⟨by simpa using hnum, hhash, fun _ => hprev, fun j hj => by omega⟩
    | succ i =>
      obtain ⟨h₁, h₂, h₃, h₄⟩ := ih hrest (by simpa using hr)
      refine ⟨by rw [h₁]; push_cast; omega, h₂, fun h => by omega, fun j hj => ?_⟩
      obtain rfl : j = i := by omega
      cases j with
      | zero => exact ⟨r₀, by simp, h₃ rfl⟩
      | succ j =>
        obtain ⟨r', hr', hp⟩ := h₄ j rfl
        exact ⟨r', by simpa using hr', hp⟩

/-- The numbers of a chain of `m` rows are the `m` numbers from `n`. -/
theorem Linked.number_bounds (h : C.Linked p n rs) {r : ρ} (hr : r ∈ rs) :
    n ≤ C.number r ∧ C.number r < n + rs.length := by
  obtain ⟨i, hi, rfl⟩ := List.getElem_of_mem hr
  obtain ⟨hnum, -⟩ := h.at_index (List.getElem?_eq_getElem hi)
  omega

/-- A chain has the row of every number up to its length. -/
theorem Linked.getElem?_of_number (h : C.Linked p n rs) {r : ρ} (hr : r ∈ rs) {i : Nat}
    (hi : C.number r = n + i) : rs[i]? = some r := by
  obtain ⟨j, hj, rfl⟩ := List.getElem_of_mem hr
  obtain ⟨hnum, -⟩ := h.at_index (List.getElem?_eq_getElem hj)
  obtain rfl : i = j := by omega
  exact List.getElem?_eq_getElem hj

/-- The rows of a chain stand in the order of their numbers. -/
theorem Linked.pairwise_lt (h : C.Linked p n rs) :
    rs.Pairwise fun r r' => C.number r < C.number r' := by
  induction rs generalizing p n with
  | nil => exact List.Pairwise.nil
  | cons r rs ih =>
    refine List.pairwise_cons.mpr ⟨fun r' hr' => ?_, ih h.2.2.2⟩
    have hbound := h.2.2.2.number_bounds hr'
    have hnum : C.number r = n := h.1
    omega

/-- A number occurs once in a chain. -/
theorem Linked.number_inj (h : C.Linked p n rs) {r r' : ρ} (hr : r ∈ rs) (hr' : r' ∈ rs)
    (heq : C.number r = C.number r') : r = r' := by
  obtain ⟨i, hi, rfl⟩ := List.getElem_of_mem hr
  obtain ⟨hnum, -⟩ := h.at_index (List.getElem?_eq_getElem hi)
  have := h.getElem?_of_number hr' (heq.symm.trans hnum)
  rw [List.getElem?_eq_getElem hi] at this
  exact Option.some.inj this

/-- Every number up to the length of a chain occurs. -/
theorem Linked.exists_number (h : C.Linked p n rs) {k : Int} (hk : n ≤ k)
    (hlt : k < n + rs.length) : ∃ r ∈ rs, C.number r = k := by
  have hi : (k - n).toNat < rs.length := by omega
  obtain ⟨hnum, -⟩ := h.at_index (List.getElem?_eq_getElem hi)
  exact ⟨rs[(k - n).toNat], List.getElem_mem hi, by omega⟩

/-- The last number is that of the head. -/
theorem Linked.head_eq (h : C.Linked p n rs) {r : ρ} (hr : r ∈ rs)
    (hnum : C.number r + 1 = n + rs.length) : C.head p rs = C.stored r := by
  have hpos := List.length_pos_of_mem hr
  have hlast : rs[rs.length - 1]? = some r := h.getElem?_of_number hr (by omega)
  rw [head, List.getLast?_eq_getElem?, hlast]
  rfl

/-- **Tamper evidence.** If the hash function is injective on the contents
    of two chains, and a content includes the hash of the row before, then
    two chains that store the same hash at one place have the same contents
    up to that place. -/
theorem Linked.agree {C' : ChainView ρ κ η} {p' : η} {rs' : List ρ} {S : Set κ}
    (h : C.Linked p n rs) (h' : C'.Linked p' n rs') (hhash : C'.hash = C.hash)
    (hS : ∀ r ∈ rs, C.content r ∈ S) (hS' : ∀ r ∈ rs', C'.content r ∈ S)
    (hinj : Set.InjOn C.hash S)
    (hprev : ∀ r ∈ rs, ∀ r' ∈ rs', C.content r = C'.content r' → C.previous r = C'.previous r')
    {i : Nat} {r r' : ρ} (hr : rs[i]? = some r) (hr' : rs'[i]? = some r')
    (heq : C.stored r = C'.stored r') {j : Nat} (hj : j ≤ i) :
    ∃ a b, rs[j]? = some a ∧ rs'[j]? = some b ∧ C.content a = C'.content b := by
  induction i generalizing r r' with
  | zero =>
    obtain rfl : j = 0 := by omega
    have hc : C.content r = C'.content r' := by
      refine hinj (hS r (List.mem_of_getElem? hr)) (hS' r' (List.mem_of_getElem? hr')) ?_
      have hr₂ := (h'.at_index hr').2.1
      rw [hhash] at hr₂
      rw [(h.at_index hr).2.1, hr₂, heq]
    exact ⟨r, r', hr, hr', hc⟩
  | succ i ih =>
    have hm := List.mem_of_getElem? hr
    have hm' := List.mem_of_getElem? hr'
    obtain ⟨-, h₁, -, hback⟩ := h.at_index hr
    obtain ⟨-, h₁', -, hback'⟩ := h'.at_index hr'
    rw [hhash] at h₁'
    have hc : C.content r = C'.content r' := hinj (hS r hm) (hS' r' hm') (by rw [h₁, h₁', heq])
    rcases Nat.lt_or_ge j (i + 1) with hlt | hge
    · obtain ⟨a, ha, hpa⟩ := hback i rfl
      obtain ⟨b, hb, hpb⟩ := hback' i rfl
      exact ih ha hb (by rw [← hpa, ← hpb]; exact hprev r hm r' hm' hc) (by omega)
    · obtain rfl : j = i + 1 := by omega
      exact ⟨r, r', hr, hr', hc⟩

end ChainView

end SoulAuth.Framework
