import Mathlib.Data.List.Nodup

/-! # Tables as lists of keyed rows

A table is a list of rows, and a row has a key. As long as no two rows have
the same key, the table is a partial function from keys to rows, and the
operations on tables are operations on the row of every single key.
-/

namespace SoulAuth.Framework.KeyedTable

variable {α κ : Type} [DecidableEq κ] (key : α → κ)

/-- The row with the key `k`. -/
def rowAt (k : κ) (t : List α) : Option α := t.find? fun r => key r = k

/-- Replace the row with the key `k`, or append one. -/
def upsert (k : κ) (f : Option α → α) (t : List α) : List α :=
  if t.any fun r => key r = k then t.map fun r => if key r = k then f (some r) else r
  else t ++ [f none]

variable {key} {k : κ} {t : List α}

theorem rowAt_eq_none : rowAt key k t = none ↔ ∀ r ∈ t, key r ≠ k := by
  rw [rowAt, List.find?_eq_none]
  simp

theorem key_of_rowAt {r : α} (h : rowAt key k t = some r) : key r = k := by
  have := List.find?_some h
  simpa using this

theorem mem_of_rowAt {r : α} (h : rowAt key k t = some r) : r ∈ t := List.mem_of_find?_eq_some h

/-- Every row is the row of its key. -/
theorem rowAt_of_mem (hn : (t.map key).Nodup) {r : α} (h : r ∈ t) : rowAt key (key r) t = some r := by
  induction t with
  | nil => cases h
  | cons r' t ih =>
    rw [List.map_cons, List.nodup_cons] at hn
    rcases List.mem_cons.mp h with rfl | h
    · simp [rowAt]
    · have hne : key r' ≠ key r := fun heq => hn.1 (heq ▸ List.mem_map_of_mem h)
      rw [← ih hn.2 h]
      simp [rowAt, hne]

/-- A search for a row that can only have the key `k`. -/
theorem find?_eq_rowAt (hn : (t.map key).Nodup) {p : α → Bool} (hp : ∀ r ∈ t, p r = true → key r = k) :
    t.find? p = (rowAt key k t).filter p := by
  cases hrow : rowAt key k t with
  | none =>
    rw [Option.filter_none, List.find?_eq_none]
    intro r hr hpr
    exact rowAt_eq_none.mp hrow r hr (hp r hr hpr)
  | some r =>
    by_cases hpr : p r = true
    · rw [Option.filter_some_pos hpr]
      cases hfind : t.find? p with
      | none => exact absurd hpr (List.find?_eq_none.mp hfind r (mem_of_rowAt hrow))
      | some r' =>
        have hr' := List.mem_of_find?_eq_some hfind
        have hkey := hp r' hr' (List.find?_some hfind)
        rw [← hrow, ← hkey, rowAt_of_mem hn hr']
    · rw [Option.filter_some_neg (Bool.not_eq_true _ ▸ hpr), List.find?_eq_none]
      intro r' hr' hpr'
      have hkey := hp r' hr' hpr'
      have hsome := rowAt_of_mem hn hr'
      rw [hkey, hrow] at hsome
      cases hsome
      exact hpr hpr'

/-! ## What the operations make of the row of a key -/

theorem rowAt_map {f : α → α} (hf : ∀ r ∈ t, key (f r) = key r) :
    rowAt key k (t.map f) = (rowAt key k t).map f := by
  induction t with
  | nil => rfl
  | cons r t ih =>
    obtain ⟨hr, ht⟩ := List.forall_mem_cons.mp hf
    by_cases hk : key r = k
    · simp [rowAt, hr, hk]
    · have ih' := ih ht
      simp only [rowAt] at ih'
      simpa [rowAt, hr, hk] using ih'

/-- A write to the row of one key. -/
theorem rowAt_mapAt {f : α → α} (hf : ∀ r, key (f r) = key r) (k' : κ) :
    rowAt key k (t.map fun r => if key r = k' then f r else r) =
      if k = k' then (rowAt key k t).map f else rowAt key k t := by
  have hkeys : ∀ r ∈ t, key (if key r = k' then f r else r) = key r := by
    intro r _
    split
    · exact hf r
    · rfl
  rw [rowAt_map hkeys]
  cases hrow : rowAt key k t with
  | none => simp
  | some r =>
    have hr := key_of_rowAt hrow
    by_cases hk : k = k'
    · rw [if_pos hk, Option.map_some, if_pos (hr.trans hk), Option.map_some]
    · rw [if_neg hk, Option.map_some, if_neg fun h => hk (hr.symm.trans h)]

theorem rowAt_filter (hn : (t.map key).Nodup) {p : α → Bool} :
    rowAt key k (t.filter p) = (rowAt key k t).filter p := by
  rw [rowAt, List.find?_filter]
  have hkeys : ∀ r ∈ t, decide (p r = true ∧ decide (key r = k) = true) = true → key r = k :=
    fun r _ h => of_decide_eq_true (of_decide_eq_true h).2
  rw [find?_eq_rowAt hn hkeys]
  cases hrow : rowAt key k t with
  | none => rfl
  | some r => simp [Option.filter, key_of_rowAt hrow]

theorem rowAt_upsert {f : Option α → α} (hf : ∀ r, (∀ r', r = some r' → key r' = k) → key (f r) = k)
    {k' : κ} : rowAt key k' (upsert key k f t) =
      if k' = k then some (f (rowAt key k t)) else rowAt key k' t := by
  unfold upsert
  split
  · next hany =>
    have hkeys : ∀ r ∈ t, key (if key r = k then f (some r) else r) = key r := by
      intro r _
      by_cases hk : key r = k
      · rw [if_pos hk, hf (some r) fun r' h => by rwa [← Option.some.inj h], hk]
      · rw [if_neg hk]
    rw [rowAt_map hkeys]
    cases hrow : rowAt key k' t with
    | none =>
      have hne : k' ≠ k := by
        rintro rfl
        obtain ⟨r, hr, hk⟩ := List.any_eq_true.mp hany
        exact rowAt_eq_none.mp hrow r hr (of_decide_eq_true hk)
      rw [if_neg hne]
      rfl
    | some r =>
      have hr := key_of_rowAt hrow
      by_cases hk : k' = k
      · subst hk
        rw [if_pos rfl, hrow, Option.map_some, if_pos hr]
      · rw [if_neg hk, Option.map_some, if_neg fun h => hk (hr.symm.trans h)]
  · next hany =>
    have hnone : rowAt key k t = none := rowAt_eq_none.mpr fun r hr heq =>
      hany (List.any_eq_true.mpr ⟨r, hr, decide_eq_true heq⟩)
    have hnew : key (f none) = k := hf none nofun
    rw [hnone, rowAt, List.find?_append]
    by_cases hk : k' = k
    · subst hk
      have hfind : t.find? (fun r => key r = k') = none := hnone
      rw [if_pos rfl, hfind]
      simp [hnew]
    · rw [if_neg hk]
      have hskip : [f none].find? (fun r => key r = k') = none := by
        simp [hnew, Ne.symm hk]
      rw [hskip, Option.or_none]
      rfl

/-! ## Keys stay distinct -/

omit [DecidableEq κ] in
theorem nodup_map {f : α → α} (hf : ∀ r ∈ t, key (f r) = key r) (hn : (t.map key).Nodup) :
    ((t.map f).map key).Nodup := by
  have hkeys : (t.map f).map key = t.map key := by
    rw [List.map_map]
    exact List.map_congr_left hf
  rwa [hkeys]

omit [DecidableEq κ] in
theorem nodup_filter {p : α → Bool} (hn : (t.map key).Nodup) : ((t.filter p).map key).Nodup :=
  hn.sublist (List.filter_sublist.map key)

theorem nodup_upsert {f : Option α → α}
    (hf : ∀ r, (∀ r', r = some r' → key r' = k) → key (f r) = k) (hn : (t.map key).Nodup) :
    ((upsert key k f t).map key).Nodup := by
  unfold upsert
  split
  · refine nodup_map (fun r _ => ?_) hn
    by_cases hk : key r = k
    · rw [if_pos hk, hf (some r) fun r' h => by rwa [← Option.some.inj h], hk]
    · rw [if_neg hk]
  · next hany =>
    rw [List.map_append, List.map_singleton, hf none nofun]
    refine List.nodup_append.mpr ⟨hn, List.nodup_singleton k, fun x hx y hy => ?_⟩
    obtain ⟨r, hr, rfl⟩ := List.mem_map.mp hx
    rw [List.mem_singleton.mp hy]
    exact fun heq => hany (List.any_eq_true.mpr ⟨r, hr, decide_eq_true heq⟩)

/-- The rows of an upserted table. -/
theorem mem_upsert {f : Option α → α} {r : α} (h : r ∈ upsert key k f t) :
    r ∈ t ∨ r = f none ∨ ∃ r' ∈ t, key r' = k ∧ r = f (some r') := by
  unfold upsert at h
  split at h
  · obtain ⟨r', hr', rfl⟩ := List.mem_map.mp h
    by_cases hk : key r' = k
    · exact .inr (.inr ⟨r', hr', hk, if_pos hk⟩)
    · exact .inl (by rwa [if_neg hk])
  · rcases List.mem_append.mp h with h | h
    · exact .inl h
    · exact .inr (.inl (List.mem_singleton.mp h))

end SoulAuth.Framework.KeyedTable
