import SoulAuth.Proofs.History

/-! # Random values belong to the request that drew them

The counter of the random sources only grows, so no two entries of a run
draw the same value. A value that two requests know was passed on through
the database or by a client; it was not drawn twice.
-/

namespace SoulAuth

open Framework Framework.System

variable [Platform]

/-- The values that the entries of a trace drew, with their requests. -/
def drawsIn (f : Entry machine → Option Str) (tr : List (Nat × Entry machine)) :
    List (Nat × Str) :=
  tr.filterMap fun e => (f e.2).map (Prod.mk e.1)

/-- A kind of random value: the `n`-th value drawn is `g n`. -/
structure IsDraw (f : Entry machine → Option Str) (g : Nat → Str) : Prop where
  injective : Function.Injective g
  value : ∀ e v, f e = some v → v = g e.before.drawn
  counts : ∀ e v, f e = some v → e.after.drawn = e.before.drawn + 1

theorem isDraw_uuid : IsDraw uuidOf Platform.uuid where
  injective := Platform.uuid_injective
  value := by
    rintro ⟨ctx, s, w⟩ v h
    cases s <;> simp_all [uuidOf]
  counts := by
    rintro ⟨ctx, s, w⟩ v h
    cases s <;> simp_all [uuidOf, Entry.after, Stmt.exec, World.advance]

theorem isDraw_token : IsDraw tokenOf Platform.secureToken where
  injective := Platform.secureToken_injective
  value := by
    rintro ⟨ctx, s, w⟩ v h
    cases s <;> simp_all [tokenOf]
  counts := by
    rintro ⟨ctx, s, w⟩ v h
    cases s <;> simp_all [tokenOf, Entry.after, Stmt.exec, World.advance]

/-- No statement takes a drawn value back. -/
theorem drawn_le_after (e : Entry machine) : e.before.drawn ≤ e.after.drawn := by
  obtain ⟨⟨elapsed, fault⟩, s, w⟩ := e
  cases s with
  | db s =>
    rcases fault with _ | fault
    · exact Nat.le_refl _
    · cases fault <;> exact Nat.le_refl _
  | _ => simp [Entry.after, Stmt.exec, World.advance]

section

variable {f : Entry machine → Option Str} {g : Nat → Str} {S : System}

theorem drawsIn_snoc (tr : List (Nat × Entry machine)) (i : Nat) (e : Entry machine) :
    drawsIn f (tr ++ [(i, e)]) = drawsIn f tr ++ ((f e).map (Prod.mk i)).toList := by
  unfold drawsIn
  rw [List.filterMap_append]
  cases h : f e <;> simp [h]

/-- Along a trace the values drawn are distinct, and none of them is still
    to be drawn. -/
theorem Steps.draws (hf : IsDraw f g) {w w' : (server).machine.State}
    {tr : List (Nat × Entry (server).machine)}
    (h : Steps (S := server) w tr w') :
    ((drawsIn f tr).map Prod.snd).Nodup ∧
      ∀ v ∈ (drawsIn f tr).map Prod.snd, ∃ n, n < w'.drawn ∧ v = g n := by
  induction h with
  | nil => exact ⟨by simp [drawsIn], by simp [drawsIn]⟩
  | @snoc tr w'' i e h he ih =>
    obtain ⟨hnd, hlt⟩ := ih
    subst he
    have hle := drawn_le_after e
    rw [drawsIn_snoc]
    cases hv : f e with
    | none =>
      refine ⟨by simpa [hv] using hnd, fun v hm => ?_⟩
      obtain ⟨n, hn, rfl⟩ := hlt v (by simpa [hv] using hm)
      exact ⟨n, Nat.lt_of_lt_of_le hn hle, rfl⟩
    | some v =>
      have hcount := hf.counts e v hv
      have hval := hf.value e v hv
      have hnew : v ∉ (drawsIn f tr).map Prod.snd := by
        intro hm
        obtain ⟨n, hn, hvn⟩ := hlt v hm
        have : n = e.before.drawn := hf.injective (hvn.symm.trans hval)
        omega
      simp only [Option.map_some, Option.toList_some, List.map_append, List.map_cons,
        List.map_nil]
      refine ⟨List.nodup_append.mpr ⟨hnd, by simp, ?_⟩, fun x hm => ?_⟩
      · intro a ha b hb
        obtain rfl : b = v := by simpa using hb
        rintro rfl
        exact hnew ha
      · rcases List.mem_append.mp hm with hm | hm
        · obtain ⟨n, hn, rfl⟩ := hlt x hm
          exact ⟨n, by omega, rfl⟩
        · obtain rfl : x = v := by simpa using hm
          exact ⟨e.before.drawn, by omega, hval⟩

theorem filterMap_entriesOf (i : Nat) (tr : List (Nat × Entry machine)) :
    (entriesOf (S := server) i tr).filterMap f =
      ((drawsIn f tr).filter fun d => d.1 = i).map Prod.snd := by
  induction tr with
  | nil => rfl
  | cons d tr ih =>
    obtain ⟨j, e⟩ := d
    unfold entriesOf drawsIn at ih ⊢
    by_cases hj : j = i <;> cases hv : f e <;> simp [hj, hv, ih]

end

section

variable {w : World} {c : (server).Conf} {i j : Nat} {v : Str}

/-- The values that one request drew are distinct. -/
theorem draws_nodup {f : Entry machine → Option Str} {g : Nat → Str} (hf : IsDraw f g)
    (hc : Reachable w c) : ((entriesOf i c.trace).filterMap f).Nodup := by
  rw [filterMap_entriesOf]
  exact (Steps.draws hf hc.steps).1.sublist (List.filter_sublist.map Prod.snd)

/-- A value is drawn by one request only. -/
theorem draws_thread {f : Entry machine → Option Str} {g : Nat → Str} (hf : IsDraw f g)
    (hc : Reachable w c) (hi : v ∈ (entriesOf i c.trace).filterMap f)
    (hj : v ∈ (entriesOf j c.trace).filterMap f) : i = j := by
  have hmem : ∀ k, v ∈ (entriesOf k c.trace).filterMap f → (k, v) ∈ drawsIn f c.trace := by
    intro k hk
    rw [filterMap_entriesOf] at hk
    simpa using hk
  have hnd := (Steps.draws hf hc.steps).1
  have := List.inj_on_of_nodup_map hnd (hmem i hi) (hmem j hj) rfl
  exact congrArg Prod.fst this

theorem uuids_nodup (hc : Reachable w c) : (uuidsOf (entriesOf i c.trace)).Nodup :=
  draws_nodup isDraw_uuid hc

theorem uuid_thread (hc : Reachable w c) (hi : v ∈ uuidsOf (entriesOf i c.trace))
    (hj : v ∈ uuidsOf (entriesOf j c.trace)) : i = j :=
  draws_thread isDraw_uuid hc hi hj

end

end SoulAuth
