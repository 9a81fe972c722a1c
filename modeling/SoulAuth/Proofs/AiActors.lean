import SoulAuth.Proofs.AiConduct
import SoulAuth.Proofs.Lineage

/-! # The tables of AI actors along a run

An identity root keeps its key and its kind, and only a statement that sets
its status changes the status. A challenge is for the actor that its request
found. The sessions of a token are all one session.
-/

namespace SoulAuth

open Framework Framework.System

variable [Platform]

/-! ## Identity roots -/

section

variable {e : Entry machine} {key : Str} {a b : ActorIdentity}

/-- What an entry makes of one root. -/
theorem rootAt_after (ha : rootAt key e.before.db.identity.actors = some a) :
    ∃ b, rootAt key e.after.db.identity.actors = some b ∧ b.actorKind = a.actorKind ∧
      (b.status = a.status ∨
        ∃ now, e.stmt = .db (.identity (.actor (.setStatus key b.status now)))) := by
  rcases actors_after e with hsame | ⟨k, status, now, hs, hmap⟩ | ⟨x, -, hnew⟩
  · exact ⟨a, by rw [hsame]; exact ha, rfl, .inl rfl⟩
  · have hkeys : ∀ r ∈ e.before.db.identity.actors, ActorIdentity.key
        (if r.key = k then { r with status := status, updatedAt := now } else r) = r.key := by
      intro r _
      split <;> rfl
    have hafter : rootAt key e.after.db.identity.actors =
        some (if a.key = k then { a with status := status, updatedAt := now } else a) := by
      rw [rootAt] at ha
      rw [rootAt, hmap, KeyedTable.rowAt_map hkeys, ha]
      rfl
    refine ⟨_, hafter, ?_, ?_⟩
    · split <;> rfl
    · by_cases hk : a.key = k
      · have hkey : key = k := (KeyedTable.key_of_rowAt ha).symm.trans hk
        exact .inr ⟨now, by rw [hkey, if_pos hk]; exact hs⟩
      · exact .inl (by rw [if_neg hk])
  · refine ⟨a, ?_, rfl, .inl rfl⟩
    rw [rootAt, KeyedTable.rowAt] at ha ⊢
    rw [hnew, List.find?_append, ha]
    rfl

/-- A root and its kind last. -/
theorem rootAt_along {w w' : World} {tr : List (Nat × Entry machine)}
    (h : Steps (S := server) w tr w') (ha : rootAt key w.db.identity.actors = some a) :
    ∃ b, rootAt key w'.db.identity.actors = some b ∧ b.actorKind = a.actorKind := by
  apply h.preserves (P := fun w => ∃ b, rootAt key w.db.identity.actors = some b ∧
    b.actorKind = a.actorKind) ⟨a, ha, rfl⟩
  intro i e _ hb
  obtain ⟨b, hb, hkind⟩ := hb
  obtain ⟨b', hb', hkind', -⟩ := rootAt_after hb
  exact ⟨b', hb', hkind'.trans hkind⟩

end

section

variable {w : World} {now : Timestamp} {c : (server).Conf} {key : Str} {a : ActorIdentity}

/-- A root that was found in a run is still there, and of the same kind. -/
theorem rootAt_of_found {i : Nat} {e : Entry machine} (hc : Reachable w c)
    (hm : (i, e) ∈ c.trace) (ha : rootAt key e.before.db.identity.actors = some a) :
    ∃ b, rootAt key c.state.db.identity.actors = some b ∧ b.actorKind = a.actorKind := by
  obtain ⟨tr₁, tr₂, htr⟩ := List.append_of_mem hm
  have hsteps := hc.steps
  rw [htr] at hsteps
  obtain ⟨b, hb, hkind, -⟩ := rootAt_after ha
  obtain ⟨b', hb', hkind'⟩ := rootAt_along hsteps.split_entry.2 hb
  exact ⟨b', hb', hkind'.trans hkind⟩

/-- The keys of all roots are plain. -/
theorem plainRoots_holds (hc : Reachable (World.fresh now) c) :
    ∀ x ∈ c.state.db.identity.actors, IsPlainKey x.key := by
  refine (hc.lift (P := fun _ w => ∀ x ∈ w.db.identity.actors, IsPlainKey x.key)
    conduct_met (fun _ h => absurd h List.not_mem_nil) ?_ fun _ _ _ => trivial).2
  intro c i r e hc _ hplain hbefore _ hconduct x hx
  rw [← hbefore] at hplain
  change Conducted r (entriesOf (S := server) i c.trace) e at hconduct
  unfold Conducted at hconduct
  rcases identity_after e with hsame | ⟨s, hs, hafter⟩
  · exact hplain x (hsame ▸ hx)
  · rw [hs] at hconduct
    rw [hafter] at hx
    cases s with
    | actor s =>
      cases s with
      | find k => exact hplain x hx
      | setStatus k status now =>
        obtain ⟨y, hy, rfl⟩ := List.mem_map.mp hx
        have hkey := hplain y hy
        split <;> exact hkey
      | create y =>
        simp only [IdentityStmt.exec, ActorStmt.exec] at hx
        split at hx
        · exact hplain x hx
        · rcases List.mem_append.mp hx with hx | hx
          · exact hplain x hx
          · obtain rfl := List.mem_singleton.mp hx
            exact (isPlainKey_of_drawn hconduct.keyDrawn).1
    | createHuman y =>
      simp only [IdentityStmt.exec, HumanAggregate.create] at hx
      split at hx
      · exact hplain x hx
      · rcases List.mem_append.mp hx with hx | hx
        · exact hplain x hx
        · obtain rfl := List.mem_singleton.mp hx
          have hdrawn := hconduct.keys_sublist.subset
          exact (isPlainKey_of_drawn (hdrawn (by simp [HumanAggregate.keys]))).1
    | _ => exact hplain x hx

/-- A root under the address of a plain key has that key. -/
theorem FoundAi.key_eq {h : List (Entry machine)} {actorKey : Str} (hf : FoundAi h actorKey a)
    (hplain : IsPlainKey actorKey) : a.key = actorKey := by
  obtain ⟨e, -, he⟩ := hf.found
  rw [KeyedTable.key_of_rowAt he.rootAt]
  exact hplain.idArgumentKey_address (by decide)

end

/-! ## Challenges -/

section

variable {e : Entry machine} {x : AiActorChallenge}

/-- A challenge in the table is one from before, perhaps consumed since, or
    the entry creates it. -/
theorem challenge_before (hx : x ∈ e.after.db.ai.challenges) :
    (∃ y ∈ e.before.db.ai.challenges, y.nonce = x.nonce ∧
      y.actorIdentityId = x.actorIdentityId ∧ y.expiresAt = x.expiresAt ∧
      (y.consumed = true → x.consumed = true)) ∨
    e.stmt = .db (.ai (.createChallenge x)) ∧
      ∀ y ∈ e.before.db.ai.challenges, y.nonce ≠ x.nonce := by
  have hself : x ∈ e.before.db.ai.challenges → ∃ y ∈ e.before.db.ai.challenges,
      y.nonce = x.nonce ∧ y.actorIdentityId = x.actorIdentityId ∧ y.expiresAt = x.expiresAt ∧
      (y.consumed = true → x.consumed = true) :=
    fun hx => ⟨x, hx, rfl, rfl, rfl, id⟩
  rcases ai_after e with hsame | ⟨s, hs, hafter⟩
  · exact .inl (hself (hsame ▸ hx))
  · rw [hafter] at hx
    cases s with
    | createChallenge y =>
      simp only [AiActorStmt.exec] at hx
      split at hx
      · exact .inl (hself hx)
      · next hnew =>
        rcases List.mem_append.mp hx with hx | hx
        · exact .inl (hself hx)
        · obtain rfl := List.mem_singleton.mp hx
          refine .inr ⟨hs, ?_⟩
          rw [Bool.not_eq_true, List.any_eq_false] at hnew
          intro y hy heq
          exact hnew y hy (by simpa using heq)
    | consumeChallenge n k t =>
      obtain ⟨y, hy, rfl⟩ := List.mem_map.mp hx
      refine .inl ⟨y, hy, ?_⟩
      split
      · exact ⟨rfl, rfl, rfl, fun _ => rfl⟩
      · exact ⟨rfl, rfl, rfl, id⟩
    | createCredential k =>
      simp only [AiActorStmt.exec] at hx
      split at hx <;> exact .inl (hself hx)
    | listCredentials | touchCredential | revokeCredential => exact .inl (hself hx)

end

/-- A challenge that is consumed stays so. -/
theorem consumed_after {e : Entry machine} {nonce : Str}
    (h : ∃ x ∈ e.before.db.ai.challenges, x.nonce = nonce ∧ x.consumed = true) :
    ∃ x ∈ e.after.db.ai.challenges, x.nonce = nonce ∧ x.consumed = true := by
  rcases ai_after e with hsame | ⟨s, -, hafter⟩
  · rw [hsame]
    exact h
  · obtain ⟨x, hx, hnonce, hconsumed⟩ := h
    rw [hafter]
    cases s with
    | createChallenge y =>
      simp only [AiActorStmt.exec]
      split
      · exact ⟨x, hx, hnonce, hconsumed⟩
      · exact ⟨x, List.mem_append_left _ hx, hnonce, hconsumed⟩
    | consumeChallenge n k t =>
      refine ⟨_, List.mem_map_of_mem hx, ?_, ?_⟩
      · split <;> exact hnonce
      · split
        · rfl
        · exact hconsumed
    | createCredential k =>
      simp only [AiActorStmt.exec]
      split <;> exact ⟨x, hx, hnonce, hconsumed⟩
    | listCredentials | touchCredential | revokeCredential => exact ⟨x, hx, hnonce, hconsumed⟩

/-- No two challenges share a nonce. -/
theorem nonces_nodup {w : World} {tr : List (Nat × Entry machine)} {now : Timestamp}
    (h : Steps (S := server) (World.fresh now) tr w) :
    (w.db.ai.challenges.map AiActorChallenge.nonce).Nodup := by
  apply h.preserves (P := fun w => (w.db.ai.challenges.map AiActorChallenge.nonce).Nodup)
    List.nodup_nil
  intro i e _ hn
  rcases ai_after e with hsame | ⟨s, -, hafter⟩
  · rw [hsame]
    exact hn
  · rw [hafter]
    cases s with
    | createChallenge y =>
      simp only [AiActorStmt.exec]
      split
      · exact hn
      · next hnew =>
        rw [List.map_append, List.map_singleton]
        apply List.nodup_append.mpr ⟨hn, List.nodup_singleton _, _⟩
        intro k hk k' hk' heq
        obtain ⟨x, hx, rfl⟩ := List.mem_map.mp hk
        obtain rfl := List.mem_singleton.mp hk'
        exact hnew (List.any_eq_true.mpr ⟨x, hx, decide_eq_true heq⟩)
    | consumeChallenge n k t =>
      apply KeyedTable.nodup_map _ hn
      intro x _
      split <;> rfl
    | createCredential k =>
      simp only [AiActorStmt.exec]
      split <;> exact hn
    | listCredentials | touchCredential | revokeCredential => exact hn

/-- A challenge that is not consumed never was: no earlier state has a
    consumed one with its nonce. -/
theorem unconsumed_before {w : World} {tr : List (Nat × Entry machine)} {now : Timestamp}
    (h : Steps (S := server) (World.fresh now) tr w) {x : AiActorChallenge}
    (hx : x ∈ w.db.ai.challenges) (hopen : x.consumed = false) :
    ∀ z ∈ tr, ∀ y ∈ z.2.before.db.ai.challenges, y.nonce = x.nonce → y.consumed = false := by
  intro z hz y hy hnonce
  by_cases hconsumed : y.consumed = true
  · -- it would be consumed still
    exfalso
    obtain ⟨i, e⟩ := z
    obtain ⟨tr₁, tr₂, htr⟩ := List.append_of_mem hz
    have hn := nonces_nodup h
    rw [htr] at h
    obtain ⟨x', hx', hnonce', hconsumed'⟩ := h.split_entry.2.preserves
      (P := fun w => ∃ v ∈ w.db.ai.challenges, v.nonce = x.nonce ∧ v.consumed = true)
      (consumed_after ⟨y, hy, hnonce, hconsumed⟩) fun _ _ _ hb => consumed_after hb
    obtain rfl := List.inj_on_of_nodup_map hn hx' hx hnonce'
    rw [hopen] at hconsumed'
    cases hconsumed'
  · exact Bool.not_eq_true _ ▸ hconsumed

/-- Where a challenge comes from. -/
theorem challenge_origin {w : (server).machine.State}
    {tr : List (Nat × Entry (server).machine)} {now : Timestamp}
    (h : Steps (S := server) (World.fresh now) tr w) :
    ∀ x ∈ w.db.ai.challenges, ∃ i e y, (i, e) ∈ tr ∧ e.stmt = .db (.ai (.createChallenge y)) ∧
      y ∈ e.after.db.ai.challenges ∧ y.nonce = x.nonce ∧
      y.actorIdentityId = x.actorIdentityId ∧ y.expiresAt = x.expiresAt := by
  induction h with
  | nil => exact fun x hx => absurd hx List.not_mem_nil
  | snoc i e h he ih =>
    intro x hx
    rcases challenge_before hx with ⟨y, hy, hnonce, hactor, hexp, -⟩ | ⟨hs, -⟩
    · rw [he] at hy
      obtain ⟨j, e', z, hmem, hs, hz, hrest⟩ := ih y hy
      exact ⟨j, e', z, List.mem_append_left _ hmem, hs, hz, hrest.1.trans hnonce,
        hrest.2.1.trans hactor, hrest.2.2.trans hexp⟩
    · exact ⟨i, e, x, by simp, hs, hx, rfl, rfl, rfl⟩

/-! ## Keys of AI actors -/

/-- The key of an actor under a record key. -/
abbrev credentialAt (key : Str) (t : List AiActorCredential) : Option AiActorCredential :=
  KeyedTable.rowAt AiActorCredential.key key t

/-- What an entry makes of one key: it stays with its actor, and revoked once
    it is. -/
theorem credentialAt_after {e : Entry machine} {key : Str} {x : AiActorCredential}
    (hx : credentialAt key e.before.db.ai.credentials = some x) :
    ∃ y, credentialAt key e.after.db.ai.credentials = some y ∧
      y.actorIdentityId = x.actorIdentityId ∧ (x.status = .revoked → y.status = .revoked) := by
  have hself : ∃ y, credentialAt key e.before.db.ai.credentials = some y ∧
      y.actorIdentityId = x.actorIdentityId ∧ (x.status = .revoked → y.status = .revoked) :=
    ⟨x, hx, rfl, id⟩
  rcases ai_after e with hsame | ⟨s, -, hafter⟩
  · rw [hsame]
    exact hself
  · rw [hafter]
    cases s with
    | createCredential c =>
      simp only [AiActorStmt.exec]
      split
      · exact hself
      · refine ⟨x, ?_, rfl, id⟩
        rw [credentialAt, KeyedTable.rowAt] at hx ⊢
        rw [List.find?_append, hx]
        rfl
    | touchCredential k now =>
      simp only [AiActorStmt.exec]
      rw [credentialAt, KeyedTable.rowAt_map (fun r _ => by split <;> rfl),
        show KeyedTable.rowAt _ key _ = some x from hx]
      refine ⟨_, rfl, ?_⟩
      dsimp only
      split <;> simp
    | revokeCredential k a now =>
      simp only [AiActorStmt.exec]
      rw [credentialAt, KeyedTable.rowAt_map (fun r _ => by split <;> rfl),
        show KeyedTable.rowAt _ key _ = some x from hx]
      refine ⟨_, rfl, ?_⟩
      dsimp only
      split <;> simp
    | createChallenge c =>
      simp only [AiActorStmt.exec]
      split <;> exact hself
    | listCredentials | consumeChallenge => exact hself

/-- A key stays with its actor, and a revoked one stays revoked. -/
theorem credentialAt_along {w w' : World} {tr : List (Nat × Entry machine)}
    (h : Steps (S := server) w tr w') {key : Str} {x : AiActorCredential}
    (hx : credentialAt key w.db.ai.credentials = some x) :
    ∃ y, credentialAt key w'.db.ai.credentials = some y ∧
      y.actorIdentityId = x.actorIdentityId ∧ (x.status = .revoked → y.status = .revoked) := by
  apply h.preserves (P := fun w => ∃ y, credentialAt key w.db.ai.credentials = some y ∧
    y.actorIdentityId = x.actorIdentityId ∧ (x.status = .revoked → y.status = .revoked))
    ⟨x, hx, rfl, id⟩
  intro i e _ hy
  obtain ⟨y, hy, hactor, hrevoked⟩ := hy
  obtain ⟨z, hz, hactor', hrevoked'⟩ := credentialAt_after hy
  exact ⟨z, hz, hactor'.trans hactor, fun h => hrevoked' (hrevoked h)⟩

/-- The record keys of a table after an entry: those from before, or one
    more, that the entry creates. -/
theorem credentialKeys_after (e : Entry machine) :
    e.after.db.ai.credentials.map AiActorCredential.key =
        e.before.db.ai.credentials.map AiActorCredential.key ∨
      ∃ x, e.stmt = .db (.ai (.createCredential x)) ∧
        e.after.db.ai.credentials = e.before.db.ai.credentials ++ [x] := by
  rcases ai_after e with hsame | ⟨s, hs, hafter⟩
  · exact .inl (by rw [hsame])
  · rw [hafter]
    cases s with
    | createCredential c =>
      simp only [AiActorStmt.exec]
      split
      · exact .inl rfl
      · exact .inr ⟨c, hs, rfl⟩
    | touchCredential k now =>
      refine .inl ?_
      simp only [AiActorStmt.exec, List.map_map]
      apply List.map_congr_left
      intro r _
      simp only [Function.comp_apply]
      split <;> rfl
    | revokeCredential k a now =>
      refine .inl ?_
      simp only [AiActorStmt.exec, List.map_map]
      apply List.map_congr_left
      intro r _
      simp only [Function.comp_apply]
      split <;> rfl
    | createChallenge c =>
      simp only [AiActorStmt.exec]
      split <;> exact .inl rfl
    | listCredentials | consumeChallenge => exact .inl rfl

/-- Where a key comes from. -/
theorem credential_origin {w : (server).machine.State}
    {tr : List (Nat × Entry (server).machine)} {now : Timestamp}
    (h : Steps (S := server) (World.fresh now) tr w) :
    ∀ k ∈ w.db.ai.credentials.map AiActorCredential.key,
      ∃ i e x, (i, e) ∈ tr ∧ e.stmt = .db (.ai (.createCredential x)) ∧ x.key = k := by
  induction h with
  | nil => exact fun _ h => absurd h List.not_mem_nil
  | @snoc tr w i e h he ih =>
    intro k hk
    have hbefore : k ∈ e.before.db.ai.credentials.map AiActorCredential.key →
        ∃ j e' x, (j, e') ∈ tr ++ [(i, e)] ∧
          e'.stmt = .db (.ai (.createCredential x)) ∧ x.key = k := by
      intro hk
      rw [he] at hk
      obtain ⟨j, e', x, hmem, hs, hkey⟩ := ih k hk
      exact ⟨j, e', x, List.mem_append_left _ hmem, hs, hkey⟩
    rcases credentialKeys_after e with hsame | ⟨x, hs, hnew⟩
    · exact hbefore (hsame ▸ hk)
    · rw [hnew, List.map_append] at hk
      rcases List.mem_append.mp hk with hk | hk
      · exact hbefore hk
      · exact ⟨i, e, x, by simp, hs, (List.mem_singleton.mp hk).symm⟩

/-- No two keys share a record key. -/
theorem credentialKeys_nodup {now : Timestamp} {c : (server).Conf}
    (hc : Reachable (World.fresh now) c) :
    (c.state.db.ai.credentials.map AiActorCredential.key).Nodup := by
  apply hc.steps.preserves
    (P := fun w => (w.db.ai.credentials.map AiActorCredential.key).Nodup) List.nodup_nil
  intro i e hmem hn
  rcases credentialKeys_after e with hsame | ⟨x, hs, hnew⟩
  · rw [hsame]
    exact hn
  · rw [hnew, List.map_append]
    apply List.nodup_append.mpr ⟨hn, List.nodup_singleton _, _⟩
    intro k hk k' hk' heq
    obtain rfl := List.mem_singleton.mp hk'
    -- the row with this key was created by an entry before, which drew it too
    obtain ⟨tr₁, tr₂, htr⟩ := List.append_of_mem hmem
    have hall := hc.steps
    rw [htr] at hall
    obtain ⟨j, e₀, y, hmem₀, hs₀, hkey⟩ := credential_origin hall.split_entry.1 k hk
    obtain ⟨tr₃, tr₄, rfl⟩ := List.append_of_mem hmem₀
    have htr' : c.trace = tr₃ ++ (j, e₀) :: (tr₄ ++ (i, e) :: tr₂) := by
      rw [htr]
      simp
    obtain ⟨r₀, -, hadds₀⟩ := (aiConduct_holds hc).entries tr₃ j e₀ _ htr'
    obtain ⟨r, -, hadds⟩ := (aiConduct_holds hc).entries _ i e tr₂ htr
    change AiConducted r₀ _ e₀ at hadds₀
    change AiConducted r _ e at hadds
    unfold AiConducted at hadds₀ hadds
    rw [hs₀] at hadds₀
    rw [hs] at hadds
    have hsame : y.key = x.key := hkey.trans heq
    exact issued_once isDraw_uuid hc htr' (x := .writeAiCredential) (by rw [hs₀]; rfl)
      hadds₀.keyDrawn (hsame ▸ hadds.keyDrawn) hadds.once

/-! ## The session of a token -/

/-- A session in the table was there before, or the entry creates it. -/
theorem session_before {e : Entry machine} {s : Session} (hs : s ∈ e.after.db.sessions) :
    s ∈ e.before.db.sessions ∨ e.stmt = .db (.session (.create s)) := by
  rcases sessions_after e with hsame | ⟨q, hq, hafter⟩
  · exact .inl (hsame ▸ hs)
  · rw [hafter] at hs
    cases q with
    | create x =>
      simp only [SessionStmt.exec] at hs
      split at hs
      · exact .inl hs
      · split at hs
        · exact .inl hs
        · rcases List.mem_append.mp hs with hs | hs
          · exact .inl hs
          · obtain rfl := List.mem_singleton.mp hs
            exact .inr hq
    | deleteByToken | deleteByUser | deleteByActor | deleteByCredential | deleteExpired =>
      exact .inl (List.mem_of_mem_filter hs)
    | isActive | isActiveByKey | authenticatedAt | findByToken => exact .inl hs

section

variable {w : World} {c : (server).Conf} {tr₁ tr₂ tr₃ : List (Nat × Entry machine)} {i j : Nat}
  {e e' : Entry machine} {s s' : Session}

/-- The key of a session is drawn for it: no two places of a run create
    sessions under one key. -/
theorem session_key_once (hc : Reachable w c)
    (htr : c.trace = tr₁ ++ (i, e) :: (tr₂ ++ (j, e') :: tr₃))
    (hs : e.stmt = .db (.session (.create s))) (hs' : e'.stmt = .db (.session (.create s'))) :
    s.key ≠ s'.key := by
  intro hkey
  have hcut : c.trace = (tr₁ ++ (i, e) :: tr₂) ++ (j, e') :: tr₃ := by
    rw [htr, List.append_assoc, List.cons_append]
  obtain ⟨r, -, hopens⟩ := conducted_at hc htr
  obtain ⟨r', -, hopens'⟩ := conducted_at hc hcut
  unfold Conducted at hopens hopens'
  rw [hs] at hopens
  rw [hs'] at hopens'
  exact issued_once isDraw_uuid hc htr (x := .createSession) (by rw [hs]; rfl) hopens.keyDrawn
    (hkey ▸ hopens'.keyDrawn) hopens'.once

/-- The session of a token is created at one place of a run. -/
theorem session_created_once (hc : Reachable w c)
    (htr : c.trace = tr₁ ++ (i, e) :: (tr₂ ++ (j, e') :: tr₃))
    (hs : e.stmt = .db (.session (.create s))) (hs' : e'.stmt = .db (.session (.create s'))) :
    s.tokenHash ≠ s'.tokenHash := by
  intro heq
  have hcut : c.trace = (tr₁ ++ (i, e) :: tr₂) ++ (j, e') :: tr₃ := by
    rw [htr, List.append_assoc, List.cons_append]
  obtain ⟨r, -, hopens⟩ := conducted_at hc htr
  obtain ⟨r', -, hopens'⟩ := conducted_at hc hcut
  unfold Conducted at hopens hopens'
  rw [hs] at hopens
  rw [hs'] at hopens'
  obtain ⟨claims, hhash, -, hsession⟩ := hopens.bearer
  obtain ⟨claims', hhash', -, hsession'⟩ := hopens'.bearer
  have hclaims : claims = claims' := by simpa [hhash, hhash'] using heq
  have hkey : s.key = s'.key := by
    rw [hclaims, hsession'] at hsession
    exact (Option.some.inj hsession).symm
  exact session_key_once hc htr hs hs' hkey

end

end SoulAuth

namespace SoulAuth.Sample

open Framework Framework.System

/-- Request 0 enrols an AI actor, under this key. -/
def agentKey : Str := numbered 'u' 1

def agentPublicKey : Str := "pk".toList

def enrolled : List (server).Action :=
  start config (.registerAiActor agentPublicKey "agent".toList) :: steps 0 7

end SoulAuth.Sample
