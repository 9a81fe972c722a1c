import SoulAuth.Proofs.HumanAggregates
import SoulAuth.Proofs.RecordKeys

/-! # Rows of users that were seen

A row of a user that stood in a table of the run, whenever that was, still
says whose it is: the key of the user and of its identity root.
-/

namespace SoulAuth

open Framework Framework.System

section

variable [Platform] {now : Timestamp} {c : (server).Conf} {i : Nat} {e : Entry machine}
  {u v user : User} {a : Str}

/-- The rows that the lookups of users answer with. -/
theorem key_of_findById {key : Str}
    (he : Answered (.identity (.user (.findById key))) (some user) e) :
    user ∈ e.before.db.users ∧ user.key = key := by
  have hreply := he.reply
  simp only [DbStmt.exec, IdentityStmt.exec, UserStmt.exec, Except.ok.injEq] at hreply
  exact ⟨List.mem_of_find?_eq_some hreply, by simpa using List.find?_some hreply⟩

theorem Answered.findByEmail {email : Str}
    (he : Answered (.identity (.user (.findByEmail email))) (some user) e) :
    user ∈ e.before.db.users := by
  have hreply := he.reply
  simp only [DbStmt.exec, IdentityStmt.exec, UserStmt.exec, Except.ok.injEq] at hreply
  exact List.mem_of_find?_eq_some hreply

/-- No two rows of users have one key. -/
theorem userKeys_nodup (hc : Reachable (World.fresh now) c) :
    (c.state.db.users.map User.key).Nodup := by
  obtain ⟨as, hh⟩ := humans_hold hc
  have hkeys : c.state.db.users.map User.key = as.map fun a => a.user.key := by
    apply List.forall₂_eq_eq_eq ▸ List.forall₂_map_left_iff.mpr _
    apply List.forall₂_map_right_iff.mpr
    exact hh.users.imp fun _ _ hacc => hacc.key
  rw [hkeys]
  exact hh.keys

/-- A row of the user stood in a table of the run. -/
def Seen (c : (server).Conf) (u : User) : Prop :=
  ∃ n e, (n, e) ∈ c.trace ∧ u ∈ e.before.db.users

theorem Seen.conceived (hc : Reachable (World.fresh now) c) (h : Seen c u) :
    ∃ g, Conceived c.trace g ∧ u.key = g.user.key ∧ u.subjectId = some g.actor.key := by
  obtain ⟨n, e, hmem, hu⟩ := h
  obtain ⟨g, hg, hsame⟩ := ((lineage_along hc).2 _ hmem).users u hu
  exact ⟨g, hg, hsame.key, hsame.subjectId.trans (hg.linked hc).1⟩

/-- Two rows with one actor are of one user. -/
theorem Seen.key_eq (hc : Reachable (World.fresh now) c) (hu : Seen c u) (hv : Seen c v)
    (ha : u.subjectId = some a) (ha' : v.subjectId = some a) : u.key = v.key := by
  obtain ⟨g, hg, hkey, hsubject⟩ := hu.conceived hc
  obtain ⟨g', hg', hkey', hsubject'⟩ := hv.conceived hc
  have hactor : g.actor.key = a := Option.some.inj (hsubject.symm.trans ha)
  have hactor' : g'.actor.key = a := Option.some.inj (hsubject'.symm.trans ha')
  obtain rfl := hg.unique hc hg' (v := a) (by simp [HumanAggregate.keys, hactor])
    (by simp [HumanAggregate.keys, hactor'])
  exact hkey.trans hkey'.symm

/-- Two rows with one key are of one user. -/
theorem Seen.subjectId_eq (hc : Reachable (World.fresh now) c) (hu : Seen c u)
    (hv : Seen c v) (hkey : u.key = v.key) : u.subjectId = v.subjectId := by
  obtain ⟨g, hg, hgkey, hsubject⟩ := hu.conceived hc
  obtain ⟨g', hg', hgkey', hsubject'⟩ := hv.conceived hc
  have hkeys : g'.user.key = g.user.key := by rw [← hgkey', ← hkey, hgkey]
  obtain rfl := hg.unique hc hg' (v := g.user.key) (by simp [HumanAggregate.keys])
    (by simp [HumanAggregate.keys, hkeys])
  rw [hsubject, hsubject']

/-- A row that was seen and one that is there now. -/
theorem Seen.subjectId_of_mem (hc : Reachable (World.fresh now) c) (hv : Seen c v)
    (hu : u ∈ c.state.db.users) (hkey : v.key = u.key) : v.subjectId = u.subjectId := by
  obtain ⟨g, hg, hgkey, hsubject⟩ := hv.conceived hc
  obtain ⟨g', hg', hacc⟩ := (lineage_holds hc).users u hu
  have hkeys : g'.user.key = g.user.key := by rw [← hacc.key, ← hkey, hgkey]
  obtain rfl := hg.unique hc hg' (v := g.user.key) (by simp [HumanAggregate.keys])
    (by simp [HumanAggregate.keys, hkeys])
  rw [hsubject, hacc.subjectId, (hg.linked hc).1]

/-- The keys of a user and of its actor are plain. -/
theorem Seen.plain (hc : Reachable (World.fresh now) c) (hu : Seen c u)
    (ha : u.subjectId = some a) : IsPlainKey u.key ∧ IsPlainKey a := by
  obtain ⟨g, hg, hkey, hsubject⟩ := hu.conceived hc
  have hactor : g.actor.key = a := Option.some.inj (hsubject.symm.trans ha)
  constructor
  · rw [hkey]
    exact (hg.isPlainKey hc (by simp [HumanAggregate.keys])).1
  · rw [← hactor]
    exact (hg.isPlainKey hc (by simp [HumanAggregate.keys])).1

/-- One entry removes no user. -/
theorem Next.user_kept {r : Call} {w : World} (h : Next w c i r e) {key : Str}
    (hu : ∃ v ∈ e.before.db.users, v.key = key) : ∃ v ∈ e.after.db.users, v.key = key := by
  obtain ⟨v, hv, hkey⟩ := hu
  rcases h.users_change with hsame | ⟨g, -, -, hafter⟩
  · obtain ⟨v', hv', hacc⟩ := exists_of_mem_right hsame hv
    exact ⟨v', hv', hacc.key.trans hkey⟩
  · refine ⟨v, ?_, hkey⟩
    rw [Db.users, hafter]
    exact List.mem_append_left _ hv

/-- A part of the trace removes no user. -/
theorem users_kept_along (hc : Reachable (World.fresh now) c) {w w' : World}
    {tr : List (Nat × Entry machine)} (hsub : ∀ x ∈ tr, x ∈ c.trace)
    (h : Steps (S := server) w tr w') {key : Str} (hu : ∃ v ∈ w.db.users, v.key = key) :
    ∃ v ∈ w'.db.users, v.key = key := by
  apply h.preserves (P := fun w => ∃ v ∈ w.db.users, v.key = key) hu
  intro j e' hmem hv
  obtain ⟨tr₁, tr₂, htr⟩ := List.append_of_mem (hsub _ hmem)
  obtain ⟨c₁, r, hnext, -⟩ := next_at hc htr
  exact hnext.user_kept hv

/-- A user that was seen is looked up under its key, with its actor. -/
theorem Seen.subjectOf (hc : Reachable (World.fresh now) c) (hu : Seen c u)
    (ha : u.subjectId = some a) : SoulAuth.subjectOf c.state.db.users u.key = some a := by
  obtain ⟨n, e, hmem, hin⟩ := id hu
  obtain ⟨tr₁, tr₂, htr⟩ := List.append_of_mem hmem
  have hsteps := hc.steps
  rw [htr] at hsteps
  have hafter : ∃ v ∈ e.after.db.users, v.key = u.key := by
    obtain ⟨c₁, r, hnext, -⟩ := next_at hc htr
    exact hnext.user_kept ⟨u, hin, rfl⟩
  have hkept : ∃ v ∈ c.state.db.users, v.key = u.key := by
    apply users_kept_along hc _ hsteps.split_entry.2 hafter
    intro x hx
    rw [htr]
    exact List.mem_append_right _ (List.mem_cons_of_mem _ hx)
  obtain ⟨v, hv, hkey⟩ := hkept
  unfold SoulAuth.subjectOf
  rcases hfind : c.state.db.users.find? fun x => x.key = u.key with _ | x
  · have hnone := List.find?_eq_none.mp hfind v hv
    simp [hkey] at hnone
  · -- the row that is found is of the same human
    have hx : x.key = u.key := by simpa using List.find?_some hfind
    obtain ⟨g, hg, hgkey, hgsubject⟩ := hu.conceived hc
    obtain ⟨g', hg', hsame⟩ := (lineage_holds hc).users x (List.mem_of_find?_eq_some hfind)
    have hkeys : g'.user.key = g.user.key := by rw [← hsame.key, hx, hgkey]
    obtain rfl := hg'.unique hc hg (v := g.user.key) (by simp [HumanAggregate.keys, hkeys])
      (by simp [HumanAggregate.keys])
    rw [hfind, Option.bind_some, hsame.subjectId, (hg'.linked hc).1, ← hgsubject, ha]

/-- The owner of a token is found under the address that the token names. -/
theorem Conceived.ownerKey_address {g : HumanAggregate} (hc : Reachable (World.fresh now) c)
    (hg : Conceived c.trace g) : ownerKey (actorAddress g.actor.key) = g.actor.key := by
  have hplain := hg.isPlainKey hc (v := g.actor.key) (by simp [HumanAggregate.keys])
  unfold ownerKey actorAddress
  rw [hplain.1.normalizeUserId_address hplain.2, hplain.1.normalizeActorId_address hplain.2]

/-! ## The roots that the gate found -/

section

variable {g : HumanAggregate} {x : ActorIdentity} {y : HumanAccount}

/-- The gate finds the root under the key of a human. -/
theorem ActorPassed.root_key (hc : Reachable (World.fresh now) c) (hg : Conceived c.trace g)
    (h : ActorPassed (entriesOf (S := server) i c.trace) g.actor.key x) :
    x.key = g.actor.key := by
  obtain ⟨e₁, hm, hroot⟩ := heard_mem h.found fun _ he => he
  have hplain := (hg.isPlainKey hc (v := g.actor.key) (by simp [HumanAggregate.keys])).1
  have hnormal : normalizeActorId g.actor.key = g.actor.key := hplain.normalizeId (by decide)
  rw [KeyedTable.key_of_rowAt hroot.rootAt, hnormal]
  exact hplain.idArgumentKey_address (by decide)

/-- The gate leads from the key of a user to the root of its human. -/
theorem UserPassed.root_key (hc : Reachable (World.fresh now) c) (hg : Conceived c.trace g)
    (h : UserPassed (entriesOf (S := server) i c.trace) g.user.key x) :
    x.key = g.actor.key := by
  obtain ⟨k, hk, hpassed⟩ := h
  obtain ⟨e₁, hm, hread⟩ := heard_mem hk fun _ he => he
  have hreply := hread.reply
  simp only [DbStmt.exec, IdentityStmt.exec, UserStmt.exec, Except.ok.injEq] at hreply
  have hplain := (hg.isPlainKey hc (v := g.user.key) (by simp [HumanAggregate.keys])).1
  have hnormal : normalizeUserId g.user.key = g.user.key := hplain.normalizeId (by decide)
  rw [hnormal] at hreply
  obtain ⟨v, hv, hsubject⟩ := Option.bind_eq_some_iff.mp hreply
  -- the row under this key is of the human
  obtain ⟨g', hg', hsame⟩ := ((lineage_along hc).2 _ hm).users v (List.mem_of_find?_eq_some hv)
  have hvkey : v.key = g.user.key := by simpa using List.find?_some hv
  have hkeys : g'.user.key = g.user.key := hsame.key.symm.trans hvkey
  obtain rfl := hg.unique hc hg' (v := g.user.key) (by simp [HumanAggregate.keys])
    (by simp [HumanAggregate.keys, hkeys])
  obtain rfl : k = g.actor.key := Option.some.inj
    (hsubject.symm.trans (hsame.subjectId.trans (hg.linked hc).1))
  exact hpassed.root_key hc hg

/-- The account of a root is the one that was created with it. -/
theorem account_of_root (hc : Reachable (World.fresh now) c) (hg : Conceived c.trace g)
    (hm : (i, e) ∈ c.trace)
    (h : Answered (.identity (.accountOfActor g.actor.key)) (some y) e) : y = g.account := by
  have hreply := h.reply
  simp only [DbStmt.exec, IdentityStmt.exec, Except.ok.injEq] at hreply
  have howner : y.actorIdentityId = g.actor.key := by simpa using List.find?_some hreply
  obtain ⟨g', hg', rfl⟩ := ((lineage_along hc).2 _ hm).accounts y
    (List.mem_of_find?_eq_some hreply)
  have hkeys : g'.actor.key = g.actor.key := (hg'.linked hc).2.1.symm.trans howner
  obtain rfl := hg.unique hc hg' (v := g.actor.key) (by simp [HumanAggregate.keys])
    (by simp [HumanAggregate.keys, hkeys])
  rfl

end

end

end SoulAuth
