import SoulAuth.Proofs.FaultyRuns
import SoulAuth.Proofs.Tables

/-! # Registrations of AI actors that fail

A registration writes the identity root of the actor, and then its key. The
format of the key is looked at before either, so that no root is left
without a key on that account; nothing takes the root back when the second
write fails.
-/

namespace SoulAuth

open Framework Framework.Prog

section

variable [Platform]

/-- The outcome, the world and the statements of a registration that is on
    its own. -/
def registrationAlone (publicKey label : Str) (cs : Nat → Ctx) (w : World) :
    Except AuthError (ActorIdentity × AiActorCredential) × World × List (Entry machine) :=
  (registerAiActor publicKey label).runAlone cs w

/-! ## What the registration finds and writes -/

/-- The row under the keys that a registration draws next is accepted. -/
def RootIsNew (w : World) : Prop :=
  ∀ a ∈ w.db.identity.actors,
    a.key ≠ Platform.uuid (w.drawn + 1) ∧ a.subjectKey ≠ Platform.uuid w.drawn

/-- The registration gets to write an identity root: the key is well formed,
    and the database executes the insertion, which is statement number 3. -/
structure WritesAiRoot (publicKey : Str) (cs : Nat → Ctx) (w : World) : Prop where
  format : validatePublicKey publicKey = .ok ()
  new : RootIsNew w
  executes : (cs 3).Executes

/-- Nothing comes in its way after that: the insertion has its reply, and
    that of the key, which is statement number 6, is let through and finds no
    such key. -/
structure WritesAiKey (publicKey : Str) (cs : Nat → Ctx) (w : World) : Prop where
  root : (cs 3).fault = none
  key : (cs 6).fault = none
  unregistered : ∀ c ∈ w.db.ai.credentials, c.publicKey ≠ publicKey

/-- The identity roots and the keys of AI actors are what they were. -/
structure SameActors (db db' : Db) : Prop where
  actors : db'.identity.actors = db.identity.actors
  credentials : db'.ai.credentials = db.ai.credentials

section

variable {publicKey label : Str} {cs : Nat → Ctx} {w : World}

omit [Platform] in
theorem SameActors.refl (db : Db) : SameActors db db := ⟨rfl, rfl⟩

omit [Platform] in
/-- A root more is not what it was. -/
theorem not_sameActors_of_append {db db' : Db} {a : ActorIdentity}
    (h : db'.identity.actors = db.identity.actors ++ [a]) : ¬ SameActors db db' := by
  intro hsame
  have hlength := congrArg List.length (h.symm.trans hsame.actors)
  simp at hlength

/-! ## Its two writes -/

section

omit [Platform]

variable {db : Db} {now : Timestamp}

theorem createActor_new {a : ActorIdentity}
    (h : ∀ b ∈ db.identity.actors, b.key ≠ a.key ∧ b.subjectKey ≠ a.subjectKey) :
    DbStmt.exec now (.identity (.actor (.create a))) db =
      (.ok (), { db with identity :=
        { db.identity with actors := db.identity.actors ++ [a] } }) := by
  have hno : ¬ (db.identity.actors.any fun b =>
      b.key = a.key || b.subjectKey = a.subjectKey) = true := by
    simpa using h
  simp only [DbStmt.exec, IdentityStmt.exec, ActorStmt.exec, if_neg hno]

theorem createActor_clash {a : ActorIdentity}
    (h : ¬ ∀ b ∈ db.identity.actors, b.key ≠ a.key ∧ b.subjectKey ≠ a.subjectKey) :
    ∃ x, DbStmt.exec now (.identity (.actor (.create a))) db = (.error x, db) := by
  have hsome : (db.identity.actors.any fun b =>
      b.key = a.key || b.subjectKey = a.subjectKey) = true := by
    by_contra hno
    exact h (by simpa using hno)
  exact ⟨_, by simp only [DbStmt.exec, IdentityStmt.exec, ActorStmt.exec, if_pos hsome]; rfl⟩

theorem createCredential_new {c : AiActorCredential}
    (h : ∀ d ∈ db.ai.credentials, d.publicKey ≠ c.publicKey) :
    DbStmt.exec now (.ai (.createCredential c)) db =
      (.ok (), { db with ai := { db.ai with credentials := db.ai.credentials ++ [c] } }) := by
  have hno : ¬ (db.ai.credentials.any fun d => d.publicKey = c.publicKey) = true := by
    simpa using h
  simp only [DbStmt.exec, AiActorStmt.exec, if_neg hno]

theorem createCredential_clash {c : AiActorCredential}
    (h : ¬ ∀ d ∈ db.ai.credentials, d.publicKey ≠ c.publicKey) :
    ∃ x, DbStmt.exec now (.ai (.createCredential c)) db = (.error x, db) := by
  have hsome : (db.ai.credentials.any fun d => d.publicKey = c.publicKey) = true := by
    by_contra hno
    exact h (by simpa using hno)
  exact ⟨_, by simp only [DbStmt.exec, AiActorStmt.exec, if_pos hsome]; rfl⟩

end

theorem registerAiActor_runs : Runs (registerAiActor publicKey label) cs w fun r w' _ =>
    Settles (WritesAiRoot publicKey cs w) (WritesAiKey publicKey cs w) (SameActors w.db w'.db) r := by
  obtain ⟨db, now, n⟩ := w
  unfold registerAiActor createAiActor addCredentialFor
  simp only [bind_assoc, pure_bind]
  apply runs_ofExcept_bind
  swap
  · intro x hrefuses
    apply Settles.refused _ (.refl _)
    intro hwrites
    cases hwrites.format.symm.trans hrefuses
  intro _ hformat
  rw [runs_newUuid_bind, runs_getNow_bind, runs_newUuid_bind]
  simp only [later_later, later_apply, Nat.reduceAdd]
  -- the root
  apply runs_insert_bind (P := RootIsNew ⟨db, now, n⟩)
  · intro hnew
    exact ⟨(), createActor_new hnew⟩
  · intro hclash
    exact createActor_clash hclash
  · intro _ hroot hnew
    simp only [later_later, later_apply, Nat.reduceAdd] at hroot ⊢
    have hwrites : WritesAiRoot publicKey cs ⟨db, now, n⟩ :=
      ⟨hformat, hnew, .inl hroot⟩
    rw [runs_getNow_bind, runs_newUuid_bind]
    simp only [later_later, later_apply, Nat.reduceAdd]
    -- the key
    rw [runs_bind, runs_mapError]
    apply runs_insert (P := ∀ c ∈ db.ai.credentials, c.publicKey ≠ publicKey)
    · intro hunregistered
      exact ⟨(), createCredential_new hunregistered⟩
    · intro hregistered
      exact createCredential_clash hregistered
    · intro _ hsound hunregistered
      exact Settles.finished hwrites ⟨hroot, hsound, hunregistered⟩ ⟨_, rfl⟩
    · intro x hlost _
      apply Settles.stranded hwrites _ ⟨_, rfl⟩ (not_sameActors_of_append rfl)
      intro hkey
      cases hlost.symm.trans hkey.key
    · intro x hnot
      apply Settles.stranded hwrites _ ⟨_, rfl⟩ (not_sameActors_of_append rfl)
      intro hkey
      exact hnot ⟨.inl hkey.key, hkey.unregistered⟩
  · intro x hlost hnew
    have hwrites : WritesAiRoot publicKey cs ⟨db, now, n⟩ :=
      ⟨hformat, hnew, .inr hlost⟩
    apply Settles.stranded hwrites _ ⟨x, rfl⟩ (not_sameActors_of_append rfl)
    intro hkey
    cases hlost.symm.trans hkey.root
  · intro x hnot
    apply Settles.refused _ (.refl _)
    intro hwrites
    exact hnot ⟨hwrites.executes, hwrites.new⟩

/-- **Failing registrations.** If a registration returns an error, the
    identity roots and the keys of AI actors are what they were before,
    exactly if it has not got to write a root or has written the key as
    well: an error after the root leaves the root behind. -/
theorem failed_registration_leaves_nothing_iff :
    (∀ x, (registrationAlone publicKey label cs w).1 = .error x →
      SameActors w.db (registrationAlone publicKey label cs w).2.1.db) ↔
    (WritesAiRoot publicKey cs w → WritesAiKey publicKey cs w) := by
  have hsettles : Settles (WritesAiRoot publicKey cs w) (WritesAiKey publicKey cs w)
      (SameActors w.db (registrationAlone publicKey label cs w).2.1.db)
      (registrationAlone publicKey label cs w).1 := registerAiActor_runs.outcome
  exact hsettles.clean_iff

end

end

namespace Sample

/-- A key of the sample deployment. -/
def sampleKey : Str := "agent-key".toList

/-- The world after somebody has registered that key. -/
def keyRegistered : World :=
  (registrationAlone sampleKey "first".toList (fun _ => Ctx.calm) (World.fresh 0)).2.1

/-- Registering the key once more is a conflict, and leaves a root that has
    no key. -/
theorem failed_registration_leaves_nothing_fails : ¬ ∀ (publicKey label : Str)
    (cs : Nat → Ctx) (w : World) (x : AuthError),
    (registrationAlone publicKey label cs w).1 = .error x →
    SameActors w.db (registrationAlone publicKey label cs w).2.1.db := by
  intro hall
  have hfails : (registrationAlone sampleKey "second".toList (fun _ => Ctx.calm)
      keyRegistered).1 = .error (.badRequest "This public key is already registered") := by
    decide +kernel
  have hsame := hall _ _ _ _ _ hfails
  have hlength : (registrationAlone sampleKey "second".toList (fun _ => Ctx.calm)
      keyRegistered).2.1.db.identity.actors.length =
      keyRegistered.db.identity.actors.length + 1 := by decide +kernel
  rw [hsame.actors] at hlength
  omega

end Sample

end SoulAuth
