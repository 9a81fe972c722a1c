import SoulAuth.Framework.Runs
import SoulAuth.Proofs.History

/-! # Requests alone, with failing statements

A statement that answers has been executed. One that fails may have been
executed all the same: when only its reply is lost, or when the database has
looked at it and rejected it. The rules here follow a request statement by
statement and keep these cases apart.
-/

namespace SoulAuth

open Framework Framework.Prog

/-! ## Contexts -/

/-- The database gets to execute the statement, whether or not its reply
    arrives. -/
def Ctx.Executes (ctx : Ctx) : Prop := ctx.fault = none ∨ ctx.fault = some .lostReply

instance Ctx.decidableExecutes (ctx : Ctx) : Decidable ctx.Executes :=
  inferInstanceAs (Decidable (ctx.fault = none ∨ ctx.fault = some .lostReply))

theorem Ctx.executes_of_sound {ctx : Ctx} (h : ctx.fault = none) : ctx.Executes := .inl h

/-- The time that statement number `n` is executed at. -/
def clockAt (cs : Nat → Ctx) (now : Timestamp) : Nat → Timestamp
  | 0 => now + (cs 0).elapsed
  | n + 1 => clockAt cs now n + (cs (n + 1)).elapsed

/-! ## Requests that commit before they are done -/

/-- How a request has ended that commits something under the condition `C`
    and gets done with what follows under the condition `F`. `N` says that
    it has left nothing behind. -/
inductive Settles {ε α : Type} (C F N : Prop) (r : Except ε α) : Prop
  | refused (never : ¬ C) (clean : N)
  | stranded (commits : C) (unfinished : ¬ F) (fails : ∃ x, r = .error x) (left : ¬ N)
  | finished (commits : C) (finishes : F) (succeeds : ∃ a, r = .ok a)

theorem Settles.congr {ε α : Type} {C C' F F' N : Prop} {r : Except ε α} (h : Settles C F N r)
    (hC : C ↔ C') (hF : C → (F ↔ F')) : Settles C' F' N r := by
  cases h with
  | refused never clean => exact .refused (fun hC' => never (hC.mpr hC')) clean
  | stranded commits unfinished fails left =>
    exact .stranded (hC.mp commits) (fun hF' => unfinished ((hF commits).mpr hF')) fails left
  | finished commits finishes succeeds =>
    exact .finished (hC.mp commits) ((hF commits).mp finishes) succeeds

/-- Its errors leave nothing behind exactly if it gets done whenever it
    commits. -/
theorem Settles.clean_iff {ε α : Type} {C F N : Prop} {r : Except ε α} (h : Settles C F N r) :
    (∀ x, r = .error x → N) ↔ (C → F) := by
  cases h with
  | refused never clean => exact ⟨fun _ hC => absurd hC never, fun _ _ _ => clean⟩
  | stranded commits unfinished fails left =>
    obtain ⟨x, hx⟩ := fails
    constructor
    · intro hclean
      exact absurd (hclean x hx) left
    · intro hfinishes
      exact absurd (hfinishes commits) unfinished
  | finished commits finishes succeeds =>
    obtain ⟨a, ha⟩ := succeeds
    constructor
    · intro _ _
      exact finishes
    · intro _ x hx
      cases ha.symm.trans hx

variable [Platform]

section

variable {ε α β : Type} {cs : Nat → Ctx} {w : World} {db : Db} {now : Timestamp} {n : Nat}

/-- The world that a statement on the database leaves. -/
theorem exec_db_after (ctx : Ctx) (s : DbStmt) :
    (Stmt.exec ctx (.db s) ⟨db, now, n⟩).2 =
      ⟨if ctx.Executes then (s.exec (now + ctx.elapsed) db).2 else db, now + ctx.elapsed, n⟩ := by
  obtain ⟨elapsed, fault⟩ := ctx
  rcases fault with _ | _ | _ | _ <;> rfl

/-- Its reply, when the scheduler lets it through. -/
theorem exec_db_sound {ctx : Ctx} (s : DbStmt) (h : ctx.fault = none) :
    (Stmt.exec ctx (.db s) ⟨db, now, n⟩).1 = (s.exec (now + ctx.elapsed) db).1 := by
  obtain ⟨elapsed, fault⟩ := ctx
  cases h
  rfl

/-- Otherwise there is none. -/
theorem exec_db_faulty {ctx : Ctx} (s : DbStmt) (w : World) (h : ctx.fault ≠ none) :
    ∃ x, (Stmt.exec ctx (.db s) w).1 = .error x := by
  obtain ⟨elapsed, fault⟩ := ctx
  rcases fault with _ | _ | _ | _
  · exact absurd rfl h
  · exact ⟨_, rfl⟩
  · exact ⟨_, rfl⟩
  · exact ⟨_, rfl⟩

/-! ## Rules -/

variable {Q : Except ε α → World → (Nat → Ctx) → Prop}

theorem runs_getNow_bind {f : Timestamp → Req ε α} :
    Runs (getNow >>= f) cs ⟨db, now, n⟩ Q ↔
      Runs (f (now + (cs 0).elapsed)) (later 1 cs) ⟨db, now + (cs 0).elapsed, n⟩ Q := Iff.rfl

theorem runs_newUuid_bind {f : Str → Req ε α} :
    Runs (newUuid >>= f) cs ⟨db, now, n⟩ Q ↔
      Runs (f (Platform.uuid n)) (later 1 cs) ⟨db, now + (cs 0).elapsed, n + 1⟩ Q := Iff.rfl

theorem runs_hashPassword_bind {pw : Str} {f : Str → Req ε α} :
    Runs (hashPassword pw >>= f) cs ⟨db, now, n⟩ Q ↔
      Runs (f (Platform.argon2Hash n pw)) (later 1 cs) ⟨db, now + (cs 0).elapsed, n + 1⟩ Q :=
  Iff.rfl

theorem runs_ensure_bind {c : Prop} [Decidable c] {x : ε} {f : Unit → Req ε α}
    (hok : c → Runs (f ()) cs w Q) (herr : ¬ c → Q (.error x) w cs) :
    Runs (Prog.ensure c x >>= f) cs w Q := by
  unfold Prog.ensure
  split
  · next hc => exact hok hc
  · next hc => exact herr hc

theorem runs_orThrow_bind {o : Option β} {x : ε} {f : β → Req ε α}
    (hok : ∀ a, o = some a → Runs (f a) cs w Q) (herr : o = none → Q (.error x) w cs) :
    Runs (Prog.orThrow x o >>= f) cs w Q := by
  cases o with
  | some a => exact hok a rfl
  | none => exact herr rfl

theorem runs_ofExcept_bind {r : Except ε β} {f : β → Req ε α}
    (hok : ∀ a, r = .ok a → Runs (f a) cs w Q) (herr : ∀ x, r = .error x → Q (.error x) w cs) :
    Runs (Prog.ofExcept r >>= f) cs w Q := by
  cases r with
  | ok a => exact hok a rfl
  | error x => exact herr x rfl

/-- A query answers, or it does not, and then it may have been executed. -/
theorem runs_query_bind [OfDb ε] {s : DbStmt} {f : s.Reply → Req ε α}
    (hok : ∀ a, (cs 0).fault = none → (s.exec (now + (cs 0).elapsed) db).1 = .ok a →
      Runs (f a) (later 1 cs) ⟨(s.exec (now + (cs 0).elapsed) db).2, now + (cs 0).elapsed, n⟩ Q)
    (herr : ∀ x, ((cs 0).fault = none → ∀ a, (s.exec (now + (cs 0).elapsed) db).1 ≠ .ok a) →
      Q (.error x) ⟨if (cs 0).Executes then (s.exec (now + (cs 0).elapsed) db).2 else db,
        now + (cs 0).elapsed, n⟩ (later 1 cs)) :
    Runs (query s >>= f) cs ⟨db, now, n⟩ Q := by
  rw [query_bind, runs_step]
  show Runs (onResponse f (Stmt.exec (cs 0) (.db s) ⟨db, now, n⟩).1) _
    (Stmt.exec (cs 0) (.db s) ⟨db, now, n⟩).2 Q
  rw [exec_db_after]
  by_cases hsound : (cs 0).fault = none
  · rw [exec_db_sound s hsound]
    rcases hreply : (s.exec (now + (cs 0).elapsed) db).1 with x | a
    · apply herr
      intro _ a ha
      cases hreply.symm.trans ha
    · rw [if_pos (Ctx.executes_of_sound hsound)]
      exact hok a hsound hreply
  · obtain ⟨x, hx⟩ := exec_db_faulty s ⟨db, now, n⟩ hsound
    rw [hx]
    apply herr
    intro hanswers
    exact absurd hanswers hsound

/-- An insertion: the database accepts the row if it fits. When only the
    reply is lost, the row is there and the request does not know. -/
theorem runs_insert_bind [OfDb ε] {s : DbStmt} {P : Prop} {d : Db} {f : s.Reply → Req ε α}
    (hfits : P → ∃ a, s.exec (now + (cs 0).elapsed) db = (.ok a, d))
    (hclash : ¬ P → ∃ x, s.exec (now + (cs 0).elapsed) db = (.error x, db))
    (hok : ∀ a, (cs 0).fault = none → P →
      Runs (f a) (later 1 cs) ⟨d, now + (cs 0).elapsed, n⟩ Q)
    (hlost : ∀ x, (cs 0).fault = some .lostReply → P →
      Q (.error x) ⟨d, now + (cs 0).elapsed, n⟩ (later 1 cs))
    (hnot : ∀ x, ¬ ((cs 0).Executes ∧ P) →
      Q (.error x) ⟨db, now + (cs 0).elapsed, n⟩ (later 1 cs)) :
    Runs (query s >>= f) cs ⟨db, now, n⟩ Q := by
  apply runs_query_bind
  · intro a hsound hreply
    by_cases hP : P
    · obtain ⟨b, hb⟩ := hfits hP
      rw [hb] at hreply ⊢
      exact hok a hsound hP
    · obtain ⟨x, hx⟩ := hclash hP
      rw [hx] at hreply
      cases hreply
  · intro x hno
    by_cases hP : P
    · obtain ⟨b, hb⟩ := hfits hP
      rw [hb] at hno ⊢
      by_cases hexec : (cs 0).Executes
      · rw [if_pos hexec]
        rcases hexec with hsound | hlostReply
        · exact absurd rfl (hno hsound b)
        · exact hlost x hlostReply hP
      · rw [if_neg hexec]
        apply hnot
        intro hboth
        exact hexec hboth.1
    · obtain ⟨y, hy⟩ := hclash hP
      rw [hy]
      simp only [ite_self]
      apply hnot
      intro hboth
      exact hP hboth.2

/-- An insertion that ends a program. -/
theorem runs_insert [OfDb ε] {s : DbStmt} {P : Prop} {d : Db}
    {Q : Except ε s.Reply → World → (Nat → Ctx) → Prop}
    (hfits : P → ∃ a, s.exec (now + (cs 0).elapsed) db = (.ok a, d))
    (hclash : ¬ P → ∃ x, s.exec (now + (cs 0).elapsed) db = (.error x, db))
    (hok : ∀ a, (cs 0).fault = none → P →
      Q (.ok a) ⟨d, now + (cs 0).elapsed, n⟩ (later 1 cs))
    (hlost : ∀ x, (cs 0).fault = some .lostReply → P →
      Q (.error x) ⟨d, now + (cs 0).elapsed, n⟩ (later 1 cs))
    (hnot : ∀ x, ¬ ((cs 0).Executes ∧ P) →
      Q (.error x) ⟨db, now + (cs 0).elapsed, n⟩ (later 1 cs)) :
    Runs (query s) cs ⟨db, now, n⟩ Q := by
  rw [← Prog.bind_pure' (query s)]
  exact runs_insert_bind hfits hclash hok hlost hnot

/-- A query that the database answers when it gets to execute it. When it
    fails it may have been executed all the same. -/
theorem runs_exec_bind [OfDb ε] {s : DbStmt} {a : s.Reply} {d : Db} {f : s.Reply → Req ε α}
    (hexec : s.exec (now + (cs 0).elapsed) db = (.ok a, d))
    (hok : (cs 0).fault = none → Runs (f a) (later 1 cs) ⟨d, now + (cs 0).elapsed, n⟩ Q)
    (herr : ∀ x db', (cs 0).fault ≠ none → db' = (if (cs 0).Executes then d else db) →
      Q (.error x) ⟨db', now + (cs 0).elapsed, n⟩ (later 1 cs)) :
    Runs (query s >>= f) cs ⟨db, now, n⟩ Q := by
  apply runs_query_bind
  · intro b hsound hb
    rw [hexec] at hb ⊢
    cases hb
    exact hok hsound
  · intro x hno
    have hfault : (cs 0).fault ≠ none := by
      intro hsound
      apply hno hsound a
      rw [hexec]
    rw [hexec]
    exact herr x _ hfault rfl

/-- A query that only reads. -/
theorem runs_read_bind [OfDb ε] {s : DbStmt} {a : s.Reply} {f : s.Reply → Req ε α}
    (hread : s.exec (now + (cs 0).elapsed) db = (.ok a, db))
    (hok : (cs 0).fault = none → Runs (f a) (later 1 cs) ⟨db, now + (cs 0).elapsed, n⟩ Q)
    (herr : ∀ x, (cs 0).fault ≠ none → Q (.error x) ⟨db, now + (cs 0).elapsed, n⟩ (later 1 cs)) :
    Runs (query s >>= f) cs ⟨db, now, n⟩ Q := by
  apply runs_exec_bind hread hok
  intro x db' hfault hdb
  obtain rfl : db' = db := by simpa using hdb
  exact herr x hfault

/-- The same at the end of a program. -/
theorem runs_exec [OfDb ε] {s : DbStmt} {a : s.Reply} {d : Db}
    {Q : Except ε s.Reply → World → (Nat → Ctx) → Prop}
    (hexec : s.exec (now + (cs 0).elapsed) db = (.ok a, d))
    (hok : (cs 0).fault = none → Q (.ok a) ⟨d, now + (cs 0).elapsed, n⟩ (later 1 cs))
    (herr : ∀ x db', (cs 0).fault ≠ none → db' = (if (cs 0).Executes then d else db) →
      Q (.error x) ⟨db', now + (cs 0).elapsed, n⟩ (later 1 cs)) :
    Runs (query s) cs ⟨db, now, n⟩ Q := by
  rw [← Prog.bind_pure' (query s)]
  exact runs_exec_bind hexec hok herr

/-- A query that only reads, at the end of a program. -/
theorem runs_read [OfDb ε] {s : DbStmt} {a : s.Reply}
    {Q : Except ε s.Reply → World → (Nat → Ctx) → Prop}
    (hread : s.exec (now + (cs 0).elapsed) db = (.ok a, db))
    (hok : (cs 0).fault = none → Q (.ok a) ⟨db, now + (cs 0).elapsed, n⟩ (later 1 cs))
    (herr : ∀ x, (cs 0).fault ≠ none → Q (.error x) ⟨db, now + (cs 0).elapsed, n⟩ (later 1 cs)) :
    Runs (query s) cs ⟨db, now, n⟩ Q := by
  rw [← Prog.bind_pure' (query s)]
  exact runs_read_bind hread hok herr

/-- A query whose failure is ignored. -/
theorem runs_ignored_query {ε' : Type} [OfDb ε] {s : DbStmt}
    {Q : Except ε' Unit → World → (Nat → Ctx) → Prop} :
    Runs ((query s : Req ε s.Reply).swallow : Req ε' Unit) cs ⟨db, now, n⟩ Q ↔
      Q (.ok ()) ⟨if (cs 0).Executes then (s.exec (now + (cs 0).elapsed) db).2 else db,
        now + (cs 0).elapsed, n⟩ (later 1 cs) := by
  rw [runs_swallow, ← Prog.bind_pure' (query s), query_bind, runs_step]
  show Runs (onResponse (fun a => .done (.ok a)) (Stmt.exec (cs 0) (.db s) ⟨db, now, n⟩).1) _
    (Stmt.exec (cs 0) (.db s) ⟨db, now, n⟩).2 _ ↔ _
  rw [exec_db_after]
  rcases (Stmt.exec (cs 0) (.db s) ⟨db, now, n⟩).1 with x | a <;> exact Iff.rfl

end

end SoulAuth
