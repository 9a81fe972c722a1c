import SoulAuth.Framework.Runs
import SoulAuth.Services.Rbac

/-! # Requests that use the role tables

A query on the roles either answers or ends the request. Here are the rules
for such a step: what a program guarantees that begins with one, and what its
run alone ends with when nothing fails.
-/

namespace SoulAuth

open Framework Framework.Prog

variable [Platform] {β : Type} {h : List (Entry roleTables.machine)}
  {I : World × RoleTables → Prop}
  {E : List (Entry roleTables.machine) → Entry roleTables.machine → Prop}

/-- The rest of a request after the reply to a query on the roles. -/
def afterReply {s : RoleStmt} (f : s.Reply → RoleReq AuthError β) :
    Except DbFailure s.Reply → RoleReq AuthError β
  | .ok a => f a
  | .error e => .done (.error (.ofDb e))

theorem roleQuery_bind {s : RoleStmt} (f : s.Reply → RoleReq AuthError β) :
    roleQuery s >>= f = .step (M := roleTables.machine) (.inr s) (afterReply f) := by
  show Prog.step _ _ = Prog.step _ _
  congr 1
  funext r
  cases r with
  | ok a => rfl
  | error e => rfl

/-- A query on the roles, followed by the rest of a request. -/
theorem meets_roleQuery_bind {s : RoleStmt} {f : s.Reply → RoleReq AuthError β}
    {Q : List (Entry roleTables.machine) → Except AuthError β → Prop}
    (hE : ∀ ctx w, E h ⟨ctx, .inr s, w⟩)
    (hok : ∀ ctx w a, (s.run ctx w.1 w.2).1 = .ok a →
      (f a).Meets I E Q (h ++ [⟨ctx, .inr s, w⟩]))
    (herr : ∀ ctx w x, (s.run ctx w.1 w.2).1 = .error x →
      Q (h ++ [⟨ctx, .inr s, w⟩]) (.error (.ofDb x))) :
    (roleQuery s >>= f).Meets I E Q h := by
  rw [roleQuery_bind]
  intro ctx w _
  constructor
  · exact hE ctx w
  · show Prog.Meets I E Q _ (afterReply f (s.run ctx w.1 w.2).1)
    rcases hr : (s.run ctx w.1 w.2).1 with x | a
    · exact herr ctx w x hr
    · exact hok ctx w a hr

theorem meets_roleQuery {s : RoleStmt}
    {Q : List (Entry roleTables.machine) → Except AuthError s.Reply → Prop}
    (hE : ∀ ctx w, E h ⟨ctx, .inr s, w⟩)
    (hok : ∀ ctx w a, (s.run ctx w.1 w.2).1 = .ok a →
      Q (h ++ [⟨ctx, .inr s, w⟩]) (.ok a))
    (herr : ∀ ctx w x, (s.run ctx w.1 w.2).1 = .error x →
      Q (h ++ [⟨ctx, .inr s, w⟩]) (.error (.ofDb x))) :
    (roleQuery s).Meets I E Q h := by
  rw [← Prog.bind_pure' (roleQuery s)]
  exact meets_roleQuery_bind hE hok herr

/-- A query whose failure is only recorded. -/
theorem meets_roleQuery_swallow_bind {s : RoleStmt} {p : RoleReq AuthError β}
    {Q : List (Entry roleTables.machine) → Except AuthError β → Prop}
    (hE : ∀ ctx w, E h ⟨ctx, .inr s, w⟩)
    (hp : ∀ ctx w, p.Meets I E Q (h ++ [⟨ctx, .inr s, w⟩])) :
    ((roleQuery s).swallow >>= fun _ => p).Meets I E Q h := by
  apply Prog.meets_bind.mpr
  apply Prog.meets_swallow.mpr
  apply meets_roleQuery hE
  · intro ctx w _ _
    exact hp ctx w
  · intro ctx w _ _
    exact hp ctx w

/-! ## The statements that a request may issue -/

section

variable {S : roleTables.machine.Stmt → Prop}

theorem only_roleQuery {s : RoleStmt} (hs : S (.inr s)) : (roleQuery s).Only S := by
  constructor
  · exact hs
  · intro r
    cases r with
    | ok a => trivial
    | error e => trivial

end

/-! ## Requests that only read -/

/-- No statement fails. -/
def Faultless (cs : Nat → Ctx) : Prop := ∀ n, (cs n).fault = none

/-- While nothing fails, the request answers `a`, and it leaves everything as
    it is. -/
def Yields {α : Type} (p : RoleReq AuthError α) (w : World × RoleTables) (a : α) : Prop :=
  ∀ cs, Faultless cs → Runs p cs w fun r w' cs' => r = .ok a ∧ w' = w ∧ Faultless cs'

section

variable {α : Type} {p : RoleReq AuthError α} {w : World × RoleTables} {a : α}

theorem yields_pure : Yields (pure a : RoleReq AuthError α) w a := by
  intro cs hcs
  exact ⟨rfl, rfl, hcs⟩

/-- The answer is the one that the request alone computes. -/
theorem Yields.answer (hp : Yields p w a) : (p.runAlone (fun _ => Ctx.calm) w).1 = .ok a := by
  have hruns : Runs p (fun _ => Ctx.calm) w fun r _ _ => r = .ok a :=
    (hp (fun _ => Ctx.calm) fun _ => rfl).weaken fun _ _ _ h => h.1
  exact hruns.outcome (P := fun r _ => r = .ok a)

theorem Yields.eq_of_run {b : α} (hp : Yields p w a)
    (hrun : (p.runAlone (fun _ => Ctx.calm) w).1 = .ok b) : a = b :=
  Except.ok.inj (hp.answer.symm.trans hrun)

theorem yields_orThrow {x : AuthError} : Yields (orThrow x (some a)) w a := yields_pure

/-- The reads of a request add up. -/
theorem Yields.bind {f : α → RoleReq AuthError β} {b : β} (hp : Yields p w a)
    (hf : Yields (f a) w b) : Yields (p >>= f) w b := by
  intro cs hcs
  apply runs_bind.mpr
  apply (hp cs hcs).weaken
  intro r w' cs' h
  obtain ⟨rfl, rfl, hcs'⟩ := h
  exact hf cs' hcs'

/-- A statement that answers and changes nothing. -/
theorem yields_query {s : RoleStmt} {a : s.Reply}
    (hs : s.exec w.1 w.2 = (.ok a, w.2)) : Yields (roleQuery s) w a := by
  intro cs hcs
  have hrun : s.run (cs 0) w.1 w.2 = (.ok a, w.2) := by
    unfold RoleStmt.run
    rw [hcs 0]
    exact hs
  have hexec : (roleTables.machine).exec (cs 0) (.inr s) w = (.ok a, w) := by
    show ((s.run (cs 0) w.1 w.2).1, (w.1, (s.run (cs 0) w.1 w.2).2)) =
      (Except.ok a, w)
    rw [hrun]
  show Runs _ _ _ _
  apply runs_step.mpr
  rw [hexec]
  exact ⟨rfl, rfl, fun n => hcs (1 + n)⟩

theorem yields_view {v : RoleView} : Yields (roleView v) w (v.eval w.1.db.users w.2) :=
  yields_query rfl

theorem yields_roleByName {roleName : Str} :
    Yields (roleQuery (.roleByName roleName)) w (w.2.roles.find? fun r => r.name = roleName) :=
  yields_query rfl

end

end SoulAuth
