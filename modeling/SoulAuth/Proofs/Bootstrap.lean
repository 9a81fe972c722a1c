import SoulAuth.Proofs.Lineage
import SoulAuth.Proofs.RoleAuthority
import SoulAuth.Proofs.Tables
import SoulAuth.Routes.Bootstrap

/-! # Bootstrap opens once

The row under the fixed key has one holder: the request whose `CREATE` went
through, until it gives the row up because its registration failed. Only the
holder marks an account as the one to be resumed, once, and never gives the
row up after that. So all grants are of this one account. A later request
gets past the row only while the stage still says that the role is pending.
-/

namespace SoulAuth

open Framework Framework.System

/-- How far a request has got with the bootstrap claim. -/
inductive Phase
  | idle
  | refused
  | fresh
  | marked (userId : Str)
  | released
  | resumed (userId : Str)
  deriving DecidableEq, Repr

/-- The account that a request may resume, whatever its address. -/
def BootstrapClaim.pending (row : BootstrapClaim) : Option Str :=
  if row.stage = .rolePending then row.userId else none

theorem BootstrapClaim.pending_of_resumable {row : BootstrapClaim} {email userId : Str}
    (h : row.resumable email = some userId) : row.pending = some userId := by
  unfold resumable at h
  split at h
  · next hrow =>
    unfold pending
    rw [if_pos hrow.1]
    exact (Option.filter_eq_some_iff.mp h).1
  · cases h

/-- The answer to a request that may not go on, or cannot. -/
def IsRefusal (x : AuthError) : Prop := x = bootstrapRejected ∨ ∃ m, x = .databaseError m

theorem isRefusal_ofDb (x : DbFailure) : IsRefusal (.ofDb x) := .inr ⟨_, rfl⟩

section

variable [Platform]

/-- The phase after one more statement. -/
def Phase.next (p : Phase) (e : Entry roleTables.machine) : Phase :=
  match e with
  | ⟨ctx, .inr (.createClaim email), w⟩ =>
    match ((RoleStmt.createClaim email).run ctx w.1 w.2).1 with
    | .ok _ => fresh
    | .error _ => refused
  | ⟨ctx, .inr .readClaim, w⟩ =>
    match (RoleStmt.readClaim.run ctx w.1 w.2).1 with
    | .ok found => (found.bind BootstrapClaim.pending).elim p resumed
    | .error _ => p
  | ⟨_, .inr (.markRolePending userId), _⟩ => marked userId
  | ⟨_, .inr .deleteClaim, _⟩ => released
  | _ => p

/-- The phase of a request, from the statements that it has executed. -/
def phaseOf (h : List (Entry roleTables.machine)) : Phase := h.foldl Phase.next .idle

@[simp] theorem phaseOf_nil : phaseOf [] = .idle := rfl

@[simp] theorem phaseOf_snoc (h : List (Entry roleTables.machine))
    (e : Entry roleTables.machine) : phaseOf (h ++ [e]) = (phaseOf h).next e := by
  simp [phaseOf]

/-- The request has read the row of the claim, and may resume it. -/
def ReadFor (email userId : Str) (h : List (Entry roleTables.machine)) : Prop :=
  ∃ e ∈ h, e.stmt = .inr .readClaim ∧
    ∃ row, e.before.2.claim = some row ∧ row.resumable email = some userId

/-- The request is about to give the role to this account. -/
def Granting (email userId : Str) (h : List (Entry roleTables.machine)) : Prop :=
  phaseOf h = .marked userId ∨ phaseOf h = .resumed userId ∧ ReadFor email userId h

/-- The request has not got past the claim. -/
def Barred (email : Str) (h : List (Entry roleTables.machine)) : Prop :=
  phaseOf h = .idle ∨ phaseOf h = .refused ∨
    (∃ userId, phaseOf h = .resumed userId) ∧ ∀ userId, ¬ ReadFor email userId h

/-- The role of administrator may be given to this account. -/
def MayGrant (email : Str) (h : List (Entry roleTables.machine)) (actorKey : Str) : Prop :=
  ∃ userId, Granting email userId h ∧
    Heard (baseEntries h) (.identity (.user (.subjectOf (normalizeUserId userId)))) (some actorKey)

/-- The tables had no administrator when the request looked. -/
def SawNone (h : List (Entry roleTables.machine)) : Prop :=
  ∃ e ∈ h, e.stmt = .inr .adminExists ∧
    (e.before.2.userRoles.any fun r => r.roleId = adminRole) = false

/-- When a request executes a statement on the claim or on the roles. -/
def Allowed (r : Operation) (h : List (Entry roleTables.machine))
    (e : Entry roleTables.machine) : Prop :=
  match r, e.stmt with
  | .bootstrap .., .inr .adminExists => h = []
  | .bootstrap _ gate request _, .inr (.createClaim _) =>
    phaseOf h = .idle ∧ SawNone h ∧ gate.verify request.token = true
  | .bootstrap .., .inr .readClaim => phaseOf h = .refused
  | .bootstrap .., .inr (.markRolePending _) | .bootstrap .., .inr .deleteClaim =>
    phaseOf h = .fresh
  | .bootstrap _ _ request _, .inr (.assign row) => MayGrant request.email h row.userId
  | .bootstrap .., _ => True
  | _, .inr (.createClaim _) | _, .inr .readClaim | _, .inr (.markRolePending _)
  | _, .inr .deleteClaim | _, .inr .finishClaim => False
  | _, _ => True

/-- A bootstrap that did not get past the claim fails. -/
def Concludes (r : Operation) (h : List (Entry roleTables.machine))
    (out : Except Failure OperationReply) : Prop :=
  match r with
  | .bootstrap _ _ request _ => Barred request.email h →
    ∃ x, out = .error (.auth x) ∧ IsRefusal x
  | _ => True

/-- The rule of the instance. -/
def bootstrapRule : Rule deployment where
  assumes _ := True
  entry := Allowed
  outcome := Concludes

/-! ## The programs keep the rule -/

section

variable {β : Type} {h t : List (Entry roleTables.machine)} {w : World × RoleTables} {ctx : Ctx}
  {I : World × RoleTables → Prop}
  {E : List (Entry roleTables.machine) → Entry roleTables.machine → Prop}

theorem Phase.next_base {p : Phase} {e : Entry roleTables.machine} (he : e.IsBase) :
    p.next e = p := by
  obtain ⟨ctx, s | s, w⟩ := e
  · rfl
  · cases he

theorem phaseOf_base (ht : ∀ e ∈ t, Entry.IsBase e) : phaseOf (h ++ t) = phaseOf h := by
  induction t using List.reverseRecOn with
  | nil => rw [List.append_nil]
  | append_singleton t e ih =>
    rw [← List.append_assoc, phaseOf_snoc, Phase.next_base (ht e (by simp))]
    exact ih fun e' he' => ht e' (List.mem_append_left _ he')

variable {cfg : Config} {gate : BootstrapGate} {request : BootstrapAdminRequest} {ip : Str}

theorem allowed_base {r : Operation} {e : Entry roleTables.machine} (he : e.IsBase) :
    Allowed r h e := by
  obtain ⟨ctx, s | s, w⟩ := e
  · cases r <;> trivial
  · cases he

omit [Platform] in
/-- The answer to `readClaim` is the row. -/
theorem run_readClaim {w : World × RoleTables} {found : Option BootstrapClaim}
    (hr : (RoleStmt.readClaim.run ctx w.1 w.2).1 = .ok found) : w.2.claim = found := by
  obtain ⟨elapsed, _ | _ | _ | _⟩ := ctx
  · cases hr
    rfl
  · cases hr
  · cases hr
  · cases hr

omit [Platform] in
theorem run_adminExists {w : World × RoleTables} {found : Bool}
    (hr : (RoleStmt.adminExists.run ctx w.1 w.2).1 = .ok found) :
    (w.2.userRoles.any fun r => r.roleId = adminRole) = found := by
  obtain ⟨elapsed, _ | _ | _ | _⟩ := ctx
  · cases hr
    rfl
  · cases hr
  · cases hr
  · cases hr

/-- How `claim_bootstrap` ends. -/
def Claimed (email : Str) (h : List (Entry roleTables.machine)) : Except AuthError Claim → Prop
  | .ok .fresh => phaseOf h = .fresh
  | .ok (.resumed userId) => Granting email userId h
  | .error x => IsRefusal x

theorem claimBootstrap_meets {email : Str} (hphase : phaseOf h = .idle) (hsaw : SawNone h)
    (htoken : gate.verify request.token = true) :
    (claimBootstrap email).Meets I (Allowed (.bootstrap cfg gate request ip))
      (Claimed email) h := by
  apply Prog.meets_bind.mpr
  apply Prog.meets_attempt.mpr
  apply meets_roleQuery
  · intro ctx w
    exact ⟨hphase, hsaw, htoken⟩
  · intro ctx w a ha
    show phaseOf _ = _
    simp [Phase.next, ha]
  · -- a claim that is taken or lost is read, and resumed where it may be
    intro ctx w x hx
    have hrefused : phaseOf (h ++ [⟨ctx, .inr (.createClaim email), w⟩]) = .refused := by
      simp [Phase.next, hx]
    apply meets_roleQuery_bind
    · intro ctx' w'
      exact hrefused
    · intro ctx' w' found hfound
      apply Prog.meets_bind.mpr
      rw [Prog.meets_orThrow]
      refine ⟨fun row hrow => ?_, fun _ => .inl rfl⟩
      apply Prog.meets_bind.mpr
      rw [Prog.meets_orThrow]
      refine ⟨fun userId hresume => ?_, fun _ => .inl rfl⟩
      have hpending := BootstrapClaim.pending_of_resumable hresume
      refine .inr ⟨?_, _, List.mem_append_right _ (List.mem_singleton.mpr rfl), rfl, row,
        (run_readClaim hfound).trans hrow, hresume⟩
      rw [phaseOf_snoc, hrefused]
      simp [Phase.next, hfound, hrow, hpending]
    · intro ctx' w' x' _
      exact isRefusal_ofDb x'

/-- How the account for the role is found. -/
def Accounted (email : Str) (h : List (Entry roleTables.machine)) : Except AuthError Str → Prop
  | .ok userId => Granting email userId h
  | .error _ => phaseOf h = .released

theorem bootstrapAccount_meets {email : Str} {claim : Claim}
    (hclaim : Claimed email h (.ok claim)) :
    (bootstrapAccount cfg request ip claim).Meets I (Allowed (.bootstrap cfg gate request ip))
      (Accounted email) h := by
  cases claim with
  | resumed userId => exact hclaim
  | fresh =>
    apply Prog.meets_bind.mpr
    -- an attempt has a value, whatever becomes of the registration
    have hattempt : ((register cfg ⟨request.email, some request.username, request.password⟩
        ip).attempt : Req AuthError _).Meets (fun _ => True) (fun _ _ => True)
        (fun _ r => ∃ out, r = .ok out) (baseEntries h) := by
      apply Prog.meets_attempt.mpr
      exact Prog.meets_trivial.weaken (fun _ _ => trivial) (fun _ _ _ _ => trivial)
        fun _ out _ => ⟨out, rfl⟩
    apply Prog.Meets.lift (X := roleTables) hattempt
    · intro t e _ _ he _
      exact allowed_base (.of_base? he)
    · intro t r ht hr
      have hfresh : phaseOf (h ++ t) = .fresh := (phaseOf_base ht).trans hclaim
      obtain ⟨x | response, rfl⟩ := hr
      · apply meets_roleQuery_swallow_bind
        · intro ctx w
          exact hfresh
        · intro ctx w
          exact phaseOf_snoc _ _
      · apply meets_roleQuery_swallow_bind
        · intro ctx w
          exact hfresh
        · intro ctx w
          exact .inl (phaseOf_snoc _ _)

/-- The account is found by a look-up of its actor. -/
theorem actorRefOfUser_heard {userId : Str} {h : List (Entry machine)} :
    (actorRefOfUser userId).Meets (fun _ => True) (fun _ _ => True)
      (fun h' r => ∀ a, r = .ok a →
        Heard h' (.identity (.user (.subjectOf (normalizeUserId userId)))) (some a)) h := by
  apply meets_query_bind (fun _ _ _ => trivial)
  · intro e found _ he
    rw [Prog.meets_orThrow]
    constructor
    · intro a ha b hb
      cases hb
      rw [ha] at he
      exact he.heard
    · intro _ a ha
      cases ha
  · intro e x _ a ha
    cases ha

theorem ReadFor.mono {email userId : Str} (hr : ReadFor email userId h)
    (t : List (Entry roleTables.machine)) : ReadFor email userId (h ++ t) := by
  obtain ⟨e, he, hrow⟩ := hr
  exact ⟨e, List.mem_append_left t he, hrow⟩

/-- Statements that leave the phase alone. -/
theorem Granting.append {email userId : Str} (hg : Granting email userId h)
    (ht : phaseOf (h ++ t) = phaseOf h) : Granting email userId (h ++ t) := by
  rcases hg with hg | ⟨hg, hread⟩
  · exact .inl (ht.trans hg)
  · exact .inr ⟨ht.trans hg, hread.mono t⟩

theorem Granting.base {email userId : Str} (hg : Granting email userId h)
    (ht : ∀ e ∈ t, Entry.IsBase e) : Granting email userId (h ++ t) :=
  hg.append (phaseOf_base ht)

theorem Granting.snoc {email userId : Str} (hg : Granting email userId h)
    {e : Entry roleTables.machine} (he : ∀ p : Phase, p.next e = p) :
    Granting email userId (h ++ [e]) :=
  hg.append ((phaseOf_snoc h e).trans (he _))

theorem Granting.not_barred {email userId : Str} (hg : Granting email userId h) :
    ¬ Barred email h := by
  intro hbarred
  rcases hg with hg | ⟨hg, hread⟩
  · simp [Barred, hg] at hbarred
  · rcases hbarred with hidle | hrefused | ⟨-, hnot⟩
    · cases hg.symm.trans hidle
    · cases hg.symm.trans hrefused
    · exact hnot userId hread

/-- What the grant needs is known while the request is in its phase. -/
theorem assignRole_meets {userId roleName assignedBy : Str}
    (hg : Granting request.email userId h) :
    (assignRole userId roleName assignedBy).Meets I (Allowed (.bootstrap cfg gate request ip))
      (fun h' _ => Granting request.email userId h') h := by
  rw [assignRole, findRole, bind_assoc]
  apply meets_roleQuery_bind
  · intro ctx w
    trivial
  · intro ctx w found _
    have hg₁ := hg.snoc (e := ⟨ctx, .inr (.roleByName roleName), w⟩) fun _ => rfl
    apply Prog.meets_bind.mpr
    rw [Prog.meets_orThrow]
    refine ⟨fun role _ => ?_, fun _ => hg₁⟩
    apply Prog.meets_bind.mpr
    apply Prog.Meets.lift (X := roleTables) actorRefOfUser_heard
    · intro t e _ _ he _
      exact allowed_base (.of_base? he)
    · intro t r ht hr
      have hg₂ := hg₁.base ht
      rcases r with x | actorKey
      · exact hg₂
      · have hheard := hr actorKey rfl
        apply meets_roleQuery_bind
        · intro ctx' w'
          trivial
        · intro ctx' w' assigned _
          have hg₃ := hg₂.snoc (e := ⟨ctx', .inr (.isAssigned actorKey role.key), w'⟩) fun _ => rfl
          apply Prog.meets_bind.mpr
          rw [Prog.meets_ensure]
          refine ⟨fun _ => ?_, fun _ => hg₃⟩
          apply Prog.meets_bind.mpr
          apply Prog.Meets.lift (X := roleTables) Prog.meets_trivial
          · intro t' e _ _ he _
            exact allowed_base (.of_base? he)
          · intro t' r ht' _
            have hg₄ := hg₃.base ht'
            rcases r with x | now
            · exact hg₄
            · apply meets_roleQuery
              · -- the grant: the phase and the actor are still known
                intro ctx'' w''
                refine ⟨userId, hg₄, ?_⟩
                rw [baseEntries_append, baseEntries_append]
                exact (hheard.mono _).mono _
              · intro ctx'' w'' _ _
                exact hg₄.snoc fun _ => rfl
              · intro ctx'' w'' x _
                exact hg₄.snoc fun _ => rfl
        · intro ctx' w' x _
          exact hg₂.snoc fun _ => rfl
  · intro ctx w x _
    exact hg.snoc fun _ => rfl

theorem bootstrapAdmin_meets :
    (bootstrapAdmin cfg gate request ip).Meets I (Allowed (.bootstrap cfg gate request ip))
      (fun h' out => Barred request.email h' → ∃ x, out = .error x ∧ IsRefusal x) [] := by
  apply meets_roleQuery_bind
  · intro ctx w
    rfl
  · intro ctx w initialised hinit
    apply Prog.meets_bind.mpr
    rw [Prog.meets_ensure]
    refine ⟨fun hnone => ?_, fun _ _ => ⟨_, rfl, .inl rfl⟩⟩
    apply Prog.meets_bind.mpr
    rw [Prog.meets_ensure]
    refine ⟨fun htoken => ?_, fun _ _ => ⟨_, rfl, .inl rfl⟩⟩
    have hsaw : SawNone [⟨ctx, .inr .adminExists, w⟩] :=
      ⟨_, List.mem_singleton.mpr rfl, rfl, (run_adminExists hinit).trans hnone⟩
    apply Prog.Meets.bind (claimBootstrap_meets rfl hsaw htoken)
    · intro t claim hclaim
      apply Prog.Meets.bind (bootstrapAccount_meets hclaim)
      · intro t' userId hphase
        apply Prog.Meets.bind (assignRole_meets hphase)
        · intro t'' _ hphase
          -- whether the claim is finished does not matter to the answer
          apply meets_roleQuery_swallow_bind
          · intro ctx' w'
            trivial
          · intro ctx' w' hbarred
            exact absurd hbarred (hphase.snoc fun _ => rfl).not_barred
        · intro t'' x hphase hbarred
          exact absurd hbarred hphase.not_barred
      · intro t' x hphase hbarred
        rcases hbarred with hidle | hrefused | ⟨⟨userId, hresumed⟩, -⟩
        · cases hidle.symm.trans hphase
        · cases hrefused.symm.trans hphase
        · cases hresumed.symm.trans hphase
    · intro t x hx _
      exact ⟨x, rfl, hx⟩
  · intro ctx w x _ _
    exact ⟨_, rfl, isRefusal_ofDb x⟩

/-- A statement that keeps away from the claim. -/
def Neutral : roleTables.machine.Stmt → Prop
  | .inl _ => True
  | .inr s => s.authority ≠ some []

/-- Requests of other kinds keep away from the claim. -/
theorem Operation.neutral {op : Operation} (hop : ∀ cfg gate request ip,
    op ≠ .bootstrap cfg gate request ip) : op.program.Only Neutral := by
  cases op with
  | bootstrap cfg gate request ip => exact absurd rfl (hop cfg gate request ip)
  | roles operator op =>
    apply Prog.Only.bind
    · apply Prog.Only.mapError
      apply (op.served operator).only.mono
      intro s hs
      obtain s | s := s
      · trivial
      · intro hclaim
        exact absurd (hs [] hclaim) List.not_mem_nil
    · intro _
      trivial
  | call r =>
    apply Prog.Only.bind (Prog.only_lift fun _ => trivial)
    intro _
    trivial

theorem allowed_neutral {r : Operation} {e : Entry roleTables.machine}
    (hop : ∀ cfg gate request ip, r ≠ .bootstrap cfg gate request ip) (he : Neutral e.stmt) :
    Allowed r h e := by
  obtain ⟨ctx, s, w⟩ := e
  cases r with
  | bootstrap cfg gate request ip => exact absurd rfl (hop cfg gate request ip)
  | _ =>
    rcases s with s | s
    · trivial
    · cases s with
      | createClaim | readClaim | deleteClaim | markRolePending | finishClaim =>
        exact absurd rfl he
      | _ => trivial

/-- Every request keeps the rule. -/
theorem bootstrapRule_met : bootstrapRule.Met := by
  intro op
  by_cases hop : ∃ cfg gate request ip, op = .bootstrap cfg gate request ip
  · obtain ⟨cfg, gate, request, ip, rfl⟩ := hop
    apply Prog.meets_bind.mpr
    apply Prog.Meets.mapError bootstrapAdmin_meets
    · intro t userId hrefused hbarred
      obtain ⟨x, hx, -⟩ := hrefused hbarred
      cases hx
    · intro t x hrefused hbarred
      obtain ⟨y, hy, hrefusal⟩ := hrefused hbarred
      cases hy
      exact ⟨x, rfl, hrefusal⟩
  · have hother : ∀ cfg gate request ip, op ≠ .bootstrap cfg gate request ip := by
      intro cfg gate request ip heq
      exact hop ⟨cfg, gate, request, ip, heq⟩
    apply (Operation.neutral hother).meets
    · intro t e _ he
      exact allowed_neutral hother he
    · intro t r _
      cases op with
      | bootstrap cfg gate request ip => exact absurd rfl (hother cfg gate request ip)
      | _ => trivial

end

end

/-! ## What a statement does to the claim -/

/-- The phase of a request and the row of the claim, before and after one of
    its statements. -/
inductive Gated : Phase → Option BootstrapClaim → Phase → Option BootstrapClaim → Prop
  | keep (p : Phase) (c : Option BootstrapClaim) : Gated p c p c
  | finish (p : Phase) (c : Option BootstrapClaim) :
    Gated p c p (c.map fun row => { row with stage := .done })
  | create (row : BootstrapClaim) (h : row.userId = none) (hs : row.stage = .claiming) :
    Gated .idle none .fresh (some row)
  /-- The `CREATE` went through, but its reply was lost. -/
  | lost (row : BootstrapClaim) (h : row.userId = none) (hs : row.stage = .claiming) :
    Gated .idle none .refused (some row)
  | refuse (c : Option BootstrapClaim) : Gated .idle c .refused c
  | resume (row : BootstrapClaim) (userId : Str) (h : row.pending = some userId) :
    Gated .refused (some row) (.resumed userId) (some row)
  | mark (userId : Str) (c : Option BootstrapClaim) :
    Gated .fresh c (.marked userId) (c.map fun row =>
      { row with stage := .rolePending, userId := some userId })
  | unmarked (userId : Str) (c : Option BootstrapClaim) : Gated .fresh c (.marked userId) c
  | release (c : Option BootstrapClaim) : Gated .fresh c .released none
  | unreleased (c : Option BootstrapClaim) : Gated .fresh c .released c

section

variable [Platform] {r : Operation} {h : List (Entry roleTables.machine)}
  {e : Entry roleTables.machine}

theorem Gated.of_createClaim {ctx : Ctx} {email : Str} {w : World × RoleTables} :
    Gated .idle w.2.claim (Phase.idle.next ⟨ctx, .inr (.createClaim email), w⟩)
      ((RoleStmt.createClaim email).run ctx w.1 w.2).2.claim := by
  obtain ⟨elapsed, fault⟩ := ctx
  rcases hc : w.2.claim with _ | row
  · cases fault with
    | none =>
      simp only [Phase.next, RoleStmt.run, RoleStmt.exec, hc]
      exact .create _ rfl rfl
    | some f =>
      cases f with
      | refused | conflict =>
        simp only [Phase.next, RoleStmt.run, hc]
        exact .refuse none
      | lostReply =>
        simp only [Phase.next, RoleStmt.run, RoleStmt.exec, hc]
        exact .lost _ rfl rfl
  · -- the row is there: the statement fails and changes nothing
    have hrun : ∃ x, (RoleStmt.createClaim email).run ⟨elapsed, fault⟩ w.1 w.2 =
        (.error x, w.2) := by
      rcases fault with _ | _ | _ | _ <;> simp [RoleStmt.run, RoleStmt.exec, hc]
    obtain ⟨x, hx⟩ := hrun
    simp only [Phase.next, hx, hc]
    exact .refuse (some row)

theorem Gated.of_readClaim {ctx : Ctx} {w : World × RoleTables} :
    Gated .refused w.2.claim (Phase.refused.next ⟨ctx, .inr .readClaim, w⟩)
      (RoleStmt.readClaim.run ctx w.1 w.2).2.claim := by
  obtain ⟨elapsed, fault⟩ := ctx
  cases fault with
  | some f => cases f <;> exact .keep _ _
  | none =>
    show Gated _ _ ((w.2.claim.bind BootstrapClaim.pending).elim _ _) w.2.claim
    rcases hc : w.2.claim with _ | row
    · exact .keep _ _
    · rcases hp : row.pending with _ | userId
      · simp only [Option.bind_some, hp]
        exact .keep _ _
      · simp only [Option.bind_some, hp]
        exact .resume row userId hp

omit [Platform] in
/-- A statement that keeps away from the claim leaves it as it is. -/
theorem run_claim {ctx : Ctx} {s : RoleStmt} {w : World} {t : RoleTables}
    (hs : s.authority ≠ some []) : (s.run ctx w t).2.claim = t.claim := by
  have h : (s.exec w t).2.claim = t.claim := s.claim_exec.resolve_right hs
  obtain ⟨elapsed, _ | _ | _ | _⟩ := ctx
  · exact h
  · rfl
  · rfl
  · exact h

/-- **The step lemma of the claim.** -/
theorem Allowed.gated (hr : Allowed r h e) :
    Gated (phaseOf h) e.before.2.claim ((phaseOf h).next e) e.after.2.claim := by
  obtain ⟨ctx, s | s, w⟩ := e
  · exact .keep _ _
  · show Gated _ w.2.claim _ (s.run ctx w.1 w.2).2.claim
    cases s with
    | createClaim email =>
      have hp : phaseOf h = .idle := by cases r <;> first | exact hr.1 | cases hr
      rw [hp]
      exact .of_createClaim
    | readClaim =>
      have hp : phaseOf h = .refused := by cases r <;> first | exact hr | cases hr
      rw [hp]
      exact .of_readClaim
    | markRolePending userId =>
      have hp : phaseOf h = .fresh := by cases r <;> first | exact hr | cases hr
      rw [hp]
      obtain ⟨elapsed, _ | _ | _ | _⟩ := ctx
      · exact .mark userId _
      · exact .unmarked userId _
      · exact .unmarked userId _
      · exact .mark userId _
    | deleteClaim =>
      have hp : phaseOf h = .fresh := by cases r <;> first | exact hr | cases hr
      rw [hp]
      obtain ⟨elapsed, _ | _ | _ | _⟩ := ctx
      · exact .release _
      · exact .unreleased _
      · exact .unreleased _
      · exact .release _
    | finishClaim =>
      obtain ⟨elapsed, _ | _ | _ | _⟩ := ctx
      · exact .finish _ _
      · exact .keep _ _
      · exact .keep _ _
      · exact .finish _ _
    | _ =>
      rw [run_claim (by simp [RoleStmt.authority])]
      exact .keep _ _

end

/-! ## The holder of the claim -/

/-- The request created the row and has not given it up. -/
def Phase.Holds (p : Phase) : Prop := p = .fresh ∨ ∃ userId, p = .marked userId

/-- The invariant of the claim, with the phases of all requests. -/
structure Gate (φ : Nat → Phase) (c : Option BootstrapClaim) : Prop where
  unique : ∀ i j, (φ i).Holds → (φ j).Holds → i = j
  claimed : ∀ i, (φ i).Holds → c ≠ none
  pending : ∀ row userId, c = some row → row.userId = some userId →
    ∃ i, φ i = .marked userId
  resumed : ∀ j userId, φ j = .resumed userId → ∃ i, φ i = .marked userId

section

variable {φ : Nat → Phase} {c c' : Option BootstrapClaim} {i k m : Nat} {p p' : Phase}
  {userId : Str}

theorem Gate.initial : Gate (fun _ => .idle) none where
  unique := by simp [Phase.Holds]
  claimed := by simp [Phase.Holds]
  pending := by simp
  resumed := by simp

/-- Who has marked an account stays in this phase. -/
theorem Gated.marked (h : Gated (.marked userId) c p' c') : p' = .marked userId := by
  cases h <;> rfl

theorem Gated.resumed (h : Gated (.resumed userId) c p' c') : p' = .resumed userId := by
  cases h <;> rfl

theorem BootstrapClaim.stage_of_pending {row : BootstrapClaim} (h : row.pending = some userId) :
    row.stage = .rolePending ∧ row.userId = some userId := by
  unfold pending at h
  split at h
  · next hs => exact ⟨hs, h⟩
  · cases h

/-- A step that lets nobody else hold the row, and leaves the marked account
    in it, keeps the invariant. -/
theorem Gate.update (hg : Gate φ c) (hholds : p'.Holds → (∀ j, (φ j).Holds → j = i) ∧ c' ≠ none)
    (hothers : ∀ j, j ≠ i → (φ j).Holds → c' ≠ none)
    (hmarked : ∀ u, φ i = .marked u → p' = .marked u)
    (hpending : ∀ row u, c' = some row → row.userId = some u →
      p' = .marked u ∨ ∃ j, φ j = .marked u)
    (hresumed : ∀ u, p' = .resumed u → ∃ j, φ j = .marked u) :
    Gate (Function.update φ i p') c' := by
  have hkeep : ∀ u, (∃ j, φ j = .marked u) → ∃ j, Function.update φ i p' j = .marked u := by
    intro u hu
    obtain ⟨j, hj⟩ := hu
    refine ⟨j, ?_⟩
    by_cases hji : j = i
    · subst hji
      rw [Function.update_self]
      exact hmarked u hj
    · rw [Function.update_of_ne hji]
      exact hj
  refine ⟨fun j₁ j₂ h₁ h₂ => ?_, fun j hj => ?_, fun row u hrow hu => ?_, fun j u hj => ?_⟩
  · by_cases hj₁ : j₁ = i
    · by_cases hj₂ : j₂ = i
      · rw [hj₁, hj₂]
      · rw [hj₁, Function.update_self] at h₁
        rw [Function.update_of_ne hj₂] at h₂
        exact absurd ((hholds h₁).1 j₂ h₂) hj₂
    · rw [Function.update_of_ne hj₁] at h₁
      by_cases hj₂ : j₂ = i
      · rw [hj₂, Function.update_self] at h₂
        exact absurd ((hholds h₂).1 j₁ h₁) hj₁
      · rw [Function.update_of_ne hj₂] at h₂
        exact hg.unique j₁ j₂ h₁ h₂
  · by_cases hji : j = i
    · rw [hji, Function.update_self] at hj
      exact (hholds hj).2
    · rw [Function.update_of_ne hji] at hj
      exact hothers j hji hj
  · rcases hpending row u hrow hu with hp | hu
    · exact ⟨i, by rw [Function.update_self, hp]⟩
    · exact hkeep u hu
  · by_cases hji : j = i
    · rw [hji, Function.update_self] at hj
      exact hkeep u (hresumed u hj)
    · rw [Function.update_of_ne hji] at hj
      exact hkeep u (hg.resumed j u hj)

/-- One statement keeps the invariant. -/
theorem Gate.after (hg : Gate φ c) (hstep : Gated (φ i) c p' c') :
    Gate (Function.update φ i p') c' := by
  generalize hp : φ i = p at hstep
  have hmine : p.Holds → ∀ j, (φ j).Holds → j = i := fun hi j hj => hg.unique j i hj (hp ▸ hi)
  cases hstep with
  | keep =>
    rw [← hp, Function.update_eq_self]
    exact hg
  | finish =>
    rw [← hp, Function.update_eq_self]
    refine ⟨hg.unique, fun j hj => ?_, fun row u hrow hu => ?_, hg.resumed⟩
    · simpa using hg.claimed j hj
    · obtain ⟨row₀, hrow₀, rfl⟩ := Option.map_eq_some_iff.mp hrow
      exact hg.pending row₀ u hrow₀ hu
  | create row hnone _ =>
    -- nobody held the row
    have hfree : ∀ j, ¬ (φ j).Holds := fun j hj => hg.claimed j hj rfl
    apply hg.update
    · intro _
      exact ⟨fun j hj => absurd hj (hfree j), by simp⟩
    · intro j _ hj
      exact absurd hj (hfree j)
    · intro u hu
      cases hp.symm.trans hu
    · intro row' u hrow hu
      cases hrow
      cases hnone.symm.trans hu
    · intro u hu
      cases hu
  | lost row hnone _ =>
    have hfree : ∀ j, ¬ (φ j).Holds := fun j hj => hg.claimed j hj rfl
    apply hg.update
    · intro hholds
      simp [Phase.Holds] at hholds
    · intro j _ hj
      exact absurd hj (hfree j)
    · intro u hu
      cases hp.symm.trans hu
    · intro row' u hrow hu
      cases hrow
      cases hnone.symm.trans hu
    · intro u hu
      cases hu
  | refuse =>
    apply hg.update
    · intro hholds
      simp [Phase.Holds] at hholds
    · intro j _ hj
      exact hg.claimed j hj
    · intro u hu
      cases hp.symm.trans hu
    · intro row u hrow hu
      exact .inr (hg.pending row u hrow hu)
    · intro u hu
      cases hu
  | resume row u hpending =>
    obtain ⟨-, huser⟩ := BootstrapClaim.stage_of_pending hpending
    apply hg.update
    · intro hholds
      simp [Phase.Holds] at hholds
    · intro j _ hj
      exact hg.claimed j hj
    · intro v hv
      cases hp.symm.trans hv
    · intro row' v hrow hv
      exact .inr (hg.pending row' v hrow hv)
    · intro v hv
      cases hv
      exact hg.pending row u rfl huser
  | mark u =>
    have hclaimed : c ≠ none := hg.claimed i (.inl hp)
    apply hg.update
    · intro _
      exact ⟨hmine (.inl rfl), by simpa using hclaimed⟩
    · intro j _ _
      simpa using hclaimed
    · intro v hv
      cases hp.symm.trans hv
    · intro row v hrow hv
      obtain ⟨row₀, -, rfl⟩ := Option.map_eq_some_iff.mp hrow
      cases hv
      exact .inl rfl
    · intro v hv
      cases hv
  | unmarked u =>
    apply hg.update
    · intro _
      exact ⟨hmine (.inl rfl), hg.claimed i (.inl hp)⟩
    · intro j _ hj
      exact hg.claimed j hj
    · intro v hv
      cases hp.symm.trans hv
    · intro row v hrow hv
      exact .inr (hg.pending row v hrow hv)
    · intro v hv
      cases hv
  | release =>
    apply hg.update
    · intro hholds
      simp [Phase.Holds] at hholds
    · intro j hne hj
      exact absurd (hmine (.inl rfl) j hj) hne
    · intro v hv
      cases hp.symm.trans hv
    · intro row v hrow
      cases hrow
    · intro v hv
      cases hv
  | unreleased =>
    apply hg.update
    · intro hholds
      simp [Phase.Holds] at hholds
    · intro j _ hj
      exact hg.claimed j hj
    · intro v hv
      cases hp.symm.trans hv
    · intro row v hrow hv
      exact .inr (hg.pending row v hrow hv)
    · intro v hv
      cases hv

/-- An account is marked, the row cannot be resumed from this address, and
    request `k` has not got past it. -/
structure Sealed (φ : Nat → Phase) (c : Option BootstrapClaim) (email : Str) (k : Nat) :
    Prop where
  gate : Gate φ c
  marked : ∃ m userId, φ m = .marked userId
  closed : ∀ row, c = some row → row.resumable email = none
  waiting : φ k = .idle ∨ φ k = .refused ∨ ∃ userId, φ k = .resumed userId

theorem BootstrapClaim.resumable_done (row : BootstrapClaim) (email : Str) :
    ({ row with stage := .done } : BootstrapClaim).resumable email = none := by
  simp [resumable]

/-- No statement of any request opens the gate again. -/
theorem Sealed.after {email : Str} (hs : Sealed φ c email k) (hstep : Gated (φ i) c p' c') :
    Sealed (Function.update φ i p') c' email k := by
  obtain ⟨m, u, hm⟩ := hs.marked
  have hsome : c ≠ none := hs.gate.claimed m (.inr ⟨u, hm⟩)
  -- the marked request holds the claim, so no other one can be fresh
  have hfresh : φ i ≠ .fresh := by
    intro hi
    obtain rfl := hs.gate.unique i m (.inl hi) (.inr ⟨u, hm⟩)
    cases hi.symm.trans hm
  refine ⟨hs.gate.after hstep, ⟨m, u, ?_⟩, ?_, ?_⟩
  · by_cases hmi : m = i
    · subst hmi
      rw [Function.update_self]
      rw [hm] at hstep
      exact hstep.marked
    · rw [Function.update_of_ne hmi]
      exact hm
  · intro row hrow
    generalize hp : φ i = p at hstep
    cases hstep with
    | keep | refuse | resume => exact hs.closed row hrow
    | finish =>
      obtain ⟨row₀, -, rfl⟩ := Option.map_eq_some_iff.mp hrow
      exact row₀.resumable_done email
    | create | lost => exact absurd rfl hsome
    | mark | unmarked | release | unreleased => exact absurd hp hfresh
  · by_cases hki : k = i
    · subst hki
      rw [Function.update_self]
      have hwait := hs.waiting
      generalize hp : φ k = p at hstep hwait
      cases hstep with
      | keep | finish => exact hwait
      | create | lost => exact absurd rfl hsome
      | refuse => exact .inr (.inl rfl)
      | resume row v hpending => exact .inr (.inr ⟨v, rfl⟩)
      | mark | unmarked | release | unreleased => exact absurd hp hfresh
    · rw [Function.update_of_ne hki]
      exact hs.waiting

end

/-! ## Every request shadows requests of the server -/

section

variable [Platform] {α : Type} {q : Option (Req Failure Reply)}

theorem shadows_query {s : RoleStmt} :
    Shadows (S := server) roleTables q (roleQuery s) := by
  apply Shadows.own
  intro r
  cases r with
  | ok a => exact .done _ _
  | error e => exact .done _ _

theorem shadows_orThrow {e : AuthError} {a : Option α} :
    Shadows (S := server) roleTables q (Prog.orThrow e a) := by
  cases a with
  | some a => exact .done _ _
  | none => exact .done _ _

theorem shadows_ensure {p : Prop} [Decidable p] {e : AuthError} :
    Shadows (S := server) roleTables q (Prog.ensure p e) := by
  unfold Prog.ensure
  split
  · exact .done _ _
  · exact .done _ _

/-- A user of whom only the key counts. -/
def User.bare (key : Str) : User :=
  ⟨key, none, [], [], [], 0, 0, false, none, none, .active, [], none, none, none⟩

/-- The look-up of an actor is how a request on behalf of the user begins. -/
theorem shadows_actorRef {userId : Str} :
    Shadows (S := server) roleTables none ((actorRefOfUser userId).lift roleTables) := by
  apply Shadows.call (S := server) ⟨bareConfig, .currentUserCached (.bare userId)⟩
  apply Shadows.issue
  intro r
  rcases r with x | _ | a
  · exact .done _ _
  · exact .done _ _
  · exact .done _ _

/-- So is a look at the clock, of one that cleans up. -/
theorem shadows_getNow :
    Shadows (S := server) roleTables none ((getNow : Req AuthError Timestamp).lift roleTables) := by
  apply Shadows.call (S := server) ⟨bareConfig, .cleanupAuthArtifacts⟩
  apply Shadows.issue
  intro r
  exact .done _ _

/-- The programs of the role service consist of such parts. -/
theorem shadows_served {α : Type} {S : RoleStmt → Prop} {p : RoleReq AuthError α}
    (hp : RoleProgram S p) : Shadows (S := server) roleTables none p := by
  induction hp with
  | result r => exact .done _ r
  | query hs => exact shadows_query
  | now => exact shadows_getNow
  | actor userId => exact shadows_actorRef
  | bind _ _ ihp ihf => exact ihp.bind ihf
  | attempt _ ih => exact ih.attempt
  | swallow _ ih => exact ih.swallow

theorem shadows_claimBootstrap {email : Str} :
    Shadows (S := server) roleTables none (claimBootstrap email) := by
  apply shadows_query.attempt.bind
  intro created
  cases created with
  | ok a => exact .done _ _
  | error e =>
    apply shadows_query.bind
    intro found
    apply shadows_orThrow.bind
    intro row
    apply shadows_orThrow.bind
    intro userId
    exact .done _ _

theorem shadows_bootstrapAccount {cfg : Config} {request : BootstrapAdminRequest} {ip : Str}
    {claim : Claim} :
    Shadows (S := server) roleTables none (bootstrapAccount cfg request ip claim) := by
  cases claim with
  | resumed userId => exact .done _ _
  | fresh =>
    apply Shadows.call (S := server)
      ⟨cfg, .register ⟨request.email, some request.username, request.password⟩ ip⟩
    apply Shadows.attempt_bind
    · intro response
      apply shadows_query.swallow.bind
      intro _
      exact .done _ _
    · intro x
      apply shadows_query.swallow.bind
      intro _
      exact .done _ _

/-- Every request of the instance shadows requests of the server. -/
theorem operation_shadows (op : Operation) :
    Shadows (S := server) roleTables none op.program := by
  cases op with
  | bootstrap cfg gate request ip =>
    apply Shadows.bind
    · apply Shadows.mapError
      apply shadows_query.bind
      intro initialised
      apply shadows_ensure.bind
      intro _
      apply shadows_ensure.bind
      intro _
      apply shadows_claimBootstrap.bind
      intro claim
      apply shadows_bootstrapAccount.bind
      intro userId
      apply (shadows_served (assignRole_served (S := fun _ => True) (fun _ _ => trivial)
        fun _ => trivial)).bind
      intro _
      apply shadows_query.swallow.bind
      intro _
      exact .done _ _
    · intro userId
      exact .done _ _
  | roles operator op =>
    apply (shadows_served (op.served operator)).mapError.bind
    intro reply
    exact .done _ _
  | call r =>
    apply (Shadows.request (S := server) (X := roleTables) r).bind
    intro reply
    exact .done _ _

end

/-! ## Runs -/

section

variable [Platform] {now : Timestamp} {c : (deployment).Conf}

/-- The phases of all requests. -/
def phases (tr : List (Nat × Entry roleTables.machine)) (i : Nat) : Phase :=
  phaseOf (entriesOf (S := deployment) i tr)

theorem phases_snoc (tr : List (Nat × Entry roleTables.machine)) (i : Nat)
    (e : Entry roleTables.machine) :
    phases (tr ++ [(i, e)]) = Function.update (phases tr) i ((phases tr i).next e) := by
  funext j
  by_cases hji : j = i
  · subst hji
    rw [Function.update_self]
    unfold phases
    rw [entriesOf_snoc_self, phaseOf_snoc]
  · rw [Function.update_of_ne hji]
    unfold phases
    rw [entriesOf_snoc_ne _ _ (Ne.symm hji)]

/-- The claim is empty at first. -/
theorem gate_holds (hc : Reachable (World.fresh now, RoleTables.seeded) c) :
    Gate (phases c.trace) c.state.2.claim := by
  have hinitial : Gate (phases []) RoleTables.seeded.claim := Gate.initial
  refine (hc.lift (P := fun tr w => Gate (phases tr) w.2.claim) bootstrapRule_met hinitial ?_
    fun _ _ _ => trivial).2
  intro c i r e _ _ hgate hbefore _ hallowed
  rw [phases_snoc]
  apply hgate.after
  rw [← hbefore]
  exact Allowed.gated hallowed

/-- A mark is kept along a run. -/
theorem marked_persist {w : World × RoleTables} {i : Nat} {userId : Str}
    (hc : Reachable w c) (hm : phases c.trace i = .marked userId)
    (as : List (deployment).Action) : phases (c.run as).trace i = .marked userId := by
  refine hc.persist (P := fun tr _ => phases tr i = .marked userId) bootstrapRule_met
    (fun _ => trivial) ?_ hm as
  intro c j r e _ hm _ _ hallowed
  rw [phases_snoc]
  by_cases hij : i = j
  · subst hij
    rw [Function.update_self]
    have hgated := Allowed.gated hallowed
    rw [show phaseOf _ = .marked userId from hm] at hgated
    rw [hm]
    exact hgated.marked
  · rw [Function.update_of_ne hij]
    exact hm

/-! ## One account -/

/-- What a request of the instance has heard from the server's tables, a
    request of the server has heard in the same run. -/
theorem heard_base {tr : List (Nat × Entry roleTables.machine)} {i : Nat} {s : DbStmt}
    {a : s.Reply} (hh : Heard (baseEntries (entriesOf (S := deployment) i tr)) s a) :
    ∃ e ∈ baseTrace (S := server) tr, Answered s a e := by
  obtain ⟨e, he, ha⟩ := hh
  refine ⟨e, ?_, ha⟩
  obtain ⟨x, hx, hbase⟩ := List.mem_filterMap.mp he
  have hmem := mem_entriesOf.mp hx
  exact List.mem_filterMap.mpr ⟨x, List.mem_map.mpr ⟨_, hmem, rfl⟩, hbase⟩

theorem Answered.subject {e : Entry machine} {key a : Str}
    (h : Answered (.identity (.user (.subjectOf key))) (some a) e) :
    ∃ u ∈ e.before.db.users, u.key = key ∧ u.subjectId = some a := by
  have hreply := h.reply
  simp only [DbStmt.exec, IdentityStmt.exec, UserStmt.exec, Except.ok.injEq] at hreply
  obtain ⟨u, hu, hsubject⟩ := Option.bind_eq_some_iff.mp hreply
  exact ⟨u, List.mem_of_find?_eq_some hu, by simpa using List.find?_some hu, hsubject⟩

/-- In a run a user keeps one actor. -/
theorem subject_unique {c : (server).Conf} (hc : Reachable (World.fresh now) c) {i j : Nat}
    {e e' : Entry machine} {key a a' : Str} (he : (i, e) ∈ c.trace) (he' : (j, e') ∈ c.trace)
    (ha : Answered (.identity (.user (.subjectOf key))) (some a) e)
    (ha' : Answered (.identity (.user (.subjectOf key))) (some a') e') : a = a' := by
  have hpast := (lineage_along hc).2
  obtain ⟨u, hu, hkey, hsubject⟩ := ha.subject
  obtain ⟨u', hu', hkey', hsubject'⟩ := ha'.subject
  obtain ⟨g, hg, hsame⟩ := (hpast _ he).users u hu
  obtain ⟨g', hg', hsame'⟩ := (hpast _ he').users u' hu'
  have hgkey : g.user.key = key := hsame.key.symm.trans hkey
  have hgkey' : g'.user.key = key := hsame'.key.symm.trans hkey'
  have heq : g = g' := by
    apply hg.unique hc hg' (v := key)
    · simp [HumanAggregate.keys, hgkey]
    · simp [HumanAggregate.keys, hgkey']
  subst heq
  have hsubjects : some a = some a' := by
    rw [← hsubject, ← hsubject', hsame.subjectId, hsame'.subjectId]
  exact Option.some.inj hsubjects

/-- The statement gave an account the role of administrator. -/
def GrantsRole (e : Entry roleTables.machine) (actorKey : Str) : Prop :=
  ∃ row, e.stmt = .inr (.assign row) ∧ row.userId = actorKey ∧ row.roleId = adminRole ∧
    row ∉ e.before.2.userRoles ∧ row ∈ e.after.2.userRoles

/-- Request `i` is a bootstrap request and has given an account the role. -/
def Granted (c : (deployment).Conf) (i : Nat) (actorKey : Str) : Prop :=
  (∃ cfg gate request ip, c.reqOf i = some (.bootstrap cfg gate request ip)) ∧
    ∃ e, (i, e) ∈ c.trace ∧ GrantsRole e actorKey

/-- The rule at an entry of a run. -/
theorem allowed_at {w : World × RoleTables} (hc : Reachable w c)
    {tr₁ tr₂ : List (Nat × Entry roleTables.machine)} {i : Nat} {e : Entry roleTables.machine}
    (htr : c.trace = tr₁ ++ (i, e) :: tr₂) :
    ∃ r, c.reqOf i = some r ∧ Allowed r (entriesOf (S := deployment) i tr₁) e :=
  (hc.rule bootstrapRule_met fun _ => trivial).entries tr₁ i e tr₂ htr

/-- A grant is one to the account that the holder of the row has marked. -/
theorem Granted.marked (hc : Reachable (World.fresh now, RoleTables.seeded) c) {i : Nat}
    {actorKey : Str} (hg : Granted c i actorKey) :
    ∃ m userId, phases c.trace m = .marked userId ∧
      ∃ e ∈ baseTrace (S := server) c.trace,
        Answered (.identity (.user (.subjectOf (normalizeUserId userId)))) (some actorKey) e := by
  obtain ⟨⟨cfg, gate, request, ip, hreq⟩, e, hmem, row, hs, rfl, -⟩ := hg
  obtain ⟨tr₁, tr₂, htr⟩ := List.append_of_mem hmem
  obtain ⟨r, hr, hallowed⟩ := allowed_at hc htr
  cases hreq.symm.trans hr
  unfold Allowed at hallowed
  rw [hs] at hallowed
  obtain ⟨userId, hgranting, hheard⟩ := hallowed
  obtain ⟨c₁, as, hc₁, rfl, rfl⟩ := hc.cut htr
  have hmarked : ∃ m, phases c₁.trace m = .marked userId := by
    rcases hgranting with hmarked | ⟨hresumed, -⟩
    · exact ⟨i, hmarked⟩
    · exact (gate_holds hc₁).resumed i userId hresumed
  obtain ⟨m, hm⟩ := hmarked
  refine ⟨m, userId, marked_persist hc₁ hm as, ?_⟩
  obtain ⟨e', he', ha⟩ := heard_base hheard
  refine ⟨e', ?_, ha⟩
  rw [htr, baseTrace_append]
  exact List.mem_append_left _ he'

/-- All grants of a run are of one account. -/
theorem granted_unique (hc : Reachable (World.fresh now, RoleTables.seeded) c) {i j : Nat}
    {a b : Str} (ha : Granted c i a) (hb : Granted c j b) : a = b := by
  obtain ⟨m, u, hm, e, he, hanswer⟩ := ha.marked hc
  obtain ⟨m', u', hm', e', he', hanswer'⟩ := hb.marked hc
  obtain rfl := (gate_holds hc).unique m m' (.inr ⟨u, hm⟩) (.inr ⟨u', hm'⟩)
  cases hm.symm.trans hm'
  obtain ⟨c', hc', -, htrace⟩ := Reachable.shadow operation_shadows hc
  rw [← htrace] at he he'
  obtain ⟨⟨n, _⟩, hn, rfl⟩ := List.mem_map.mp he
  obtain ⟨⟨n', _⟩, hn', rfl⟩ := List.mem_map.mp he'
  exact subject_unique hc' hn hn' hanswer hanswer'

/-! ## Later requests -/

/-- The tables turn this request away: there is an administrator, its token is
    wrong, or the row of the claim cannot be resumed from its address. -/
def Shut (gate : BootstrapGate) (request : BootstrapAdminRequest) (t : RoleTables) : Prop :=
  (t.userRoles.any fun r => r.roleId = adminRole) = true ∨ gate.verify request.token = false ∨
    ∀ row, t.claim = some row → row.resumable request.email = none

/-- The statement with which a request leaves the phase in which it began. -/
theorem phaseOf_departs {h : List (Entry roleTables.machine)} (hp : phaseOf h ≠ .idle) :
    ∃ h₁ e h₂, h = h₁ ++ e :: h₂ ∧ phaseOf h₁ = .idle ∧ Phase.idle.next e ≠ .idle := by
  induction h using List.reverseRecOn with
  | nil => exact absurd rfl hp
  | append_singleton h e ih =>
    by_cases hidle : phaseOf h = .idle
    · refine ⟨h, e, [], rfl, hidle, ?_⟩
      rw [phaseOf_snoc, hidle] at hp
      exact hp
    · obtain ⟨h₁, e', h₂, rfl, hrest⟩ := ih hidle
      exact ⟨h₁, e', h₂ ++ [e], by simp, hrest⟩

/-- A request that tried to create the row saw no administrator. -/
theorem Allowed.sawNone {cfg : Config} {gate : BootstrapGate} {request : BootstrapAdminRequest}
    {ip : Str} {h : List (Entry roleTables.machine)} {e : Entry roleTables.machine}
    (ha : Allowed (.bootstrap cfg gate request ip) h e) (hidle : phaseOf h = .idle)
    (hnext : Phase.idle.next e ≠ .idle) : SawNone h ∧ gate.verify request.token = true := by
  obtain ⟨ctx, s | s, w⟩ := e
  · exact absurd rfl hnext
  · cases s with
    | createClaim email => exact ha.2
    | readClaim => cases hidle.symm.trans ha
    | markRolePending userId => cases hidle.symm.trans ha
    | deleteClaim => cases hidle.symm.trans ha
    | _ => exact absurd rfl hnext

theorem sawNone_of_phase {w : World × RoleTables} (hc : Reachable w c) {k : Nat} {cfg : Config}
    {gate : BootstrapGate} {request : BootstrapAdminRequest} {ip : Str}
    (hreq : c.reqOf k = some (.bootstrap cfg gate request ip))
    (hp : phases c.trace k ≠ .idle) :
    SawNone (entriesOf (S := deployment) k c.trace) ∧ gate.verify request.token = true := by
  obtain ⟨h₁, e, h₂, hsplit, hidle, hnext⟩ := phaseOf_departs hp
  obtain ⟨tr₁, tr₂, htr, rfl, -⟩ := entriesOf_split hsplit
  obtain ⟨r, hr, hallowed⟩ := allowed_at hc htr
  cases hreq.symm.trans hr
  obtain ⟨⟨e₀, he₀, hs₀⟩, htoken⟩ := hallowed.sawNone hidle hnext
  refine ⟨⟨e₀, ?_, hs₀⟩, htoken⟩
  rw [hsplit]
  exact List.mem_append_left _ he₀

/-- A marked account is marked in every longer trace of the run. -/
theorem marked_of_prefix {w : World × RoleTables} (hc : Reachable w c) {i : Nat} {userId : Str}
    {tr₁ tr₂ : List (Nat × Entry roleTables.machine)} (htr : c.trace = tr₁ ++ tr₂)
    (hm : phases tr₁ i = .marked userId) : phases c.trace i = .marked userId := by
  obtain ⟨c₁, as, hc₁, rfl, rfl⟩ := hc.cut htr
  exact marked_persist hc₁ hm as

/-- Once past the claim, a request remains so. -/
theorem granting_persist {w : World × RoleTables} {k : Nat} {email userId : Str}
    (hc : Reachable w c) (hg : Granting email userId (entriesOf (S := deployment) k c.trace))
    (as : List (deployment).Action) :
    Granting email userId (entriesOf (S := deployment) k (c.run as).trace) := by
  refine hc.persist (P := fun tr _ => Granting email userId (entriesOf (S := deployment) k tr))
    bootstrapRule_met (fun _ => trivial) ?_ hg as
  intro c j r e _ hg _ _ hallowed
  by_cases hkj : k = j
  · subst hkj
    rw [entriesOf_snoc_self]
    have hgated := Allowed.gated hallowed
    apply hg.append
    rw [phaseOf_snoc]
    rcases hg with hm | ⟨hr, -⟩
    · rw [hm] at hgated ⊢
      exact hgated.marked
    · rw [hr] at hgated ⊢
      exact hgated.resumed
  · rw [entriesOf_snoc_ne _ _ (Ne.symm hkj)]
    exact hg

/-- Behind the sealed claim a request stays barred. -/
theorem sealed_barred {w : World × RoleTables} {k : Nat} {email : Str} (hc : Reachable w c)
    (hsealed : Sealed (phases c.trace) c.state.2.claim email k)
    (hnil : entriesOf (S := deployment) k c.trace = []) (as : List (deployment).Action) :
    Barred email (entriesOf (S := deployment) k (c.run as).trace) := by
  have hboth : Sealed (phases (c.run as).trace) (c.run as).state.2.claim email k ∧
      ∀ userId, ¬ ReadFor email userId (entriesOf (S := deployment) k (c.run as).trace) := by
    refine hc.persist (P := fun tr w => Sealed (phases tr) w.2.claim email k ∧
      ∀ userId, ¬ ReadFor email userId (entriesOf (S := deployment) k tr))
      bootstrapRule_met (fun _ => trivial) ?_ ⟨hsealed, ?_⟩ as
    · intro c j r e _ hold hbefore _ hallowed
      obtain ⟨hsealed, hunread⟩ := hold
      rw [← hbefore] at hsealed
      constructor
      · rw [phases_snoc]
        exact hsealed.after (Allowed.gated hallowed)
      · intro userId hread
        by_cases hkj : k = j
        · subst hkj
          rw [entriesOf_snoc_self] at hread
          obtain ⟨e', he', hs, row, hrow, hresume⟩ := hread
          rcases List.mem_append.mp he' with he' | he'
          · exact hunread userId ⟨e', he', hs, row, hrow, hresume⟩
          · -- the row that it reads now cannot be resumed from this address
            obtain rfl := List.mem_singleton.mp he'
            rw [hsealed.closed row hrow] at hresume
            cases hresume
        · rw [entriesOf_snoc_ne _ _ (Ne.symm hkj)] at hread
          exact hunread userId hread
    · intro userId hread
      rw [hnil] at hread
      obtain ⟨e, he, -⟩ := hread
      exact absurd he List.not_mem_nil
  obtain ⟨hsealed, hunread⟩ := hboth
  rcases hsealed.waiting with hidle | hrefused | hresumed
  · exact .inl hidle
  · exact .inr (.inl hrefused)
  · exact .inr (.inr ⟨hresumed, hunread⟩)

section

variable {c₀ : (deployment).Conf} {cfg : Config} {gate : BootstrapGate}
  {request : BootstrapAdminRequest} {ip : Str} {i k : Nat} {actorKey : Str}

/-- A bootstrap request that the tables turn away when it looks, after a
    grant, does not get past the claim. -/
theorem barred_of_shut (hc : Reachable (World.fresh now, RoleTables.seeded) c)
    {tr : List (Nat × Entry roleTables.machine)} (htr : c.trace = c₀.trace ++ tr)
    (hc₀ : Reachable (World.fresh now, RoleTables.seeded) c₀) (hg : Granted c₀ i actorKey)
    (hreq : c.reqOf k = some (.bootstrap cfg gate request ip))
    (hlate : ∀ e, (k, e) ∉ c₀.trace)
    (hshut : ∀ e, (k, e) ∈ c.trace → e.stmt = .inr .adminExists →
      Shut gate request e.before.2) :
    Barred request.email (entriesOf (S := deployment) k c.trace) := by
  by_cases hidle : phases c.trace k = .idle
  · exact .inl hidle
  · obtain ⟨⟨e, he, hs, hnone⟩, htoken⟩ := sawNone_of_phase hc hreq hidle
    have hmem := mem_entriesOf.mp he
    -- the row cannot be resumed when the request looks
    have hclosed : ∀ row, e.before.2.claim = some row → row.resumable request.email = none := by
      rcases hshut e hmem hs with hadmin | hbad | hclosed
      · cases hnone.symm.trans hadmin
      · cases htoken.symm.trans hbad
      · exact hclosed
    obtain ⟨t₁, t₂, hsplit⟩ := List.append_of_mem hmem
    have hprefix : ∃ t, t₁ = c₀.trace ++ t := by
      rcases List.append_eq_append_iff.mp (htr.symm.trans hsplit) with ⟨m, h₁, -⟩ | ⟨m, h₁, h₂⟩
      · exact ⟨m, h₁⟩
      · cases m with
        | nil => exact ⟨[], by simpa using h₁.symm⟩
        | cons x m =>
          cases h₂
          exact absurd (h₁ ▸ List.mem_append_right _ (List.mem_cons_self ..)) (hlate e)
    obtain ⟨t, rfl⟩ := hprefix
    obtain ⟨r, hr, hallowed⟩ := allowed_at hc hsplit
    cases hreq.symm.trans hr
    have hnil : entriesOf (S := deployment) k (c₀.trace ++ t) = [] := by
      unfold Allowed at hallowed
      rw [hs] at hallowed
      exact hallowed
    obtain ⟨c₁, as, hc₁, htr₁, rfl⟩ := hc.cut hsplit
    obtain ⟨m, u, hm, -⟩ := hg.marked hc₀
    have hstate : c₁.state = e.before := by
      have hsteps := hc.steps
      rw [hsplit] at hsteps
      have hsteps₁ := hc₁.steps
      rw [htr₁] at hsteps₁
      exact hsteps₁.state_eq hsteps.split_entry.1
    rw [← htr₁] at hnil
    have hsealed : Sealed (phases c₁.trace) c₁.state.2.claim request.email k := by
      refine ⟨gate_holds hc₁, ⟨m, u, marked_of_prefix hc₁ htr₁ hm⟩, ?_, .inl ?_⟩
      · rw [hstate]
        exact hclosed
      · show phaseOf _ = .idle
        rw [hnil]
        rfl
    exact sealed_barred hc₁ hsealed hnil as

/-- A request that has not got past the claim gives nobody the role, and
    fails. -/
theorem refused_of_barred (hc : Reachable (World.fresh now, RoleTables.seeded) c)
    (hreq : c.reqOf k = some (.bootstrap cfg gate request ip))
    (hbarred : Barred request.email (entriesOf (S := deployment) k c.trace)) :
    (∀ b, ¬ Granted c k b) ∧
      ∀ out, c.Returned k out → ∃ x, out = .error (.auth x) ∧ IsRefusal x := by
  constructor
  · intro b hgranted
    obtain ⟨-, e, hmem, row, hs, -⟩ := hgranted
    obtain ⟨tr₁, tr₂, htr⟩ := List.append_of_mem hmem
    obtain ⟨r, hr, hallowed⟩ := allowed_at hc htr
    cases hreq.symm.trans hr
    unfold Allowed at hallowed
    rw [hs] at hallowed
    obtain ⟨userId, hgranting, -⟩ := hallowed
    obtain ⟨c₁, as, hc₁, rfl, rfl⟩ := hc.cut htr
    exact (granting_persist hc₁ hgranting as).not_barred hbarred
  · intro out hout
    obtain ⟨q, hq, hconcludes⟩ := (hc.rule bootstrapRule_met fun _ => trivial).returned hout
    cases hreq.symm.trans hq
    exact hconcludes hbarred

end

/-- **Bootstrap opens once.** In every run of a new instance all grants of
    the bootstrap path are of one account. A bootstrap request that begins
    after a grant gives nobody the role and is refused, if the tables turn it
    away when it looks for an administrator: there is one, its token is wrong,
    or the row of the claim cannot be resumed from its address. -/
theorem bootstrap_once (hc : Reachable (World.fresh now, RoleTables.seeded) c) :
    (∀ i j a b, Granted c i a → Granted c j b → a = b) ∧
    ∀ i actorKey, Granted c i actorKey → ∀ cfg gate request ip as,
      let c' := (c.next (.start (.bootstrap cfg gate request ip))).run as
      (∀ e, (c.threads.length, e) ∈ c'.trace → e.stmt = .inr .adminExists →
        Shut gate request e.before.2) →
      (∀ b, ¬ Granted c' c.threads.length b) ∧
        ∀ out, c'.Returned c.threads.length out → ∃ x, out = .error (.auth x) ∧ IsRefusal x := by
  constructor
  · intro i j a b ha hb
    exact granted_unique hc ha hb
  · intro i actorKey hg cfg gate request ip as c' hshut
    have hc' : Reachable (World.fresh now, RoleTables.seeded) c' := (hc.next _).run as
    have hreq : c'.reqOf c.threads.length = some (.bootstrap cfg gate request ip) := by
      apply Conf.reqOf_run
      simp [Conf.reqOf, Conf.next]
    have hgrows : ∃ tr, c'.trace = c.trace ++ tr := by
      obtain ⟨tr, htr, -⟩ := (c.next (.start (.bootstrap cfg gate request ip))).run_trace as
      exact ⟨tr, htr⟩
    obtain ⟨tr, htr⟩ := hgrows
    have hlate : ∀ e, (c.threads.length, e) ∉ c.trace := by
      intro e hmem
      exact Nat.lt_irrefl _ ((hc.rule bootstrapRule_met fun _ => trivial).known _ hmem)
    exact refused_of_barred hc' hreq (barred_of_shut hc' htr hc hg hreq hlate hshut)

end

namespace Sample

/-- The choices of the scheduler, from a new instance at time zero. -/
def deployed (as : List (deployment).Action) : (deployment).Conf :=
  ((deployment).initial (World.fresh 0, RoleTables.seeded)).run as

def calmly (i n : Nat) : List (deployment).Action := List.replicate n (.step i Ctx.calm)

/-- The bootstrap token is set. -/
def openGate : BootstrapGate := ⟨some "t".toList⟩

def firstAdmin : BootstrapAdminRequest := ⟨"t".toList, "a@b.c".toList, "alice".toList, password⟩

def bootstrapAlice : Operation := .bootstrap config openGate firstAdmin "ip".toList

/-- Request 0 makes Alice the administrator. -/
def initialised : List (deployment).Action := .start bootstrapAlice :: calmly 0 29

def firstActor : Str := numbered 'u' 1

def firstUser : Str := numbered 'u' 2

/-- The same, but the database refuses the last statement. -/
def unfinished : List (deployment).Action :=
  .start bootstrapAlice :: calmly 0 28 ++ [.step 0 ⟨0, some .refused⟩]

/-- Then Alice takes the role from herself. -/
def abandoned : List (deployment).Action :=
  unfinished ++ .start (.roles firstUser (.removeRoleFromUser firstUser adminRole)) :: calmly 1 3

/-- Whether the statement gave Alice the role. -/
def grantsAlice (e : Entry roleTables.machine) : Bool :=
  match e.stmt with
  | .inr (.assign row) => row.userId = firstActor && row.roleId = adminRole &&
    !e.before.2.userRoles.contains row && e.after.2.userRoles.contains row
  | _ => false

theorem grantsRole_of_grantsAlice {e : Entry roleTables.machine} (h : grantsAlice e = true) :
    GrantsRole e firstActor := by
  unfold grantsAlice at h
  split at h
  · next row hs =>
    refine ⟨row, hs, ?_⟩
    simpa [and_assoc] using h
  · cases h

theorem granted_of_any {as : List (deployment).Action} {i : Nat}
    (hreq : (deployed as).reqOf i = some bootstrapAlice)
    (h : ((deployed as).trace.any fun e => e.1 = i && grantsAlice e.2) = true) :
    Granted (deployed as) i firstActor := by
  obtain ⟨⟨j, e⟩, hmem, he⟩ := List.any_eq_true.mp h
  simp only [Bool.and_eq_true, decide_eq_true_eq] at he
  obtain ⟨rfl, hgrants⟩ := he
  exact ⟨⟨_, _, _, _, hreq⟩, e, hmem, grantsRole_of_grantsAlice hgrants⟩

/-- Whether the statement found an administrator, if it looked for one. -/
def findsAdmin (e : Entry roleTables.machine) : Bool :=
  match e.stmt with
  | .inr .adminExists => e.before.2.userRoles.any fun r => r.roleId = adminRole
  | _ => true

theorem shut_of_all {c : (deployment).Conf} {k : Nat}
    (h : (c.trace.all fun e => e.1 ≠ k || findsAdmin e.2) = true) (e : Entry roleTables.machine)
    (hmem : (k, e) ∈ c.trace) (hs : e.stmt = .inr .adminExists) :
    Shut openGate firstAdmin e.before.2 := by
  have he := List.all_eq_true.mp h _ hmem
  simp only [ne_eq, not_true_eq_false, decide_false, Bool.false_or, findsAdmin, hs] at he
  exact .inl he

/-- Alice sends her request again. -/
def initialisedTwice : (deployment).Conf :=
  ((deployed initialised).next (.start bootstrapAlice)).run (calmly 1 3)

theorem bootstrap_once_initialised :
    initialisedTwice.outcome 1 = some (.error (.auth bootstrapRejected)) ∧
      ∀ b, ¬ Granted initialisedTwice 1 b := by
  have hc : Reachable (World.fresh 0, RoleTables.seeded) (deployed initialised) := ⟨_, rfl⟩
  have hgranted : Granted (deployed initialised) 0 firstActor :=
    granted_of_any rfl (by decide +kernel)
  have hlen : (deployed initialised).threads.length = 1 := by decide +kernel
  have hlater := (bootstrap_once hc).2 0 firstActor hgranted config openGate firstAdmin
    "ip".toList (calmly 1 3)
  rw [hlen] at hlater
  exact ⟨by decide +kernel, (hlater (shut_of_all (by decide +kernel))).1⟩

/-- The last statement of the bootstrap failed, and the only administrator has
    lost the role: the same request is answered as the first was. -/
theorem bootstrap_reopens :
    ¬ ∀ c : (deployment).Conf, Reachable (World.fresh 0, RoleTables.seeded) c →
      ∀ i actorKey, Granted c i actorKey → ∀ cfg gate request ip as,
        let c' := (c.next (.start (.bootstrap cfg gate request ip))).run as
        ∀ out, c'.Returned c.threads.length out → ∃ x, out = .error (.auth x) ∧ IsRefusal x := by
  intro h
  have hgranted : Granted (deployed abandoned) 0 firstActor :=
    granted_of_any rfl (by decide +kernel)
  have hlen : (deployed abandoned).threads.length = 2 := by decide +kernel
  have hlater := h (deployed abandoned) ⟨_, rfl⟩ 0 firstActor hgranted config openGate firstAdmin
    "ip".toList (calmly 2 9) (.ok (.administrator firstUser))
  rw [hlen] at hlater
  obtain ⟨x, hx, -⟩ := hlater (Conf.returned_of_outcome (by decide +kernel))
  cases hx

end Sample

end SoulAuth
