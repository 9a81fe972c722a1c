import SoulAuth.Proofs.RoleAuthority
import SoulAuth.Proofs.RoleViews
import SoulAuth.Routes.Rbac

/-! # No row refers to a role that is gone

`delete_role` looks for users of the role, deletes the grants of the role and
then the role itself. What it has found may be out of date by then. A row
that is added in between, or after the role is gone, is left without a role.
If no row is added at such a time, no run leaves one behind.
-/

namespace SoulAuth

open Framework Framework.System

/-! ## Referential integrity -/

/-- The role is there. -/
def RoleTables.Has (t : RoleTables) (key : Str) : Prop := ∃ r ∈ t.roles, r.key = key

instance (t : RoleTables) (key : Str) : Decidable (t.Has key) :=
  inferInstanceAs (Decidable (∃ r ∈ t.roles, r.key = key))

/-- Every row of `user_role` and of `role_permission` has its role. -/
structure RoleTables.Referential (t : RoleTables) : Prop where
  assigned : ∀ a ∈ t.userRoles, t.Has a.roleId
  granted : ∀ g ∈ t.rolePermissions, t.Has g.roleId

section

variable [Platform]

/-- A row for the role appears in `user_role`. -/
def AddsUserRole (key : Str) (e : Entry roleTables.machine) : Prop :=
  ∃ a ∈ e.after.2.userRoles, a.roleId = key ∧ a ∉ e.before.2.userRoles

/-- A row for the role appears in `role_permission`. -/
def AddsRolePermission (key : Str) (e : Entry roleTables.machine) : Prop :=
  ∃ g ∈ e.after.2.rolePermissions, g.roleId = key ∧ g ∉ e.before.2.rolePermissions

/-- A request has executed one statement before the place `n` and executes
    another one after it. -/
def Spans (tr : List (Nat × Entry roleTables.machine)) (look act : RoleStmt) (n : Nat) : Prop :=
  ∃ (j n₁ n₂ : Nat) (e₁ e₂ : Entry roleTables.machine), tr[n₁]? = some (j, e₁) ∧
    tr[n₂]? = some (j, e₂) ∧ e₁.stmt = .inr look ∧ e₂.stmt = .inr act ∧ n₁ < n ∧ n < n₂

/-- Rows appear for roles that are there, and not between the look of a
    deletion and its `DELETE` of the role. -/
structure Undisturbed (tr : List (Nat × Entry roleTables.machine)) : Prop where
  present : ∀ (n i : Nat) (e : Entry roleTables.machine) (key : Str), tr[n]? = some (i, e) →
    AddsUserRole key e ∨ AddsRolePermission key e → e.before.2.Has key
  unassigned : ∀ (n i : Nat) (e : Entry roleTables.machine) (key : Str), tr[n]? = some (i, e) →
    AddsUserRole key e → ¬ Spans tr (.view (.countAssigned key)) (.deleteRole key) n
  ungranted : ∀ (n i : Nat) (e : Entry roleTables.machine) (key : Str), tr[n]? = some (i, e) →
    AddsRolePermission key e → ¬ Spans tr (.deleteGrants key) (.deleteRole key) n

/-- No request is in progress. -/
def Idle {S : System} (c : S.Conf) : Prop :=
  ∀ (i : Nat) (t : S.Thread), c.threads[i]? = some t → ∃ r, t.prog = .done r

/-! ## What a deletion has seen -/

/-- The request has found no user of the role. -/
def SawUnused (key : Str) (e : Entry roleTables.machine) : Prop :=
  e.stmt = .inr (.view (.countAssigned key)) ∧ ∀ a ∈ e.after.2.userRoles, a.roleId ≠ key

/-- The request has deleted the grants of the role. -/
def Cleared (key : Str) (e : Entry roleTables.machine) : Prop :=
  e.stmt = .inr (.deleteGrants key) ∧ ∀ g ∈ e.after.2.rolePermissions, g.roleId ≠ key

/-- A role is deleted by a request that has seen it unused and has deleted
    its grants. -/
def DeletesAfterChecks (h : List (Entry roleTables.machine)) (e : Entry roleTables.machine) :
    Prop :=
  ∀ key, e.stmt = .inr (.deleteRole key) →
    (∃ e' ∈ h, SawUnused key e') ∧ ∃ e' ∈ h, Cleared key e'

def integrityRule : Rule rbac where
  assumes _ := True
  entry _ := DeletesAfterChecks
  outcome _ _ _ := True

variable {h : List (Entry roleTables.machine)} {ctx : Ctx} {w : World × RoleTables} {key : Str}

/-- An answer that counts nothing means that the role is unused. -/
theorem sawUnused_of_count {count : Option Nat}
    (hr : ((RoleStmt.view (.countAssigned key)).run ctx w.1 w.2).1 = .ok count)
    (hcount : isPositive count = false) :
    SawUnused key ⟨ctx, .inr (.view (.countAssigned key)), w⟩ := by
  have hexec : (RoleStmt.view (.countAssigned key)).run ctx w.1 w.2 =
      (.ok ((RoleView.countAssigned key).eval w.1.db.users w.2), w.2) := by
    obtain ⟨elapsed, _ | _ | _ | _⟩ := ctx
    · rfl
    · cases hr
    · cases hr
    · cases hr
  rw [hexec] at hr
  cases hr
  constructor
  · rfl
  · intro a ha hkey
    have hafter : a ∈ ((RoleStmt.view (.countAssigned key)).run ctx w.1 w.2).2.userRoles := ha
    rw [hexec] at hafter
    have hpos : isPositive (countAll (w.2.userRoles.filter fun r => r.roleId = key)) = true :=
      isPositive_countAll.mpr ⟨a, List.mem_filter.mpr ⟨hafter, decide_eq_true hkey⟩⟩
    cases hcount.symm.trans hpos

theorem cleared_of_deleteGrants {u : Unit}
    (hr : ((RoleStmt.deleteGrants key).run ctx w.1 w.2).1 = .ok u) :
    Cleared key ⟨ctx, .inr (.deleteGrants key), w⟩ := by
  constructor
  · rfl
  · intro g hg
    have hafter : g ∈ ((RoleStmt.deleteGrants key).run ctx w.1 w.2).2.rolePermissions := hg
    obtain ⟨elapsed, _ | _ | _ | _⟩ := ctx
    · exact of_decide_eq_true (List.mem_filter.mp hafter).2
    · cases hr
    · cases hr
    · cases hr

theorem deletesAfterChecks_of_ne {e : Entry roleTables.machine}
    (he : ∀ key, e.stmt ≠ .inr (.deleteRole key)) : DeletesAfterChecks h e :=
  fun key hkey => absurd hkey (he key)

/-- `delete_role` checks before it deletes. -/
theorem deleteRole_meets {roleName : Str} :
    (deleteRole roleName).Meets (fun _ => True) DeletesAfterChecks (fun _ _ => True) [] := by
  apply meets_roleQuery_bind
  · intro ctx w
    exact deletesAfterChecks_of_ne nofun
  · intro ctx₁ w₁ found _
    apply Prog.meets_bind.mpr
    rw [Prog.meets_orThrow]
    refine ⟨fun role _ => ?_, fun _ => trivial⟩
    apply Prog.meets_bind.mpr
    rw [Prog.meets_ensure]
    refine ⟨fun _ => ?_, fun _ => trivial⟩
    apply meets_roleQuery_bind
    · intro ctx w
      exact deletesAfterChecks_of_ne nofun
    · intro ctx₂ w₂ count hcount
      apply Prog.meets_bind.mpr
      rw [Prog.meets_ensure]
      refine ⟨fun hzero => ?_, fun _ => trivial⟩
      apply meets_roleQuery_bind
      · intro ctx w
        exact deletesAfterChecks_of_ne nofun
      · intro ctx₃ w₃ u hu
        apply meets_roleQuery
        · -- only the last query deletes, with the count and the grants before it
          intro ctx w key hkey
          cases hkey
          constructor
          · exact ⟨_, by simp, sawUnused_of_count hcount hzero⟩
          · exact ⟨_, by simp, cleared_of_deleteGrants hu⟩
        · intro _ _ _ _
          trivial
        · intro _ _ _ _
          trivial
      · intro _ _ _ _
        trivial
    · intro _ _ _ _
      trivial
  · intro _ _ _ _
    trivial

/-- A statement that deletes no role. -/
def KeepsRoles : roleTables.machine.Stmt → Prop
  | .inr (.deleteRole _) => False
  | _ => True

/-- Only `delete_role` deletes roles. -/
theorem RbacOperation.keepsRoles {op : RbacOperation}
    (hop : ∀ roleName, op ≠ .deleteRole roleName) : op.program.Only KeepsRoles := by
  apply (RbacOperation.keepsRows _ hop).only.mono
  intro s hs
  obtain s | s := s
  · trivial
  · cases s with
    | deleteRole key => exact hs
    | _ => trivial

/-- Every request keeps the rule. -/
theorem integrityRule_met : integrityRule.Met := by
  intro op
  by_cases hop : ∃ roleName, op = .deleteRole roleName
  · obtain ⟨roleName, rfl⟩ := hop
    exact deleteRole_meets
  · apply (RbacOperation.keepsRoles fun roleName heq => hop ⟨roleName, heq⟩).meets
    · intro t e _ he key hkey
      rw [hkey] at he
      cases he
    · intro t r _
      trivial

/-! ## What a statement does to the rows -/

/-- Only a deletion takes a role away: an edit leaves its key as it is. -/
theorem has_after (e : Entry roleTables.machine) (he : ∀ key, e.stmt ≠ .inr (.deleteRole key))
    {k : Str} (hk : e.before.2.Has k) : e.after.2.Has k := by
  obtain ⟨ctx, s | s, w⟩ := e
  · exact hk
  · have hexec : (s.exec w.1 w.2).2.Has k := by
      obtain ⟨r, hr, hkey⟩ := hk
      cases s with
      | deleteRole key => exact absurd rfl (he key)
      | assign | grant | createClaim =>
        simp only [RoleStmt.exec]
        split
        · exact ⟨r, hr, hkey⟩
        · exact ⟨r, hr, hkey⟩
      | createPermission _ =>
        simp only [RoleStmt.exec]
        split_ifs <;> exact ⟨r, hr, hkey⟩
      | createRole _ =>
        simp only [RoleStmt.exec]
        split_ifs
        · exact ⟨r, hr, hkey⟩
        · exact ⟨r, hr, hkey⟩
        · exact ⟨r, List.mem_append_left _ hr, hkey⟩
      | updateRole key displayName description now =>
        refine ⟨_, List.mem_map_of_mem hr, ?_⟩
        by_cases hedited : r.key = key
        · rw [if_pos hedited]
          exact hkey
        · rw [if_neg hedited]
          exact hkey
      | _ => exact ⟨r, hr, hkey⟩
    -- a lost answer does not undo the statement
    show (s.run ctx w.1 w.2).2.Has k
    obtain ⟨elapsed, _ | _ | _ | _⟩ := ctx
    · exact hexec
    · exact hk
    · exact hk
    · exact hexec

/-- A deletion leaves the rows alone, and every other role. -/
theorem after_deleteRole {e : Entry roleTables.machine} (he : e.stmt = .inr (.deleteRole key)) :
    e.after.2.userRoles = e.before.2.userRoles ∧
      e.after.2.rolePermissions = e.before.2.rolePermissions ∧
      ∀ k, k ≠ key → e.before.2.Has k → e.after.2.Has k := by
  obtain ⟨ctx, s, w⟩ := e
  obtain rfl : s = .inr (.deleteRole key) := he
  have hexec : ∀ k, k ≠ key → w.2.Has k → ((RoleStmt.deleteRole key).exec w.1 w.2).2.Has k := by
    intro k hk hhas
    obtain ⟨r, hr, hkey⟩ := hhas
    refine ⟨r, List.mem_filter.mpr ⟨hr, decide_eq_true ?_⟩, hkey⟩
    rw [hkey]
    exact hk
  obtain ⟨elapsed, _ | _ | _ | _⟩ := ctx
  · exact ⟨rfl, rfl, hexec⟩
  · exact ⟨rfl, rfl, fun _ _ h => h⟩
  · exact ⟨rfl, rfl, fun _ _ h => h⟩
  · exact ⟨rfl, rfl, hexec⟩

/-! ## Runs -/

/-- A shorter run is undisturbed as well. -/
theorem Undisturbed.of_snoc {tr : List (Nat × Entry roleTables.machine)}
    {x : Nat × Entry roleTables.machine} (hu : Undisturbed (tr ++ [x])) : Undisturbed tr := by
  have hkeep : ∀ (n : Nat) (y : Nat × Entry roleTables.machine), tr[n]? = some y →
      (tr ++ [x])[n]? = some y := by
    intro n y hn
    rw [List.getElem?_append_left (List.getElem?_eq_some_iff.mp hn).1]
    exact hn
  have hspans : ∀ look act n, Spans tr look act n → Spans (tr ++ [x]) look act n := by
    intro look act n hspan
    obtain ⟨j, n₁, n₂, e₁, e₂, h₁, h₂, hrest⟩ := hspan
    exact ⟨j, n₁, n₂, e₁, e₂, hkeep n₁ _ h₁, hkeep n₂ _ h₂, hrest⟩
  constructor
  · intro n i e key hn
    exact hu.present n i e key (hkeep n _ hn)
  · intro n i e key hn hadds hspan
    exact hu.unassigned n i e key (hkeep n _ hn) hadds (hspans _ _ n hspan)
  · intro n i e key hn hadds hspan
    exact hu.ungranted n i e key (hkeep n _ hn) hadds (hspans _ _ n hspan)

variable {w₀ : World × RoleTables} {c : (rbac).Conf} {i : Nat} {e : Entry roleTables.machine}

/-- The last statement of a run stands after the others. -/
theorem spans_of_last {look act : RoleStmt} {n₁ n : Nat} {e₁ : Entry roleTables.machine}
    (hn₁ : c.trace[n₁]? = some (i, e₁)) (he₁ : e₁.stmt = .inr look) (he : e.stmt = .inr act)
    (hlt : n₁ < n) (hn : n < c.trace.length) : Spans (c.trace ++ [(i, e)]) look act n := by
  refine ⟨i, n₁, c.trace.length, e₁, e, ?_, by simp, he₁, he, hlt, hn⟩
  rw [List.getElem?_append_left (by omega)]
  exact hn₁

/-- When a role is deleted in an undisturbed run, no user has it. -/
theorem unused_at_deletion (hc : Reachable w₀ c) (hu : Undisturbed (c.trace ++ [(i, e)]))
    (he : e.stmt = .inr (.deleteRole key)) (hsaw : ∃ e' ∈ entriesOf i c.trace, SawUnused key e') :
    ∀ a ∈ c.state.2.userRoles, a.roleId ≠ key := by
  obtain ⟨e₁, hmem, he₁, hunused⟩ := hsaw
  obtain ⟨n₁, hn₁⟩ := List.mem_iff_getElem?.mp (mem_entriesOf.mp hmem)
  apply hc.steps.holds_since hn₁ (P := fun w => ∀ a ∈ w.2.userRoles, a.roleId ≠ key) hunused
  intro m j e' hlt hm hbefore a ha hkey
  by_cases hold : a ∈ e'.before.2.userRoles
  · exact hbefore a hold hkey
  · have hm' : (c.trace ++ [(i, e)])[m]? = some (j, e') := by
      rw [List.getElem?_append_left (List.getElem?_eq_some_iff.mp hm).1]
      exact hm
    apply hu.unassigned m j e' key hm' ⟨a, ha, hkey, hold⟩
    exact spans_of_last hn₁ he₁ he hlt (List.getElem?_eq_some_iff.mp hm).1

/-- And it has no grants. -/
theorem cleared_at_deletion (hc : Reachable w₀ c) (hu : Undisturbed (c.trace ++ [(i, e)]))
    (he : e.stmt = .inr (.deleteRole key)) (hcleared : ∃ e' ∈ entriesOf i c.trace, Cleared key e') :
    ∀ g ∈ c.state.2.rolePermissions, g.roleId ≠ key := by
  obtain ⟨e₁, hmem, he₁, hnone⟩ := hcleared
  obtain ⟨n₁, hn₁⟩ := List.mem_iff_getElem?.mp (mem_entriesOf.mp hmem)
  apply hc.steps.holds_since hn₁ (P := fun w => ∀ g ∈ w.2.rolePermissions, g.roleId ≠ key) hnone
  intro m j e' hlt hm hbefore g hg hkey
  by_cases hold : g ∈ e'.before.2.rolePermissions
  · exact hbefore g hold hkey
  · have hm' : (c.trace ++ [(i, e)])[m]? = some (j, e') := by
      rw [List.getElem?_append_left (List.getElem?_eq_some_iff.mp hm).1]
      exact hm
    apply hu.ungranted m j e' key hm' ⟨g, hg, hkey, hold⟩
    exact spans_of_last hn₁ he₁ he hlt (List.getElem?_eq_some_iff.mp hm).1

/-- **The step lemma.** A statement of an undisturbed run keeps every row
    with its role. -/
theorem referential_step (hc : Reachable w₀ c) (hu : Undisturbed (c.trace ++ [(i, e)]))
    (hbefore : e.before = c.state) (href : c.state.2.Referential)
    (hchecks : DeletesAfterChecks (entriesOf i c.trace) e) : e.after.2.Referential := by
  have hlast : (c.trace ++ [(i, e)])[c.trace.length]? = some (i, e) := by simp
  rw [← hbefore] at href
  by_cases hdelete : ∃ key, e.stmt = .inr (.deleteRole key)
  · obtain ⟨key, he⟩ := hdelete
    -- in an undisturbed run what the checks saw is still so at the deletion
    obtain ⟨hsaw, hcleared⟩ := hchecks key he
    have hunused := unused_at_deletion hc hu he hsaw
    have hnone := cleared_at_deletion hc hu he hcleared
    rw [← hbefore] at hunused hnone
    obtain ⟨hassigned, hgranted, hkeep⟩ := after_deleteRole he
    constructor
    · intro a ha
      rw [hassigned] at ha
      exact hkeep a.roleId (hunused a ha) (href.assigned a ha)
    · intro g hg
      rw [hgranted] at hg
      exact hkeep g.roleId (hnone g hg) (href.granted g hg)
  · have hhas : ∀ k, e.before.2.Has k → e.after.2.Has k :=
      fun k hk => has_after e (fun key he => hdelete ⟨key, he⟩) hk
    -- a new row names a role that is there when the row is written
    constructor
    · intro a ha
      apply hhas
      by_cases hold : a ∈ e.before.2.userRoles
      · exact href.assigned a hold
      · exact hu.present _ i e a.roleId hlast (.inl ⟨a, ha, rfl, hold⟩)
    · intro g hg
      apply hhas
      by_cases hold : g ∈ e.before.2.rolePermissions
      · exact href.granted g hold
      · exact hu.present _ i e g.roleId hlast (.inr ⟨g, hg, rfl, hold⟩)

/-- **No row is left behind.** In an undisturbed run every row of `user_role`
    and `role_permission` has its role, whatever is in progress. -/
theorem rows_have_roles (h₀ : w₀.2.Referential) (hc : Reachable w₀ c)
    (hu : Undisturbed c.trace) : c.state.2.Referential := by
  have hlift : integrityRule.Inv c ∧ (Undisturbed c.trace → c.state.2.Referential) := by
    apply hc.lift integrityRule_met
      (P := fun tr w => Undisturbed tr → w.2.Referential)
    · intro _
      exact h₀
    · intro c i r e hc _ hP hbefore _ hchecks hu'
      exact referential_step hc hu' hbefore (hP hu'.of_snoc) hchecks
    · intro _ _ _
      trivial
  exact hlift.2 hu

end

namespace Sample

/-- The choices of the scheduler on a role service with an empty role, after
    Alice has registered. -/
def administered (as : List (rbac).Action) : (rbac).Conf :=
  ((rbac).initial ((after prelude).state, { editorial with userRoles := [] })).run as

/-- `n` undisturbed statements of request `i`. -/
def undisturbed (i n : Nat) : List (rbac).Action := List.replicate n (.step i Ctx.calm)

/-- Request 0 deletes the role, and request 1 gives it to Alice after
    request 0 has found that nobody has it. -/
def crossing : List (rbac).Action :=
  .start (.deleteRole editors.name) :: .start (.assignRoleAsSystem alice editors.name) ::
    (undisturbed 0 2 ++ undisturbed 1 5 ++ undisturbed 0 2)

/-- Request 0 deletes the role, and request 1 comes too late. -/
def succeeded : List (rbac).Action :=
  .start (.deleteRole editors.name) :: undisturbed 0 4 ++
    .start (.assignRoleAsSystem alice editors.name) :: undisturbed 1 5

theorem editorial_referential : { editorial with userRoles := [] }.Referential where
  assigned := by decide
  granted := by decide

/-- Nothing is added after the role is gone. -/
theorem succeeded_undisturbed : Undisturbed (administered succeeded).trace := by
  have hquiet : ∀ x ∈ (administered succeeded).trace,
      (∀ a ∈ x.2.after.2.userRoles, a ∈ x.2.before.2.userRoles) ∧
        ∀ g ∈ x.2.after.2.rolePermissions, g ∈ x.2.before.2.rolePermissions := by
    decide +kernel
  have hassign : ∀ (n i : Nat) (e : Entry roleTables.machine) (key : Str),
      (administered succeeded).trace[n]? = some (i, e) → ¬ AddsUserRole key e := by
    intro n i e key hn hadds
    obtain ⟨a, ha, -, hnew⟩ := hadds
    exact hnew ((hquiet _ (List.mem_of_getElem? hn)).1 a ha)
  have hgrant : ∀ (n i : Nat) (e : Entry roleTables.machine) (key : Str),
      (administered succeeded).trace[n]? = some (i, e) → ¬ AddsRolePermission key e := by
    intro n i e key hn hadds
    obtain ⟨g, hg, -, hnew⟩ := hadds
    exact hnew ((hquiet _ (List.mem_of_getElem? hn)).2 g hg)
  constructor
  · intro n i e key hn hadds
    rcases hadds with hadds | hadds
    · exact absurd hadds (hassign n i e key hn)
    · exact absurd hadds (hgrant n i e key hn)
  · intro n i e key hn hadds
    exact absurd hadds (hassign n i e key hn)
  · intro n i e key hn hadds
    exact absurd hadds (hgrant n i e key hn)

/-- The deletion that ran alone has left nothing behind. -/
theorem rows_have_roles_succeeded :
    (administered succeeded).outcome 0 = some (.ok ()) ∧
      (administered succeeded).state.2.Referential :=
  ⟨by decide +kernel,
    rows_have_roles (c := administered succeeded) editorial_referential ⟨succeeded, rfl⟩
      succeeded_undisturbed⟩

/-- Both requests of the other run succeed, and Alice has a role that is not
    there. -/
theorem rows_have_roles_fails :
    ¬ ∀ (w : World × RoleTables) (c : (rbac).Conf), w.2.Referential → Reachable w c → Idle c →
      c.state.2.Referential := by
  intro h
  have hidle : Idle (administered crossing) := by
    have hdone : ∀ t ∈ (administered crossing).threads,
        (match t.prog with | .done _ => true | .step _ _ => false) = true := by
      decide +kernel
    intro i t ht
    have hprog := hdone t (List.mem_of_getElem? ht)
    split at hprog
    · next r heq => exact ⟨r, heq⟩
    · cases hprog
  have href := h _ (administered crossing) editorial_referential ⟨crossing, rfl⟩ hidle
  have hlost : ¬ ∀ a ∈ (administered crossing).state.2.userRoles,
      (administered crossing).state.2.Has a.roleId := by
    decide +kernel
  exact hlost href.assigned

end Sample

end SoulAuth
