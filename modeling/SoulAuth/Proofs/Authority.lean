import SoulAuth.Proofs.ConsoleCallers
import SoulAuth.Proofs.Tables

/-! # What administrators may change

The tables that only administrators change are those of roles, the OIDC
clients, and the actors other than by a registration. Whatever changes in them,
in any interleaving of requests, changes by a request that had let its caller
in and had found its permission before, or by a bootstrap that had found no
administrator. So where nobody holds a permission on roles and the bootstrap is
closed, the roles stay as they are: no sequence of requests obtains one.
-/

namespace SoulAuth

open Framework Framework.Prog Framework.System

/-! ## Changes -/

/-- A difference between two states, with the permissions of which one lets a
    request bring it about. -/
inductive Changed : World × (RoleTables × AuthCache) → World × (RoleTables × AuthCache) →
    List Str → Prop
  | userRoles {w w' : World × (RoleTables × AuthCache)} (h : w'.2.1.userRoles ≠ w.2.1.userRoles) :
    Changed w w' [Names.rolesWrite]
  | rolePermissions {w w' : World × (RoleTables × AuthCache)}
    (h : w'.2.1.rolePermissions ≠ w.2.1.rolePermissions) :
    Changed w w' [Names.permissionsWrite, Names.rolesDelete]
  | permissions {w w' : World × (RoleTables × AuthCache)}
    (h : w'.2.1.permissions ≠ w.2.1.permissions) : Changed w w' [Names.permissionsWrite]
  | roles {w w' : World × (RoleTables × AuthCache)} (h : w'.2.1.roles ≠ w.2.1.roles) :
    Changed w w' [Names.rolesWrite, Names.rolesDelete]
  /-- No permission is enough for the claim of the bootstrap. -/
  | claim {w w' : World × (RoleTables × AuthCache)} (h : w'.2.1.claim ≠ w.2.1.claim) :
    Changed w w' []
  | clients {w w' : World × (RoleTables × AuthCache)} (h : w'.1.db.clients ≠ w.1.db.clients) :
    Changed w w' [Names.oidcClientsWrite]
  /-- An actor is created without a user, or its status changes. -/
  | actors {w w' : World × (RoleTables × AuthCache)}
    (h : w'.1.db.identity.actors ≠ w.1.db.identity.actors) (hu : w'.1.db.users = w.1.db.users) :
    Changed w w' [Names.usersWrite, Names.actorsWrite]

variable [Platform]

/-- The tables of roles are written by statements on them only. -/
theorem roleTables_after (e : Entry consoleTables.machine) : e.after.2.1 = e.before.2.1 ∨
    ∃ s, e.stmt = .inr (.inl s) ∧ e.after.2.1 = (s.exec e.before.1 e.before.2.1).2 := by
  obtain ⟨⟨elapsed, fault⟩, s | s | s, w⟩ := e
  · exact .inl rfl
  · cases fault with
    | none => exact .inr ⟨s, rfl, rfl⟩
    | some fault =>
      cases fault with
      | refused | conflict => exact .inl rfl
      | lostReply => exact .inr ⟨s, rfl, rfl⟩
  · exact .inl rfl

/-- The server's tables are written by statements of the server only. -/
theorem server_after (e : Entry consoleTables.machine) : e.after.1 = e.before.1 ∨
    ∃ e₀, e.base? = some e₀ ∧ e.stmt = .inl e₀.stmt ∧ e.before.1 = e₀.before ∧
      e.after.1 = e₀.after := by
  obtain ⟨ctx, s | s, w⟩ := e
  · exact .inr ⟨⟨ctx, s, w.1⟩, rfl, rfl, rfl, rfl⟩
  · exact .inl rfl

theorem clients_change (e : Entry machine) :
    e.after.db.clients = e.before.db.clients ∨ e.stmt.effect = some .writeClient := by
  rcases db_after e with h | ⟨s, hs, h⟩
  · exact .inl (by rw [h])
  · have hafter := congrArg Db.clients h
    cases s with
    | client s =>
      cases s with
      | getActive _ => exact .inl hafter
      | _ => exact .inr (by rw [hs]; rfl)
    | _ => exact .inl hafter

/-- Actors change with the users, by a change of a status, or by the creation
    of an AI actor. -/
theorem actors_change (e : Entry machine) :
    e.after.db.identity.actors = e.before.db.identity.actors ∨
      e.after.db.users ≠ e.before.db.users ∨
      e.stmt.effect = some .setActorStatus ∨ e.stmt.effect = some .createActor := by
  rcases identity_after (e := e) with h | ⟨s, hs, h⟩
  · exact .inl (congrArg IdentityTables.actors h)
  · have hactors := congrArg IdentityTables.actors h
    have husers := congrArg IdentityTables.users h
    cases s with
    | actor s =>
      cases s with
      | find _ => exact .inl hactors
      | setStatus _ _ _ => exact .inr (.inr (.inl (by rw [hs]; rfl)))
      | create _ => exact .inr (.inr (.inr (by rw [hs]; rfl)))
    | createHuman a =>
      simp only [IdentityStmt.exec, HumanAggregate.create] at hactors husers
      split at hactors
      · exact .inl hactors
      · next hnone =>
        -- the row of the user is written in the same transaction
        right
        left
        intro hsame
        rw [hnone] at husers
        have hlen := congrArg List.length (husers.symm.trans hsame)
        simp at hlen
    | _ => exact .inl hactors

/-- A change takes one of its permissions. -/
theorem Changed.authority {e : Entry consoleTables.machine} {ps : List Str}
    (h : Changed e.before e.after ps) :
    ∃ ps', SoulAuth.authority e.stmt = some ps' ∧ ∀ p ∈ ps', p ∈ ps := by
  have htables : ∀ {P : RoleTables → Prop}, P e.before.2.1 → ¬ P e.after.2.1 →
      ∃ s, e.stmt = .inr (.inl s) ∧ ¬ P (s.exec e.before.1 e.before.2.1).2 := by
    intro P hbefore hafter
    rcases roleTables_after e with hsame | ⟨s, hs, hexec⟩
    · rw [hsame] at hafter
      exact absurd hbefore hafter
    · rw [hexec] at hafter
      exact ⟨s, hs, hafter⟩
  -- one case per table: a statement that changes it takes the permission for it
  cases h with
  | userRoles hne =>
    obtain ⟨s, hs, hexec⟩ := htables (P := fun t => t.userRoles = e.before.2.1.userRoles) rfl hne
    rcases s.userRoles_exec with hsame | hauthority
    · exact absurd hsame hexec
    · exact ⟨_, by rw [hs]; exact hauthority, fun p hp => hp⟩
  | rolePermissions hne =>
    obtain ⟨s, hs, hexec⟩ :=
      htables (P := fun t => t.rolePermissions = e.before.2.1.rolePermissions) rfl hne
    rcases s.rolePermissions_exec with hsame | hauthority | hauthority
    · exact absurd hsame hexec
    · exact ⟨_, by rw [hs]; exact hauthority, by simp⟩
    · exact ⟨_, by rw [hs]; exact hauthority, by simp⟩
  | permissions hne =>
    obtain ⟨s, hs, hexec⟩ :=
      htables (P := fun t => t.permissions = e.before.2.1.permissions) rfl hne
    rcases s.permissions_exec with hsame | hauthority
    · exact absurd hsame hexec
    · exact ⟨_, by rw [hs]; exact hauthority, fun p hp => hp⟩
  | roles hne =>
    obtain ⟨s, hs, hexec⟩ := htables (P := fun t => t.roles = e.before.2.1.roles) rfl hne
    rcases s.roles_exec with hsame | hauthority | hauthority
    · exact absurd hsame hexec
    · exact ⟨_, by rw [hs]; exact hauthority, by simp⟩
    · exact ⟨_, by rw [hs]; exact hauthority, by simp⟩
  | claim hne =>
    obtain ⟨s, hs, hexec⟩ := htables (P := fun t => t.claim = e.before.2.1.claim) rfl hne
    rcases s.claim_exec with hsame | hauthority
    · exact absurd hsame hexec
    · exact ⟨_, by rw [hs]; exact hauthority, fun p hp => hp⟩
  | clients hne =>
    rcases server_after e with hsame | ⟨e₀, -, hs, hbefore, hafter⟩
    · exact absurd (by rw [hsame]) hne
    · rw [hbefore, hafter] at hne
      rcases clients_change e₀ with hsame | heffect
      · exact absurd hsame hne
      · refine ⟨[Names.oidcClientsWrite], ?_, fun p hp => hp⟩
        show SoulAuth.authority e.stmt = _
        rw [hs]
        show e₀.stmt.effect.bind Effect.authority = _
        rw [heffect]
        rfl
  | actors hne husers =>
    rcases server_after e with hsame | ⟨e₀, -, hs, hbefore, hafter⟩
    · exact absurd (by rw [hsame]) hne
    · rw [hbefore, hafter] at hne husers
      have hbind : SoulAuth.authority e.stmt = e₀.stmt.effect.bind Effect.authority := by
        rw [hs]
        rfl
      rcases actors_change e₀ with hsame | hchanged | heffect | heffect
      · exact absurd hsame hne
      · -- a registration writes an actor too, but a user with it
        exact absurd husers hchanged
      · exact ⟨_, by rw [hbind, heffect]; rfl, fun p hp => hp⟩
      · exact ⟨_, by rw [hbind, heffect]; rfl, by simp⟩

/-! ## Runs -/

section

variable {w₀ : consoleTables.machine.State} {c : (console).Conf} {i : Nat}
  {e : Entry consoleTables.machine} {tr₁ tr₂ : List (Nat × Entry consoleTables.machine)}

/-- Before the statement of request number `i` that follows `tr`, the request
    has let its caller in and has found one of the permissions. -/
def Authorised (ttl : Option Nat) (c : (console).Conf) (i : Nat)
    (tr : List (Nat × Entry consoleTables.machine)) (ps : List Str) : Prop :=
  ∃ r bearer user, ∃ permission ∈ ps, c.reqOf i = some r ∧ r.bearer = some bearer ∧
    Recognised ttl i tr bearer user ∧
    FoundGrant (normalizeUserId user.key) permission (seenByRoles (entriesOf (S := console) i tr))

/-- Request number `i` is a bootstrap with the right token that has found no
    administrator, and its statement `e` after `tr` is on the claim or gives
    somebody a role that it has seen under the administrators' name. -/
def Bootstrapping (c : (console).Conf) (i : Nat) (tr : List (Nat × Entry consoleTables.machine))
    (e : Entry consoleTables.machine) : Prop :=
  (∃ cfg gate request ip, c.reqOf i = some (.bootstrap cfg gate request ip) ∧
    gate.verify request.token = true) ∧
  SawNone (seenByRoles (entriesOf (S := console) i tr)) ∧
  ∃ s, e.stmt = .inr (.inl s) ∧ (s.authority = some [] ∨
    ∃ row, s = .assign row ∧
      SawAdminRole row.roleId (seenByRoles (entriesOf (S := console) i tr)))

/-- A statement of a bootstrap that takes a permission. -/
theorem bootstrapping_of_isBootstrap {r : ConsoleCall} {ps : List Str}
    (hr : c.reqOf i = some r) (hauthority : authority e.stmt = some ps)
    (h : IsBootstrap r e.stmt (entriesOf (S := console) i tr₁)) : Bootstrapping c i tr₁ e := by
  obtain ⟨cfg, gate, request, ip, s, rfl, htoken, hs, hmay⟩ := h
  have hsome : s.authority = some ps := by
    rw [hs] at hauthority
    exact hauthority
  refine ⟨⟨cfg, gate, request, ip, hr, htoken⟩, ?_⟩
  cases s with
  | assign row => exact ⟨hmay.1, _, hs, .inr ⟨row, rfl, hmay.2⟩⟩
  | createClaim _ | readClaim | deleteClaim | markRolePending _ | finishClaim =>
    exact ⟨hmay, _, hs, .inl rfl⟩
  | _ => cases hsome.symm.trans hmay

/-- A statement that takes a permission is issued as the rule says. -/
theorem issued_by_rule (hc : Reachable w₀ c) (htr : c.trace = tr₁ ++ (i, e) :: tr₂)
    {ps : List Str} (hauthority : authority e.stmt = some ps) :
    (∃ r, c.reqOf i = some r ∧ FoundOneOf r ps (entriesOf (S := console) i tr₁)) ∨
      Bootstrapping c i tr₁ e := by
  obtain ⟨r, hr, hentry⟩ := (consoleConduct_holds hc).entries tr₁ i e tr₂ htr
  rcases hentry.authorised ps hauthority with hfound | hbootstrap
  · exact .inl ⟨r, hr, hfound⟩
  · exact .inr (bootstrapping_of_isBootstrap hr hauthority hbootstrap)

/-- **Whatever administrators change, they may change.** In any interleaving
    of requests, a statement that changes the roles, the permissions, their
    assignments, the OIDC clients, or the actors is issued by a request that
    has let its caller in and has found one of the permissions for it before,
    among those that the roles of its caller were granted; or by a bootstrap
    that has found no administrator. -/
theorem changes_authorised (hcache : w₀.2.2.entries = []) (hc : Reachable w₀ c)
    (htr : c.trace = tr₁ ++ (i, e) :: tr₂) {ps : List Str}
    (h : Changed e.before e.after ps) :
    Authorised w₀.2.2.ttl c i tr₁ ps ∨ Bootstrapping c i tr₁ e := by
  obtain ⟨ps', hauthority, hsub⟩ := h.authority
  rcases issued_by_rule hc htr hauthority with ⟨r, hr, hfound⟩ | hbootstrap
  · left
    obtain ⟨bearer, user, permission, hbearer, hmem, hheld⟩ := hfound
    exact ⟨r, bearer, user, permission, hsub permission hmem, hr, hbearer,
      authenticated_of_known hcache hc htr hheld.caller, hheld.found⟩
  · exact .inr hbootstrap

/-- No row of `user_role` is of a role that is granted one of these
    permissions. -/
def RoleTables.Unheld (t : RoleTables) (names : List Str) : Prop :=
  ∀ a ∈ t.userRoles, ∀ g ∈ t.rolePermissions, g.roleId = a.roleId →
    ∀ p ∈ t.permissions, p.key = g.permissionId → p.name ∉ names

/-- The permissions that let a request write the tables of roles. -/
def roleWrites : List Str := [Names.rolesWrite, Names.rolesDelete, Names.permissionsWrite]

/-- The bootstrap is closed: somebody has the administrators' role, or no
    request shows a token that its gate accepts. -/
def BootstrapClosed (t : RoleTables) (c : (console).Conf) : Prop :=
  (∃ a ∈ t.userRoles, a.roleId = adminRole) ∨
    ∀ j cfg gate request ip, c.reqOf j = some (.bootstrap cfg gate request ip) →
      gate.verify request.token = false

omit [Platform] in
/-- Tables that agree in every column. -/
theorem RoleTables.eq_of_tables {t t' : RoleTables} (hroles : t'.roles = t.roles)
    (hpermissions : t'.permissions = t.permissions) (huserRoles : t'.userRoles = t.userRoles)
    (hgrants : t'.rolePermissions = t.rolePermissions) (hclaim : t'.claim = t.claim) : t' = t := by
  obtain ⟨roles, permissions, userRoles, grants, claim⟩ := t
  obtain ⟨roles', permissions', userRoles', grants', claim'⟩ := t'
  obtain rfl : roles' = roles := hroles
  obtain rfl : permissions' = permissions := hpermissions
  obtain rfl : userRoles' = userRoles := huserRoles
  obtain rfl : grants' = grants := hgrants
  obtain rfl : claim' = claim := hclaim
  rfl

omit [Platform] in
theorem RoleTables.Unheld.not_grants {t : RoleTables} {names : List Str} (h : t.Unheld names)
    {users : List User} {userKey name : Str} (hname : name ∈ names) :
    ¬ t.Grants users userKey name := by
  intro hgrants
  obtain ⟨a, ha, g, hg, hrole, p, hp, hkey, rfl⟩ := hgrants
  exact h a (List.mem_of_mem_filter ha) g hg hrole p hp hkey hname

/-- Where nobody holds one of the permissions and the bootstrap is closed, no
    statement changes the tables while they are as at first. -/
theorem frozen_step (hw : w₀.2.1.Unheld roleWrites) (hc : Reachable w₀ c)
    (hclosed : BootstrapClosed w₀.2.1 c) (htr : c.trace = tr₁ ++ (i, e) :: tr₂)
    (hsame : ∀ x ∈ tr₁, x.2.before.2.1 = w₀.2.1) : e.after.2.1 = e.before.2.1 := by
  -- what the request has read were the first tables
  have hread : ∀ e₀ ∈ seenByRoles (entriesOf (S := console) i tr₁), e₀.before.2 = w₀.2.1 := by
    intro e₀ he₀
    obtain ⟨e', he', hbefore⟩ := mem_seenByRoles he₀
    rw [hbefore]
    exact hsame (i, e') (mem_entriesOf.mp he')
  have hnone : ∀ ps, Changed e.before e.after ps → (∀ p ∈ ps, p ∈ roleWrites) → False := by
    intro ps hchanged hsub
    obtain ⟨ps', hauthority, hps⟩ := hchanged.authority
    rcases issued_by_rule hc htr hauthority with ⟨r, -, hfound⟩ | hbootstrap
    · obtain ⟨bearer, user, permission, -, hmem, hheld⟩ := hfound
      obtain ⟨e₀, he₀, -, hgrants⟩ := hheld.found
      rw [hread e₀ he₀] at hgrants
      exact hw.not_grants (hsub permission (hps permission hmem)) hgrants
    · obtain ⟨⟨cfg, gate, request, ip, hreq, htoken⟩, ⟨e₀, he₀, -, hno⟩, -⟩ := hbootstrap
      rcases hclosed with ⟨a, ha, hadmin⟩ | hrefused
      · rw [hread e₀ he₀] at hno
        exact absurd hadmin (by simpa using List.any_eq_false.mp hno a ha)
      · rw [hrefused i cfg gate request ip hreq] at htoken
        cases htoken
  apply RoleTables.eq_of_tables
  · by_contra hne
    exact hnone _ (.roles hne) (by simp [roleWrites])
  · by_contra hne
    exact hnone _ (.permissions hne) (by simp [roleWrites])
  · by_contra hne
    exact hnone _ (.userRoles hne) (by simp [roleWrites])
  · by_contra hne
    exact hnone _ (.rolePermissions hne) (by simp [roleWrites])
  · by_contra hne
    exact hnone _ (.claim hne) (by simp)

/-- **No request obtains a first permission on roles.** Where nobody holds a
    permission to write the tables of roles and the bootstrap is closed, no
    interleaving of requests changes them: nobody ever will hold one. -/
theorem unheld_roles_frozen (hw : w₀.2.1.Unheld roleWrites) (hc : Reachable w₀ c)
    (hclosed : BootstrapClosed w₀.2.1 c) : c.state.2.1 = w₀.2.1 := by
  -- over every prefix of the run: a request may act on what it read long ago
  have hkept := hc.steps.accumulates (P := fun tr (w : consoleTables.machine.State) =>
    (∃ tr', c.trace = tr ++ tr') →
      w.2.1 = w₀.2.1 ∧ ∀ x ∈ tr, x.2.before.2.1 = w₀.2.1) ?_ ?_
  · exact (hkept ⟨[], by simp⟩).1
  · intro _
    simp
  · intro tr i e _ ih hprefix
    obtain ⟨tr', htr⟩ := hprefix
    have hat : c.trace = tr ++ (i, e) :: tr' := by
      rw [htr]
      simp
    obtain ⟨hbefore, hall⟩ := ih ⟨(i, e) :: tr', hat⟩
    constructor
    · rw [frozen_step hw hc hclosed hat hall, hbefore]
    · intro x hx
      rcases List.mem_append.mp hx with hx | hx
      · exact hall x hx
      · obtain rfl := List.mem_singleton.mp hx
        exact hbefore

theorem ConsoleCall.Entitled.imp {r : ConsoleCall} {letIn letIn' : Claims → User → Prop}
    {h : List (Entry roleTables.machine)} (hr : r.Entitled letIn h)
    (himp : ∀ bearer user, letIn bearer user → letIn' bearer user) : r.Entitled letIn' h := by
  cases r with
  | anyone _ | resetPassword _ _ _ | purgeExpired | adminLogin _ _ _ _ => trivial
  | bootstrap _ _ _ _ => exact hr
  | own _ bearer _ | checkPermission bearer _ | checkRole bearer _ =>
    obtain ⟨user, hin⟩ := hr
    exact ⟨user, himp _ _ hin⟩
  | manage _ bearer _ | roles bearer _ =>
    obtain ⟨user, hin, hfound⟩ := hr
    exact ⟨user, himp _ _ hin, hfound⟩
  | userRoles bearer _ | userPermissions bearer _ =>
    obtain ⟨user, hin, hwhy⟩ := hr
    exact ⟨user, himp _ _ hin, hwhy⟩

/-- **No answer without a permission.** A request that comes with a token is
    answered when it has let its caller in; a guarded one has found the
    permission that it asks for, and a listing of a user is answered to that
    user or to a caller that may read users. A bootstrap is answered when it
    had the right token and has found no administrator. -/
theorem answers_entitled (hcache : w₀.2.2.entries = []) (hc : Reachable w₀ c) {r : ConsoleCall}
    {reply : ConsoleReply} (hr : c.reqOf i = some r) (hreturned : c.Returned i (.ok reply)) :
    r.Entitled (Recognised w₀.2.2.ttl i c.trace)
      (seenByRoles (entriesOf (S := console) i c.trace)) := by
  obtain ⟨q, hq, hout⟩ := (consoleConduct_holds hc).returned hreturned
  obtain rfl : q = r := Option.some.inj (hq.symm.trans hr)
  have hentitled : HasEntitled q (entriesOf (S := console) i c.trace) := hout reply rfl
  apply ConsoleCall.Entitled.imp hentitled
  intro bearer user hknown
  have hwhole : c.trace = c.trace ++ [] := (List.append_nil _).symm
  exact authenticated_of_known hcache hc hwhole hknown

end

end SoulAuth

namespace SoulAuth.Sample

open Framework Framework.Prog Framework.System

/-- Alice is an administrator. -/
def administration : RoleTables :=
  { RoleTables.seeded with
    roles := RoleTables.seeded.roles ++ [editors]
    userRoles := [⟨aliceActor, adminRole, 0, "system".toList⟩] }

/-- `n` undisturbed statements of request `i`. -/
def consoleSteps (i n : Nat) : List (console).Action := List.replicate n (.step i Ctx.calm)

/-- The choices of the scheduler on a console with these tables and an empty
    cache, after Alice has registered. -/
def asked (t : RoleTables) (as : List (console).Action) : (console).Conf :=
  ((console).initial ((after prelude).state, (t, AuthCache.new 5))).run as

theorem asked_reachable (t : RoleTables) (as : List (console).Action) :
    Reachable ((after prelude).state, (t, AuthCache.new 5)) (asked t as) := ⟨as, rfl⟩

/-- Alice creates a role, deletes another one, for which the cache lets her in,
    and asks for the roles that she has. -/
def creation : List (console).Action :=
  .start (.roles aliceBearer (.createRole ⟨"writers".toList, "Writers".toList, none⟩
      "writers".toList)) :: consoleSteps 0 12 ++
    .start (.roles aliceBearer (.deleteRole "Editors".toList)) :: consoleSteps 1 14 ++
    .start (.userRoles aliceBearer alice) :: consoleSteps 2 12

/-- Entry number `n` is of request `i` and changes the roles. -/
def changesRolesAt (c : (console).Conf) (n i : Nat) : Bool :=
  match c.trace[n]? with
  | some (j, e) => j = i && decide (e.after.2.1.roles ≠ e.before.2.1.roles)
  | none => false

theorem changed_of_changesRolesAt {c : (console).Conf} {n i : Nat}
    (h : changesRolesAt c n i = true) :
    ∃ e, c.trace[n]? = some (i, e) ∧
      Changed e.before e.after [Names.rolesWrite, Names.rolesDelete] := by
  unfold changesRolesAt at h
  split at h
  · next j e he =>
    simp only [Bool.and_eq_true, decide_eq_true_eq] at h
    obtain ⟨rfl, hroles⟩ := h
    exact ⟨e, he, .roles hroles⟩
  · cases h

/-- The deletion, for which the cache has let Alice in. -/
theorem changes_authorised_alice :
    Authorised (some 5) (asked administration creation) 1
      ((asked administration creation).trace.take 20) [Names.rolesWrite, Names.rolesDelete] := by
  obtain ⟨e, he, hchanged⟩ :=
    changed_of_changesRolesAt (c := asked administration creation) (n := 20) (i := 1)
      (by decide +kernel)
  have hreq : (asked administration creation).reqOf 1 =
      some (.roles aliceBearer (.deleteRole "Editors".toList)) := by
    decide +kernel
  rcases changes_authorised rfl (asked_reachable administration creation) (split_at he)
    hchanged with hauthorised | hbootstrap
  · exact hauthorised
  · obtain ⟨⟨cfg, gate, request, ip, hboot, -⟩, -⟩ := hbootstrap
    cases hreq.symm.trans hboot

/-- As an editor Alice tries the same, and somebody tries the bootstrap, whose
    path is closed. -/
def attempts : List (console).Action :=
  creation ++ .start (.bootstrap config ⟨none⟩ firstAdmin "ip".toList) :: consoleSteps 3 4

/-- The requests of the attempts. -/
theorem attempts_requests : (asked editorial attempts).threads.map (fun t => t.req) =
    [.roles aliceBearer (.createRole ⟨"writers".toList, "Writers".toList, none⟩
        "writers".toList),
      .roles aliceBearer (.deleteRole "Editors".toList), .userRoles aliceBearer alice,
      .bootstrap config ⟨none⟩ firstAdmin "ip".toList] := by
  decide +kernel

theorem unheld_roles_frozen_alice :
    (asked editorial attempts).outcome 0 =
        some (.error (.auth (.missingPermission "soulauth:roles.write"))) ∧
      (asked editorial attempts).outcome 3 = some (.error (.auth bootstrapRejected)) ∧
      (asked editorial attempts).state.2.1 = editorial := by
  have hclosed : BootstrapClosed editorial (asked editorial attempts) := by
    right
    intro j cfg gate request ip hreq
    obtain ⟨t, ht, hr⟩ := Option.map_eq_some_iff.mp hreq
    have hmem := List.mem_map_of_mem (f := fun t : (console).Thread => t.req)
      (List.mem_of_getElem? ht)
    rw [attempts_requests, hr] at hmem
    simp only [List.mem_cons, List.not_mem_nil, or_false, reduceCtorEq, false_or] at hmem
    cases hmem
    rfl
  refine ⟨by decide +kernel, by decide +kernel, ?_⟩
  apply unheld_roles_frozen _ (asked_reachable editorial attempts) hclosed
  unfold RoleTables.Unheld
  decide

/-- What Alice is answered about herself. -/
def aliceRoles : List RoleWithPermissions :=
  [{ id := adminRole, name := adminRole, displayName := "系统管理员".toList
     description := some "拥有所有权限的系统管理员".toList
     permissions := RoleTables.seeded.permissions.map Permission.name
     assignedAt := 0 }]

theorem answers_entitled_alice :
    (ConsoleCall.userRoles aliceBearer alice).Entitled
      (Recognised (some 5) 2 (asked administration creation).trace)
      (seenByRoles (entriesOf (S := console) 2 (asked administration creation).trace)) := by
  have hanswer : (asked administration creation).outcome 2 =
      some (.ok (.userRoles alice aliceRoles)) := by
    decide +kernel
  have hreq : (asked administration creation).reqOf 2 =
      some (.userRoles aliceBearer alice) := by
    decide +kernel
  exact answers_entitled rfl (asked_reachable administration creation) hreq
    (Conf.returned_of_outcome hanswer)

end SoulAuth.Sample
