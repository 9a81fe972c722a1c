import SoulAuth.Proofs.Bootstrap
import SoulAuth.Proofs.CacheConduct
import SoulAuth.Proofs.RoleViews
import SoulAuth.Routes.Console

/-! # How requests to the console conduct themselves

A statement that changes what an administrator may change has an *authority*:
the permissions of which one lets a request issue it. Before a request issues
such a statement it has let its caller in, from the cache or from a live
session, and has found the permission among those that the caller's roles are
granted. The one exception is the bootstrap, which has looked for an
administrator and found none.
-/

namespace SoulAuth

open Framework Framework.Prog Framework.System

/-! ## Permissions in the tables -/

/-- A role of the user is granted a permission of this name. -/
def RoleTables.Grants (t : RoleTables) (users : List User) (userKey name : Str) : Prop :=
  ∃ a ∈ t.assignmentsOf users userKey, ∃ g ∈ t.rolePermissions, g.roleId = a.roleId ∧
    ∃ p ∈ t.permissions, p.key = g.permissionId ∧ p.name = name

/-- The query of `check_user_permission` finds nothing else. -/
theorem RoleTables.grants_of_count {t : RoleTables} {users : List User} {userKey name : Str}
    (h : isPositive ((RoleView.countPermission userKey name).eval users t) = true) :
    t.Grants users userKey name := by
  have hcount : isPositive (countAll (t.rolePermissions.filter fun g =>
      g.roleId ∈ (t.assignmentsOf users userKey).map UserRole.roleId &&
        g.permissionId ∈ (t.permissions.filter fun p => p.name = name).map Permission.key)) =
      true := h
  obtain ⟨g, hg⟩ := isPositive_countAll.mp hcount
  obtain ⟨hg, hboth⟩ := List.mem_filter.mp hg
  obtain ⟨hheld, hnamed⟩ := Bool.and_eq_true_iff.mp hboth
  obtain ⟨a, ha, hrole⟩ := List.mem_map.mp (of_decide_eq_true hheld)
  obtain ⟨p, hp, hkey⟩ := List.mem_map.mp (of_decide_eq_true hnamed)
  obtain ⟨hp, hname⟩ := List.mem_filter.mp hp
  exact ⟨a, ha, g, hg, hrole.symm, p, hp, hkey, of_decide_eq_true hname⟩

/-! ## Authority -/

/-- The permissions of which one lets an administrator have the effect, for the
    effects that are the administrators' own. -/
def Effect.authority : Effect → Option (List Str)
  | .writeClient => some [Names.oidcClientsWrite]
  | .createActor => some [Names.actorsWrite]
  | .setActorStatus => some [Names.usersWrite, Names.actorsWrite]
  | .setAccountStatus => some [Names.usersWrite]
  | _ => none

variable [Platform]

/-- The permissions of which one lets a request issue the statement. -/
def authority : consoleTables.machine.Stmt → Option (List Str)
  | .inl s => s.effect.bind Effect.authority
  | .inr (.inl s) => s.authority
  | .inr (.inr _) => none

/-- A statement of the server whose authority, if it has one, satisfies `G`. -/
def ServerObeys (G : List Str → Prop) (s : Stmt) : Prop :=
  ∀ ps, s.effect.bind Effect.authority = some ps → G ps

/-- The same for a program behind the cache. -/
def CacheObeys (G : List Str → Prop) : authCache.machine.Stmt → Prop
  | .inl s => ServerObeys G s
  | .inr _ => True

/-- The same for a program of the role service. -/
def RoleObeys (G : List Str → Prop) : roleTables.machine.Stmt → Prop
  | .inl s => ServerObeys G s
  | .inr s => ∀ ps, s.authority = some ps → G ps

/-- No statement takes a permission. -/
abbrev Nothing : List Str → Prop := fun _ => False

section

variable {ε α β : Type} {G : List Str → Prop} {L : List Effect}

omit [Platform] in
theorem serverObeys_of_within {s : Stmt} (hs : s.Within L)
    (hL : ∀ x ∈ L, ∀ ps, x.authority = some ps → G ps) : ServerObeys G s := by
  intro ps hps
  obtain ⟨x, hx, hauthority⟩ := Option.bind_eq_some_iff.mp hps
  exact hL x (hs x hx) ps hauthority

/-- A part of the server's programs behind the cache. -/
theorem cached_lift {p : Req ε α} (hp : Within L p)
    (hL : ∀ x ∈ L, ∀ ps, x.authority = some ps → G ps) :
    (p.lift authCache).Only (CacheObeys G) := by
  apply Only.lift hp
  intro s hs
  exact serverObeys_of_within hs hL

theorem cached_reads {p : Req ε α} (hp : Within [] p) : (p.lift authCache).Only (CacheObeys G) := by
  apply cached_lift hp
  intro x hx
  cases hx

theorem cached_call {s : CacheStmt} : (withCache s : CacheReq ε s.Reply).Only (CacheObeys G) :=
  ⟨trivial, fun _ => trivial⟩

/-- A program of the role service. -/
theorem RoleProgram.obeys {p : RoleReq AuthError α} {S : RoleStmt → Prop} (hp : RoleProgram S p)
    (hS : ∀ s, S s → ∀ ps, s.authority = some ps → G ps) : p.Only (RoleObeys G) := by
  apply hp.only.mono
  intro s hs
  obtain s | s := s
  · intro ps hps
    have hnone : s.effect = none := hs
    rw [hnone] at hps
    cases hps
  · exact hS s hs

theorem RoleProgram.obeys_free {p : RoleReq AuthError α} (hp : RoleProgram RoleStmt.Free p) :
    p.Only (RoleObeys G) := by
  apply hp.obeys
  intro s hs ps hps
  cases (show s.authority = none from hs).symm.trans hps

/-- A login takes no permission. -/
theorem roleObeys_of_login {s : roleTables.machine.Stmt} (hs : LoginStmt s) : RoleObeys G s := by
  obtain s | s := s
  · exact serverObeys_of_within hs (by simp [Effect.authority])
  · intro ps hps
    cases (show s.authority = none from hs).symm.trans hps

end

/-! ## What a request has found -/

/-- The statements that the cache and the server see. -/
def seenByCache (h : List (Entry consoleTables.machine)) : List (Entry authCache.machine) :=
  (Widening.right (X := roleTables)).seen h

/-- The statements that the role service and the server see. -/
def seenByRoles (h : List (Entry consoleTables.machine)) : List (Entry roleTables.machine) :=
  (Widening.left (Y := authCache)).seen h

/-- The request has looked for the permission, and the user had it. -/
def FoundGrant (userKey permission : Str) (h : List (Entry roleTables.machine)) : Prop :=
  ∃ e ∈ h, e.stmt = .inr (.view (.countPermission userKey permission)) ∧
    e.before.2.Grants e.before.1.db.users userKey permission

/-- The request has let its caller in and has found the permission. -/
structure Held (bearer : Claims) (user : User) (permission : Str)
    (h : List (Entry consoleTables.machine)) : Prop where
  caller : Known bearer user (seenByCache h)
  found : FoundGrant (normalizeUserId user.key) permission (seenByRoles h)

section

variable {h : List (Entry consoleTables.machine)} {bearer : Claims} {user : User}
  {userKey permission : Str}

theorem seenByCache_append (h t : List (Entry consoleTables.machine)) :
    seenByCache (h ++ t) = seenByCache h ++ seenByCache t :=
  Widening.seen_append h t

theorem seenByRoles_append (h t : List (Entry consoleTables.machine)) :
    seenByRoles (h ++ t) = seenByRoles h ++ seenByRoles t :=
  Widening.seen_append h t

theorem known_mono (hk : Known bearer user (seenByCache h))
    (t : List (Entry consoleTables.machine)) : Known bearer user (seenByCache (h ++ t)) := by
  rw [seenByCache_append]
  exact hk.mono _

theorem FoundGrant.mono {h : List (Entry roleTables.machine)} (hf : FoundGrant userKey permission h)
    (t : List (Entry roleTables.machine)) : FoundGrant userKey permission (h ++ t) := by
  obtain ⟨e, he, hfound⟩ := hf
  exact ⟨e, List.mem_append_left t he, hfound⟩

theorem Held.mono (hh : Held bearer user permission h) (t : List (Entry consoleTables.machine)) :
    Held bearer user permission (h ++ t) := by
  constructor
  · exact known_mono hh.caller t
  · rw [seenByRoles_append]
    exact hh.found.mono _

/-- What the role service sees, the console has executed. -/
theorem mem_seenByRoles {e₀ : Entry roleTables.machine} (he : e₀ ∈ seenByRoles h) :
    ∃ e ∈ h, e₀.before = (e.before.1, e.before.2.1) := by
  obtain ⟨e, he, hnarrow⟩ := Widening.mem_seen he
  exact ⟨e, he, Widening.before_of_narrow hnarrow⟩

end

/-! ## The bootstrap -/

/-- The request has seen a role of this key under the administrators' name. -/
def SawAdminRole (key : Str) (h : List (Entry roleTables.machine)) : Prop :=
  ∃ e ∈ h, ∃ role ∈ e.before.2.roles, role.name = adminRole ∧ role.key = key

/-- When a bootstrap may issue a statement on the tables of roles. -/
def MayBootstrap (h : List (Entry roleTables.machine)) : RoleStmt → Prop
  | .assign row => SawNone h ∧ SawAdminRole row.roleId h
  | .createClaim _ | .readClaim | .deleteClaim | .markRolePending _ | .finishClaim => SawNone h
  | s => s.authority = none

/-- The rule of entries of the bootstrap. -/
def BootstrapConduct (h : List (Entry roleTables.machine)) (e : Entry roleTables.machine) :
    Prop :=
  match e.stmt with
  | .inl s => ServerObeys Nothing s
  | .inr s => MayBootstrap h s

section

variable {h : List (Entry roleTables.machine)} {α : Type}

theorem SawNone.mono (hn : SawNone h) (t : List (Entry roleTables.machine)) :
    SawNone (h ++ t) := by
  obtain ⟨e, he, hnone⟩ := hn
  exact ⟨e, List.mem_append_left t he, hnone⟩

theorem SawAdminRole.mono {key : Str} (hk : SawAdminRole key h)
    (t : List (Entry roleTables.machine)) : SawAdminRole key (h ++ t) := by
  obtain ⟨e, he, hrole⟩ := hk
  exact ⟨e, List.mem_append_left t he, hrole⟩

/-- A statement on the claim, or one that takes no permission. -/
def OnClaim : roleTables.machine.Stmt → Prop
  | .inl s => ServerObeys Nothing s
  | .inr s => s.authority = none ∨ s.authority = some []

theorem bootstrapConduct_of_onClaim (hn : SawNone h) {e : Entry roleTables.machine}
    (he : OnClaim e.stmt) : BootstrapConduct h e := by
  obtain ⟨ctx, s | s, w⟩ := e
  · exact he
  · show MayBootstrap h s
    have hs : s.authority = none ∨ s.authority = some [] := he
    cases s with
    | createClaim _ | readClaim | deleteClaim | markRolePending _ | finishClaim => exact hn
    | adminExists | roleByName _ | isAssigned _ _ | view _ => rfl
    | assign _ | unassign _ _ | createRole _ | updateRole _ _ _ _ | grant _ | revoke _ _
    | createPermission _ | deleteGrants _ | deleteRole _ => simp [RoleStmt.authority] at hs

theorem onClaim_of_free (s : roleTables.machine.Stmt) (hs : RoleProgramStmt RoleStmt.Free s) :
    OnClaim s := by
  obtain s | s := s
  · intro ps hps
    have hnone : s.effect = none := hs
    rw [hnone] at hps
    cases hps
  · exact .inl hs

/-- After the look for an administrator the claim may be touched. -/
theorem meets_onClaim {p : RoleReq AuthError α} (hn : SawNone h) (hp : p.Only OnClaim) :
    p.Meets (fun _ => True) BootstrapConduct (fun _ _ => True) h := by
  apply Only.meets hp
  · intro t e _ he
    exact bootstrapConduct_of_onClaim (hn.mono t) he
  · intro t r _
    trivial

theorem claimBootstrap_onClaim {email : Str} : (claimBootstrap email).Only OnClaim := by
  apply Only.bind (Only.attempt (only_roleQuery (.inr rfl)))
  intro created
  cases created with
  | ok _ => trivial
  | error x =>
    apply Only.bind (only_roleQuery (.inr rfl))
    intro found
    apply Only.bind only_orThrow
    intro row
    apply Only.bind only_orThrow
    intro userId
    trivial

theorem bootstrapAccount_onClaim {cfg : Config} {request : BootstrapAdminRequest} {ip : Str}
    {claim : Claim} : (bootstrapAccount cfg request ip claim).Only OnClaim := by
  have hregister : ((register cfg ⟨request.email, some request.username, request.password⟩
      ip).attempt.lift roleTables : RoleReq AuthError _).Only OnClaim := by
    apply Only.lift (Only.attempt (register_within
      (L := [.createHuman, .updateUser, .createSession]) (by simp) (by simp) (by simp)))
    intro s hs
    exact serverObeys_of_within (G := Nothing) hs (by simp [Effect.authority])
  cases claim with
  | resumed userId => trivial
  | fresh =>
    apply Only.bind hregister
    intro registered
    cases registered with
    | ok response => exact Only.bind (Only.swallow (only_roleQuery (.inr rfl))) fun _ => trivial
    | error x => exact Only.bind (Only.swallow (only_roleQuery (.inr rfl))) fun _ => trivial

/-- What a bootstrap gives is the role of the administrators. -/
theorem assignRole_conduct {userId assignedBy : Str} (hn : SawNone h) :
    (assignRole userId adminRole assignedBy).Meets (fun _ => True) BootstrapConduct
      (fun _ _ => True) h := by
  unfold assignRole findRole
  simp only [bind_assoc]
  apply meets_roleQuery_bind
  · intro ctx w
    rfl
  · intro ctx w found hfound
    apply Prog.meets_bind.mpr
    rw [Prog.meets_orThrow]
    refine ⟨fun role hrole => ?_, fun _ => trivial⟩
    subst hrole
    have hexec : (w.2.roles.find? fun r => r.name = adminRole) = some role := by
      obtain ⟨elapsed, _ | _ | _ | _⟩ := ctx
      · exact Except.ok.inj hfound
      · cases hfound
      · cases hfound
      · cases hfound
    have hname := List.find?_some hexec
    have hsaw : SawAdminRole role.key (h ++ [⟨ctx, .inr (.roleByName adminRole), w⟩]) :=
      ⟨_, List.mem_append_right h (List.mem_singleton_self _), role,
        List.mem_of_find?_eq_some hexec, of_decide_eq_true hname, rfl⟩
    -- what comes before the write takes no permission
    apply Prog.Meets.bind (meets_onClaim (hn.mono _) ((RoleProgram.actor (S := RoleStmt.Free)
      userId).only.mono onClaim_of_free))
    · intro t₁ actorKey _
      apply Prog.Meets.bind (meets_onClaim ((hn.mono _).mono _) (only_roleQuery (.inl rfl)))
      · intro t₂ assigned _
        apply Prog.meets_bind.mpr
        rw [Prog.meets_ensure]
        refine ⟨fun _ => ?_, fun _ => trivial⟩
        apply Prog.Meets.bind (meets_onClaim (((hn.mono _).mono _).mono _)
          ((RoleProgram.now (S := RoleStmt.Free)).only.mono onClaim_of_free))
        · intro t₃ now _
          apply meets_roleQuery
          · intro ctx' w'
            exact ⟨(((hn.mono _).mono _).mono _).mono _, ((hsaw.mono _).mono _).mono _⟩
          · intro _ _ _ _
            trivial
          · intro _ _ _ _
            trivial
        · intro _ _ _
          trivial
      · intro _ _ _
        trivial
    · intro _ _ _
      trivial
  · intro _ _ _ _
    trivial

/-- A statement of a bootstrap: it takes no permission, or the token was the
    right one. -/
def BootstrapsWith (gate : BootstrapGate) (request : BootstrapAdminRequest)
    (h : List (Entry roleTables.machine)) (e : Entry roleTables.machine) : Prop :=
  RoleObeys Nothing e.stmt ∨ gate.verify request.token = true ∧ BootstrapConduct h e

/-- **The bootstrap.** It looks for an administrator, and then at the token,
    before it does anything else. -/
theorem bootstrapAdmin_conduct {cfg : Config} {gate : BootstrapGate}
    {request : BootstrapAdminRequest} {ip : Str} :
    (bootstrapAdmin cfg gate request ip).Meets (fun _ => True) (BootstrapsWith gate request)
      (fun h' r => ∀ userId, r = .ok userId → gate.verify request.token = true ∧ SawNone h')
      h := by
  apply meets_roleQuery_bind
  · intro ctx w
    exact .inl nofun
  · intro ctx w initialised hinit
    apply Prog.meets_bind.mpr
    rw [Prog.meets_ensure]
    refine ⟨fun hnone => ?_, nofun⟩
    apply Prog.meets_bind.mpr
    rw [Prog.meets_ensure]
    refine ⟨fun htoken => ?_, nofun⟩
    have hsaw : SawNone (h ++ [⟨ctx, .inr .adminExists, w⟩]) :=
      ⟨_, List.mem_append_right h (List.mem_singleton_self _), rfl,
        (run_adminExists hinit).trans hnone⟩
    -- the rest of the request has the right token
    have hrest : (do
        let claim ← claimBootstrap request.email
        let userId ← bootstrapAccount cfg request ip claim
        assignRoleAsSystem userId adminRole
        (roleQuery .finishClaim).swallow
        return userId : RoleReq AuthError Str).Meets (fun _ => True) BootstrapConduct
          (fun _ _ => True) (h ++ [⟨ctx, .inr .adminExists, w⟩]) := by
      apply Prog.Meets.bind (meets_onClaim hsaw claimBootstrap_onClaim) _ fun _ _ _ => trivial
      intro t₁ claim _
      apply Prog.Meets.bind (meets_onClaim (hsaw.mono t₁) bootstrapAccount_onClaim) _
        fun _ _ _ => trivial
      intro t₂ userId _
      have hlate := (hsaw.mono t₁).mono t₂
      apply Prog.Meets.bind (assignRole_conduct hlate) _ fun _ _ _ => trivial
      intro t₃ _ _
      apply meets_roleQuery_swallow_bind
      · intro ctx' w'
        exact hlate.mono t₃
      · intro ctx' w'
        trivial
    apply hrest.weaken (fun _ hw => hw)
    · intro t e _ he
      exact .inr ⟨htoken, he⟩
    · intro t r _ userId _
      exact ⟨htoken, hsaw.mono t⟩
  · intro ctx w x _
    nofun

end

/-! ## The programs behind the cache -/

section

variable {G : List Str → Prop} {bearer : Claims}

theorem cachedAuthedUser_obeys : (Cached.authedUser bearer).Only (CacheObeys G) := by
  apply Only.bind cached_call
  intro hit
  cases hit with
  | some user => exact cached_reads authedUserCached_within
  | none =>
    apply Only.bind (cached_reads authedUser_within)
    intro user
    apply Only.bind cached_call
    intro _
    trivial

/-- An endpoint of the server. -/
theorem endpoint_obeys {call : Call}
    (hG : ∀ x ∈ call.endpoint.effects, ∀ ps, x.authority = some ps → G ps) :
    (call.program.lift authCache).Only (CacheObeys G) :=
  cached_lift (Call.within call) hG

/-- Sessions and tokens are no business of the administrators. -/
theorem revocation_obeys {ε α : Type} {p : Req ε α}
    (hp : Within [.deleteSession, .deleteAccess, .deleteRefresh] p) :
    (p.lift authCache).Only (CacheObeys G) := by
  apply cached_lift hp
  simp [Effect.authority]

theorem cachedLogout_obeys : (Cached.logoutRoute bearer).Only (CacheObeys G) := by
  apply Only.bind
  · apply Only.bind (revocation_obeys (deleteSessionByToken_within (by simp)))
    intro _
    exact cached_call
  · intro _
    exact cached_call

theorem cachedLogoutAll_obeys {user : User} :
    (Cached.logoutAllRoute user).Only (CacheObeys G) := by
  apply Only.bind
  · apply Only.bind (revocation_obeys (deleteSessionsByUserId_within (by simp)))
    intro _
    exact cached_call
  · intro _
    apply Only.bind cached_call
    intro _
    exact revocation_obeys (.mapError (revokeAllTokensForUser_within (by simp) (by simp)))

theorem cachedReset_obeys {cfg : Config} {token newPassword : Str} :
    (Cached.resetPasswordRoute cfg token newPassword).Only (CacheObeys G) := by
  have hreset : ((resetPassword cfg token newPassword).lift authCache).Only (CacheObeys G) := by
    apply cached_lift (resetPassword_within
      (L := [.spendResetToken, .writeCredential, .updateUser, .deleteSession])
      (by simp) (by simp) (by simp) (by simp))
    simp [Effect.authority]
  apply Only.bind
  · apply Only.bind hreset
    intro userId
    apply Only.bind cached_call
    intro _
    trivial
  · intro userId
    exact revocation_obeys (.mapError (revokeAllTokensForUser_within (by simp) (by simp)))

/-- What a change of a status takes is `users.write`. -/
theorem cachedStatus_obeys {userId : Str} {status : AccountStatus} :
    (Cached.updateUserAccountStatus userId status).Only
      (CacheObeys fun ps => Names.usersWrite ∈ ps) := by
  have hupdate : ((updateAccountStatus userId status).lift authCache).Only
      (CacheObeys fun ps => Names.usersWrite ∈ ps) := by
    apply cached_lift (updateAccountStatus_within
      (L := [.setAccountStatus, .setActorStatus, .writeCredential]) (by simp) (by simp) (by simp))
    simp [Effect.authority]
  apply Only.bind hupdate
  intro _
  apply Only.bind cached_call
  intro _
  -- only a status that bars the user revokes what it holds
  by_cases hactive : status = .active
  · rw [if_pos hactive]
    trivial
  · rw [if_neg hactive]
    apply Only.bind (revocation_obeys (.swallow (deleteSessionsByUserId_within (by simp))))
    intro _
    exact revocation_obeys (.swallow (revokeAllTokensForUser_within (by simp) (by simp)))

/-- A user needs no permission for what it does for itself. -/
theorem OwnAction.obeys (action : OwnAction) (cfg : Config) {user : User} :
    ((action.action cfg).run bearer user).Only (CacheObeys G) := by
  cases action with
  | currentUser =>
    exact Only.bind (Only.mapError (cached_reads currentUserResponse_within)) fun _ => trivial
  | logout => exact Only.bind (Only.mapError cachedLogout_obeys) fun _ => trivial
  | logoutAll => exact Only.bind (Only.mapError cachedLogoutAll_obeys) fun _ => trivial
  | initializePassword password =>
    exact endpoint_obeys (by simp [Endpoint.effects, Effect.authority])
  | mfaSetup => exact endpoint_obeys (by simp [Endpoint.effects, Effect.authority])
  | mfaEnable code => exact endpoint_obeys (by simp [Endpoint.effects, Effect.authority])
  | mfaDisable code => exact endpoint_obeys (by simp [Endpoint.effects, Effect.authority])

/-- An endpoint of the administrators issues nothing for which the permission
    that it asks for is not enough. -/
theorem Management.obeys (op : Management) (cfg : Config) (operator : Str) {user : User} :
    ((op.action cfg operator).run bearer user).Only
      (CacheObeys fun ps => op.permission ∈ ps) := by
  cases op with
  | updateAccountStatus userId status =>
    exact Only.bind (Only.mapError cachedStatus_obeys) fun _ => trivial
  | _ => exact endpoint_obeys (by simp [permission, Endpoint.effects, Effect.authority])

/-- Whoever is not let in issues nothing that takes a permission. -/
theorem PublicCall.obeys (r : PublicCall) :
    (r.call.program.lift authCache).Only (CacheObeys G) := by
  obtain ⟨⟨cfg, endpoint⟩, hpublic⟩ := r
  apply endpoint_obeys
  have hpublic' : endpoint.isPublic = true := hpublic
  cases endpoint <;> simp_all [Endpoint.isPublic, Endpoint.effects, Effect.authority]

end

/-! ## The rule -/

/-- The token that a request comes with. -/
def ConsoleCall.bearer : ConsoleCall → Option Claims
  | own _ bearer _ | manage _ bearer _ | roles bearer _ | userRoles bearer _
  | userPermissions bearer _ | checkPermission bearer _ | checkRole bearer _ => some bearer
  | anyone _ | resetPassword _ _ _ | purgeExpired | adminLogin _ _ _ _ | bootstrap _ _ _ _ => none

/-- The request has found one of the permissions. -/
def FoundOneOf (r : ConsoleCall) (ps : List Str) (h : List (Entry consoleTables.machine)) : Prop :=
  ∃ bearer user permission, r.bearer = some bearer ∧ permission ∈ ps ∧
    Held bearer user permission h

/-- The request is a bootstrap with the right token, and may issue the
    statement as such. -/
def IsBootstrap (r : ConsoleCall) (s : consoleTables.machine.Stmt)
    (h : List (Entry consoleTables.machine)) : Prop :=
  ∃ cfg gate request ip s', r = .bootstrap cfg gate request ip ∧
    gate.verify request.token = true ∧ s = .inr (.inl s') ∧ MayBootstrap (seenByRoles h) s'

/-- The rule of entries. -/
structure ConsoleConduct (r : ConsoleCall) (h : List (Entry consoleTables.machine))
    (e : Entry consoleTables.machine) : Prop where
  authorised : ∀ ps, authority e.stmt = some ps → FoundOneOf r ps h ∨ IsBootstrap r e.stmt h
  /-- Whom the request puts into the cache, it has loaded. -/
  fills : ∀ token userId user, e.stmt = .inr (.inr (.insert token userId user)) →
    userId = user.key ∧ Loaded token user (baseEntries h)

/-- What a request has found out before it answers, when `letIn` says whom it
    has let in. -/
def ConsoleCall.Entitled (letIn : Claims → User → Prop) (h : List (Entry roleTables.machine)) :
    ConsoleCall → Prop
  | anyone _ | resetPassword _ _ _ | purgeExpired | adminLogin _ _ _ _ => True
  | bootstrap _ gate request _ => gate.verify request.token = true ∧ SawNone h
  | own _ bearer _ | checkPermission bearer _ | checkRole bearer _ => ∃ user, letIn bearer user
  | manage _ bearer op => ∃ user, letIn bearer user ∧
    FoundGrant (normalizeUserId user.key) op.permission h
  | roles bearer op => ∃ user, letIn bearer user ∧
    FoundGrant (normalizeUserId user.key) op.permission h
  | userRoles bearer userId | userPermissions bearer userId => ∃ user, letIn bearer user ∧
    (user.key = normalizeUserId userId ∨
      FoundGrant (normalizeUserId user.key) Names.usersRead h)

/-- The request has found out what entitles it to its answer. -/
def HasEntitled (r : ConsoleCall) (h : List (Entry consoleTables.machine)) : Prop :=
  r.Entitled (fun bearer user => Known bearer user (seenByCache h)) (seenByRoles h)

/-- The rule of the console. -/
def consoleConduct : Rule console where
  assumes _ := True
  entry := ConsoleConduct
  outcome r h out := ∀ reply, out = .ok reply → HasEntitled r h

/-! ### Parts of a request -/

section

variable {r : ConsoleCall} {h : List (Entry consoleTables.machine)} {ε α : Type}
  {G : List Str → Prop} {bearer : Claims} {user : User} {userId permission : Str}
  {Q : List (Entry consoleTables.machine) → Except ε α → Prop}

/-- What takes no permission needs none to be found. -/
theorem foundOneOf_of_nothing (t : List (Entry consoleTables.machine)) (ps : List Str)
    (hG : Nothing ps) : FoundOneOf r ps (h ++ t) :=
  hG.elim

/-- A program behind the cache. -/
theorem meets_ofCache {q : CachedCall} {p : CacheReq ε α}
    {Q₀ : List (Entry authCache.machine) → Except ε α → Prop}
    (hp : p.Meets (fun _ => True) (CacheConduct q) Q₀ (seenByCache h))
    (hobeys : p.Only (CacheObeys G)) (hG : ∀ t ps, G ps → FoundOneOf r ps (h ++ t))
    (hQ : ∀ t x, Q₀ (seenByCache (h ++ t)) x → Q (h ++ t) x) :
    (ofCache p).Meets (fun _ => True) (ConsoleConduct r) Q h := by
  apply (hp.only hobeys).widen _ hQ
  intro t e e₀ hnarrow he
  obtain ⟨hconduct, hauthority⟩ := he
  obtain ⟨ctx, s | s | s, w⟩ := e
  · cases hnarrow
    constructor
    · intro ps hps
      exact .inl (hG t ps (hauthority ps hps))
    · intro token userId user hs
      cases hs
  · cases hnarrow
  · cases hnarrow
    constructor
    · intro ps hps
      cases hps
    · intro token userId user hs
      cases hs
      -- a user is kept in the cache only after it was loaded
      obtain ⟨hkey, hloaded⟩ := hconduct.inserts _ _ _ rfl
      rw [Widening.baseEntries_seen] at hloaded
      exact ⟨hkey, hloaded⟩

/-- A program of the role service whose statements all obey. -/
theorem obeying_meets {p : RoleReq ε α} (hp : p.Only (RoleObeys G))
    {h : List (Entry roleTables.machine)} :
    p.Meets (fun _ => True) (fun _ e => RoleObeys G e.stmt) (fun _ _ => True) h := by
  apply Only.meets hp
  · intro t e _ he
    exact he
  · intro t x _
    trivial

/-- A program of the role service. -/
theorem meets_ofRoles {p : RoleReq ε α}
    {E₀ : List (Entry roleTables.machine) → Entry roleTables.machine → Prop}
    {Q₀ : List (Entry roleTables.machine) → Except ε α → Prop}
    (hp : p.Meets (fun _ => True) E₀ Q₀ (seenByRoles h))
    (hbase : ∀ t ctx s w, E₀ (seenByRoles (h ++ t)) ⟨ctx, .inl s, w⟩ →
      ServerObeys (fun ps => FoundOneOf r ps (h ++ t)) s)
    (hroles : ∀ t ctx s w, E₀ (seenByRoles (h ++ t)) ⟨ctx, .inr s, w⟩ → ∀ ps,
      s.authority = some ps → FoundOneOf r ps (h ++ t) ∨ IsBootstrap r (.inr (.inl s)) (h ++ t))
    (hQ : ∀ t x, Q₀ (seenByRoles (h ++ t)) x → Q (h ++ t) x) :
    (ofRoles p).Meets (fun _ => True) (ConsoleConduct r) Q h := by
  apply hp.widen _ hQ
  intro t e e₀ hnarrow he
  obtain ⟨ctx, s | s | s, w⟩ := e
  · cases hnarrow
    constructor
    · intro ps hps
      exact .inl (hbase t _ _ _ he ps hps)
    · intro token userId user hs
      cases hs
  · cases hnarrow
    constructor
    · intro ps hps
      exact hroles t _ _ _ he ps hps
    · intro token userId user hs
      cases hs
  · cases hnarrow

/-- The same, when the permissions of its statements are known. -/
theorem meets_ofRoles_obeying {p : RoleReq ε α}
    {Q₀ : List (Entry roleTables.machine) → Except ε α → Prop}
    (hp : p.Meets (fun _ => True) (fun _ e => RoleObeys G e.stmt) Q₀ (seenByRoles h))
    (hG : ∀ t ps, G ps → FoundOneOf r ps (h ++ t))
    (hQ : ∀ t x, Q₀ (seenByRoles (h ++ t)) x → Q (h ++ t) x) :
    (ofRoles p).Meets (fun _ => True) (ConsoleConduct r) Q h := by
  apply meets_ofRoles hp
  · intro t ctx s w he ps hps
    exact hG t ps (he ps hps)
  · intro t ctx s w he ps hps
    exact .inl (hG t ps (he ps hps))
  · exact hQ

/-- The caller is let in. -/
theorem meets_caller :
    (ofCache (Cached.authedUser bearer)).Meets (fun _ => True) (ConsoleConduct r)
      (fun h' x => ∀ user, x = .ok user → Known bearer user (seenByCache h')) h := by
  apply meets_ofCache (q := .authed bearer .currentUser) cachedAuthedUser_meets
    cachedAuthedUser_obeys foundOneOf_of_nothing
  intro t x hx user hok
  subst hok
  exact hx

/-- The look-up of a permission. -/
theorem checkUserPermission_meets {h : List (Entry roleTables.machine)} :
    (checkUserPermission userId permission).Meets (fun _ => True)
      (fun _ e => RoleObeys Nothing e.stmt)
      (fun h' x => x = .ok true → FoundGrant (normalizeUserId userId) permission h') h := by
  apply meets_roleQuery_bind
  · intro ctx w
    exact nofun
  · intro ctx w count hcount hpositive
    have heval : (RoleView.countPermission (normalizeUserId userId) permission).eval
        w.1.db.users w.2 = count := by
      -- a query that fails answers no count
      obtain ⟨elapsed, _ | _ | _ | _⟩ := ctx
      · exact Except.ok.inj hcount
      · cases hcount
      · cases hcount
      · cases hcount
    refine ⟨_, List.mem_append_right h (List.mem_singleton_self _), rfl, ?_⟩
    apply RoleTables.grants_of_count
    rw [heval]
    exact Except.ok.inj hpositive
  · intro ctx w x _
    nofun

/-- Both gates of a permission, which differ in what a failed look-up means. -/
theorem gate_meets {h : List (Entry roleTables.machine)}
    {f : Except AuthError Bool → RoleReq AuthError Unit}
    (hf : ∀ out, f out = .done (.ok ()) ∧ out = .ok true ∨ ∃ x, f out = .done (.error x)) :
    ((checkUserPermission userId permission).attempt >>= f).Meets (fun _ => True)
      (fun _ e => RoleObeys Nothing e.stmt)
      (fun h' x => ∀ u, x = .ok u → FoundGrant (normalizeUserId userId) permission h') h := by
  apply Prog.Meets.bind (P := fun h' x => x = .ok (.ok true) →
    FoundGrant (normalizeUserId userId) permission h')
  · apply checkUserPermission_meets.attempt
    intro t x hx hok
    exact hx (Except.ok.inj hok)
  · intro t out hout
    rcases hf out with ⟨hpass, htrue⟩ | ⟨x, hstop⟩
    · rw [hpass]
      intro u _
      exact hout (congrArg _ htrue)
    · rw [hstop]
      intro u hu
      cases hu
  · intro t x _ u hu
    cases hu

theorem requirePermission_meets {h : List (Entry roleTables.machine)} :
    (requirePermission userId permission).Meets (fun _ => True)
      (fun _ e => RoleObeys Nothing e.stmt)
      (fun h' x => ∀ u, x = .ok u → FoundGrant (normalizeUserId userId) permission h') h := by
  apply gate_meets
  intro out
  rcases out with x | _ | _
  · exact .inr ⟨_, rfl⟩
  · exact .inr ⟨_, rfl⟩
  · exact .inl ⟨rfl, rfl⟩

theorem requireUsersRead_meets {h : List (Entry roleTables.machine)} :
    (requireUsersRead userId).Meets (fun _ => True) (fun _ e => RoleObeys Nothing e.stmt)
      (fun h' x => ∀ u, x = .ok u → FoundGrant (normalizeUserId userId) Names.usersRead h')
      h := by
  apply gate_meets
  intro out
  -- a failed look-up counts as no permission
  rcases out with x | _ | _
  · exact .inr ⟨_, rfl⟩
  · exact .inr ⟨_, rfl⟩
  · exact .inl ⟨rfl, rfl⟩

/-- The gate of the endpoints behind a permission. -/
theorem permitted_meets :
    (permitted bearer permission).Meets (fun _ => True) (ConsoleConduct r)
      (fun h' x => ∀ user, x = .ok user → Held bearer user permission h') h := by
  apply Prog.Meets.bind meets_caller
  · intro t user hknown
    apply Prog.Meets.bind (P := fun h' x => ∀ u, x = .ok u →
      Held bearer user permission h')
    · apply meets_ofRoles_obeying requirePermission_meets foundOneOf_of_nothing
      intro t' x hfound u hu
      exact ⟨known_mono (hknown user rfl) t', hfound u hu⟩
    · intro t' _ hheld user' hok
      cases hok
      exact hheld _ rfl
    · intro t' x _ user' hok
      cases hok
  · intro t x _ user hok
    cases hok

/-- The gate of the two listings. -/
theorem permittedOrSelf_meets :
    (permittedOrSelf bearer userId).Meets (fun _ => True) (ConsoleConduct r)
      (fun h' x => ∀ u, x = .ok u → ∃ user, Known bearer user (seenByCache h') ∧
        (user.key = userId ∨
          FoundGrant (normalizeUserId user.key) Names.usersRead (seenByRoles h'))) h := by
  apply Prog.Meets.bind meets_caller
  · intro t user hknown
    by_cases hself : user.key = userId
    · -- who looks at itself is asked for no permission
      show Prog.Meets _ _ _ _ (if user.key = userId then _ else _)
      rw [if_pos hself]
      intro u _
      exact ⟨user, hknown user rfl, .inl hself⟩
    · show Prog.Meets _ _ _ _ (if user.key = userId then _ else _)
      rw [if_neg hself]
      apply meets_ofRoles_obeying requireUsersRead_meets foundOneOf_of_nothing
      intro t' x hfound u hu
      exact ⟨user, known_mono (hknown user rfl) t', .inr (hfound u hu)⟩
  · intro t x _ u hu
    cases hu

/-- A program that takes no permission, for a request that is entitled to its
    answer. -/
theorem meets_free {p : RoleReq AuthError α} (hp : RoleProgram RoleStmt.Free p)
    {P : List (Entry consoleTables.machine) → Prop} (hP : ∀ t, P (h ++ t)) :
    (ofRoles p).Meets (fun _ => True) (ConsoleConduct r) (fun h' _ => P h') h := by
  apply meets_ofRoles_obeying (obeying_meets hp.obeys_free) foundOneOf_of_nothing
  intro t x _
  exact hP t

/-- A response is given when the program has answered. -/
theorem meets_answer {p : ConsoleReq ε α} {f : α → ConsoleReply} {e : ε → Failure}
    {P : List (Entry consoleTables.machine) → Prop}
    (hp : p.Meets (fun _ => True) (ConsoleConduct r) (fun h' x => ∀ a, x = .ok a → P h') h) :
    (answer f e p).Meets (fun _ => True) (ConsoleConduct r)
      (fun h' out => ∀ reply, out = .ok reply → P h') h := by
  apply Prog.meets_bind.mpr
  apply Prog.Meets.mapError hp
  · intro t a hP reply _
    exact hP a rfl
  · intro t x _ reply hreply
    cases hreply

/-- A program of the role service for a caller that is entitled to it. -/
theorem meets_forCaller {f : User → RoleReq AuthError α}
    (hf : ∀ user, RoleProgram RoleStmt.Free (f user)) :
    (forCaller bearer f).Meets (fun _ => True) (ConsoleConduct r)
      (fun h' x => ∀ a, x = .ok a → ∃ user, Known bearer user (seenByCache h')) h := by
  apply Prog.Meets.bind meets_caller
  · intro t user hknown
    have hfree := meets_free (r := r) (h := h ++ t) (hf user)
      (P := fun h' => ∃ user, Known bearer user (seenByCache h'))
      fun t' => ⟨user, known_mono (hknown user rfl) t'⟩
    apply hfree.weaken (fun _ hw => hw) (fun _ _ _ he => he)
    intro t' x hx a _
    exact hx
  · intro t x _ a ha
    cases ha

/-- A listing of a user. -/
theorem meets_forSelf {p : RoleReq AuthError α} (hp : RoleProgram RoleStmt.Free p) :
    (forSelf bearer userId p).Meets (fun _ => True) (ConsoleConduct r)
      (fun h' x => ∀ a, x = .ok a → ∃ user, Known bearer user (seenByCache h') ∧
        (user.key = userId ∨
          FoundGrant (normalizeUserId user.key) Names.usersRead (seenByRoles h'))) h := by
  apply Prog.Meets.bind permittedOrSelf_meets
  · intro t u hentitled
    obtain ⟨user, hknown, hwhy⟩ := hentitled u rfl
    have hfree := meets_free (r := r) (h := h ++ t) hp
      (P := fun h' => ∃ user, Known bearer user (seenByCache h') ∧ (user.key = userId ∨
        FoundGrant (normalizeUserId user.key) Names.usersRead (seenByRoles h'))) ?_
    · apply hfree.weaken (fun _ hw => hw) (fun _ _ _ he => he)
      intro t' x hx a _
      exact hx
    · intro t'
      refine ⟨user, known_mono hknown t', ?_⟩
      rcases hwhy with hself | hfound
      · exact .inl hself
      · rw [seenByRoles_append]
        exact .inr (hfound.mono _)
  · intro t x _ a ha
    cases ha

end

/-- **The console.** Every request conducts itself. -/
theorem consoleConduct_met : consoleConduct.Met := by
  intro r
  show r.program.Meets (fun _ => True) (ConsoleConduct r)
    (fun h' out => ∀ reply, out = .ok reply → HasEntitled r h') []
  have hcached : ∀ q : CachedCall, q.program.Meets (fun _ => True) (CacheConduct q)
      (CacheConclusion q) (seenByCache []) := cacheConduct_met
  cases r with
  | anyone r =>
    apply meets_answer
    apply meets_ofCache (hcached (.call r.call)) r.obeys foundOneOf_of_nothing
    intro t x _ a _
    trivial
  | resetPassword cfg token newPassword =>
    apply meets_answer
    apply meets_ofCache (hcached (.resetPassword cfg token newPassword)) _ foundOneOf_of_nothing
    · intro t x _ a _
      trivial
    · exact Only.bind (Only.mapError cachedReset_obeys) fun _ => trivial
  | purgeExpired =>
    apply meets_answer
    apply meets_ofCache (hcached .purgeExpired) _ foundOneOf_of_nothing
    · intro t x _ a _
      trivial
    · exact Only.bind cached_call fun _ => trivial
  | adminLogin cfg email password ip =>
    apply meets_answer
    have hobeys : (adminLogin cfg email password ip).Only (RoleObeys Nothing) :=
      adminLogin_only.mono fun _ hs => roleObeys_of_login hs
    apply meets_ofRoles_obeying (obeying_meets hobeys) foundOneOf_of_nothing
    intro t x _ a _
    trivial
  | bootstrap cfg gate request ip =>
    apply meets_answer
    -- the one request that writes what takes a permission and has none
    apply meets_ofRoles bootstrapAdmin_conduct
    · intro t ctx s w he ps hps
      rcases he with hobeys | ⟨-, hconduct⟩
      · exact (hobeys ps hps).elim
      · exact (hconduct ps hps).elim
    · intro t ctx s w he ps hps
      rcases he with hobeys | ⟨htoken, hconduct⟩
      · exact (hobeys ps hps).elim
      · exact .inr ⟨cfg, gate, request, ip, s, rfl, htoken, rfl, hconduct⟩
    · intro t x hx userId hok
      exact hx userId hok
  | own cfg bearer action =>
    apply meets_answer
    apply meets_ofCache (hcached (.authed bearer (action.action cfg))) _ foundOneOf_of_nothing
    · intro t x hx reply hok
      exact hx.admitted bearer _ reply rfl hok
    · exact Only.bind (Only.mapError cachedAuthedUser_obeys) fun user => action.obeys cfg
  | manage cfg bearer op =>
    apply meets_answer
    apply Prog.Meets.bind (P := fun h' x => ∀ user, x = .ok user →
      Held bearer user op.permission h')
    · apply Prog.Meets.mapError permitted_meets
      · intro t user hheld user' hok
        cases hok
        exact hheld user rfl
      · intro t x _ user hok
        cases hok
    · intro t user hheld
      have hheld := hheld user rfl
      -- what the gate found stays in the history of the request
      apply meets_ofCache (G := fun ps => op.permission ∈ ps) (action_meets hheld.caller)
        (op.obeys cfg user.key)
      · intro t' ps hmem
        exact ⟨bearer, user, op.permission, rfl, hmem, hheld.mono t'⟩
      · intro t' x _ reply _
        exact ⟨user, (hheld.mono t').caller, (hheld.mono t').found⟩
    · intro t x _ reply hok
      cases hok
  | roles bearer op =>
    apply meets_answer
    apply Prog.Meets.bind permitted_meets
    · intro t user hheld
      have hheld := hheld user rfl
      have hobeys : (op.program user.key).Only (RoleObeys fun ps => op.permission ∈ ps) := by
        apply (op.served user.key).obeys
        intro s hs ps hps
        exact hs ps hps
      apply meets_ofRoles_obeying (obeying_meets hobeys)
      · intro t' ps hmem
        exact ⟨bearer, user, op.permission, rfl, hmem, hheld.mono t'⟩
      · intro t' x _ reply _
        exact ⟨user, (hheld.mono t').caller, (hheld.mono t').found⟩
    · intro t x _ reply hok
      cases hok
  | userRoles bearer userId => exact meets_answer (meets_forSelf getUserRoles_served)
  | userPermissions bearer userId =>
    exact meets_answer (meets_forSelf getUserPermissions_served)
  | checkPermission bearer permissionName =>
    exact meets_answer (meets_forCaller fun user => .map checkUserPermission_served)
  | checkRole bearer roleName =>
    exact meets_answer (meets_forCaller fun user => .map checkUserRole_served)

end SoulAuth
