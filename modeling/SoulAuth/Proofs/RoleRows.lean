import SoulAuth.Proofs.Authority
import SoulAuth.Proofs.RoleIntegrity

/-! # The rows of roles and permissions

Two things hold of the rows in every run. A system role stays exactly as it
was: what edits or deletes a role has read, under the same key, a role that is
none. And every role and permission can be found under its name: a name is
validated before it is written, two rows never share one, and no operation
changes it.
-/

namespace SoulAuth

open Framework Framework.Prog Framework.System

/-! ## Names -/

/-- The characters of the names of roles and permissions. -/
def isRbacChar (c : Char) : Bool :=
  Str.isAsciiAlphanumeric c || c = '_' || c = '-' || c = '.' || c = ':'

/-- A name that a request can address. -/
structure IsRbacName (name : Str) : Prop where
  nonempty : name ≠ []
  length : name.length ≤ 64
  chars : ∀ c ∈ name, isRbacChar c = true

theorem isRbacName_of_validated {kind : String} {name accepted : Str}
    (h : validateRbacName kind name = .ok accepted) : IsRbacName accepted := by
  simp only [validateRbacName] at h
  split_ifs at h with hempty hlong hchars
  cases h
  constructor
  · exact hempty
  · omega
  · exact List.all_eq_true.mp hchars

theorem isRbacChar_visible {c : Char} (h : isRbacChar c = true) : Str.isWhitespace c = false := by
  simp only [isRbacChar, Bool.or_eq_true, decide_eq_true_eq] at h
  rcases h with (((h | rfl) | rfl) | rfl) | rfl
  · exact Str.isWhitespace_visible (Str.isAlphanum_visible h)
  all_goals decide

/-- What was accepted is accepted again, as it is. -/
theorem IsRbacName.validated {name : Str} (h : IsRbacName name) (kind : String) :
    validateRbacName kind name = .ok name := by
  have htrim : Str.trim name = name :=
    Str.trimBoth_eq_self fun c hc => isRbacChar_visible (h.chars c hc)
  have hall : (name.all isRbacChar) = true := List.all_eq_true.mpr h.chars
  simp only [validateRbacName, htrim]
  rw [if_neg h.nonempty, if_neg (by have := h.length; omega)]
  exact if_pos hall

variable [Platform]

/-! ## The rule -/

/-- The request has seen a role under this key that is no system role. -/
def Ordinary (key : Str) (h : List (Entry roleTables.machine)) : Prop :=
  ∃ e ∈ h, ∃ r ∈ e.before.2.roles, r.key = key ∧ r.isSystem = false

/-- What a request knows of the row that it writes. -/
def WritesKnown (h : List (Entry roleTables.machine)) : RoleStmt → Prop
  | .updateRole key _ _ _ | .deleteRole key => Ordinary key h
  | .createRole r => r.isSystem = false ∧ IsRbacName r.name
  | .createPermission p => IsRbacName p.name
  | _ => True

/-- The rule of entries, for a program of the role service. -/
def RowsKnown (h : List (Entry roleTables.machine)) (e : Entry roleTables.machine) : Prop :=
  ∀ s, e.stmt = .inr s → WritesKnown h s

/-- The rule of entries of the console. -/
def ConsoleRowsKnown (h : List (Entry consoleTables.machine))
    (e : Entry consoleTables.machine) : Prop :=
  ∀ s, e.stmt = .inr (.inl s) → WritesKnown (seenByRoles h) s

/-- The rule of the rows. -/
def rowRule : Rule console where
  assumes _ := True
  entry _ := ConsoleRowsKnown
  outcome _ _ _ := True

section

variable {ε α β : Type} {h : List (Entry roleTables.machine)}

theorem Ordinary.mono {key : Str} (hk : Ordinary key h) (t : List (Entry roleTables.machine)) :
    Ordinary key (h ++ t) := by
  obtain ⟨e, he, hrole⟩ := hk
  exact ⟨e, List.mem_append_left t he, hrole⟩

/-- A role that was read under its name was there. -/
theorem ordinary_of_read {name : Str} {r : Role} (ctx : Ctx) {w : World × RoleTables}
    (hread : ((RoleStmt.roleByName name).run ctx w.1 w.2).1 = .ok (some r))
    (hsystem : r.isSystem = false) :
    Ordinary r.key (h ++ [⟨ctx, .inr (.roleByName name), w⟩]) := by
  have hfind : (w.2.roles.find? fun r' => r'.name = name) = some r := by
    obtain ⟨elapsed, _ | _ | _ | _⟩ := ctx
    · exact Except.ok.inj hread
    · cases hread
    · cases hread
    · cases hread
  exact ⟨_, List.mem_append_right h (List.mem_singleton_self _), r,
    List.mem_of_find?_eq_some hfind, rfl, hsystem⟩

/-- A program of the role service under the rule of the rows. -/
abbrev KnowsRows (h : List (Entry roleTables.machine)) (p : RoleReq ε α) : Prop :=
  p.Meets (fun _ => True) RowsKnown (fun _ _ => True) h

/-- A program that writes no rows of roles or permissions. -/
theorem knowsRows_of_served {p : RoleReq AuthError α} (hp : RoleProgram RoleStmt.KeepsRows p) :
    KnowsRows h p := by
  apply Only.meets hp.only
  · intro t e _ he s hs
    rw [hs] at he
    have hkeeps : s.KeepsRows := he
    cases s with
    | createRole _ | updateRole _ _ _ _ | deleteRole _ | createPermission _ => exact hkeeps.elim
    | _ => trivial
  · intro t r _
    trivial

theorem knowsRows_of_free {p : RoleReq AuthError α} (hp : RoleProgram RoleStmt.Free p) :
    KnowsRows h p :=
  knowsRows_of_served (hp.mono fun _ hs => hs.keepsRows)

/-- One program after the other. -/
theorem KnowsRows.bind {p : RoleReq AuthError α} {f : α → RoleReq AuthError β}
    (hp : KnowsRows h p) (hf : ∀ t a, KnowsRows (h ++ t) (f a)) : KnowsRows h (p >>= f) := by
  apply Prog.Meets.bind hp
  · intro t a _
    exact hf t a
  · intro t e _
    trivial

/-- A query under the rule, and what follows it. -/
theorem knowsRows_query_bind {s : RoleStmt} {f : s.Reply → RoleReq AuthError β}
    (hs : WritesKnown h s) (hf : ∀ ctx w a, (s.run ctx w.1 w.2).1 = .ok a →
      KnowsRows (h ++ [⟨ctx, .inr s, w⟩]) (f a)) : KnowsRows h (roleQuery s >>= f) := by
  apply meets_roleQuery_bind
  · intro ctx w s' hs'
    cases hs'
    exact hs
  · exact hf
  · intro ctx w x _
    trivial

theorem knowsRows_query {s : RoleStmt} (hs : WritesKnown h s) : KnowsRows h (roleQuery s) := by
  rw [← Prog.bind_pure' (roleQuery s)]
  apply knowsRows_query_bind hs
  intro _ _ _ _
  trivial

theorem knowsRows_orThrow_bind {o : Option α} {x : AuthError} {f : α → RoleReq AuthError β}
    (hf : ∀ a, o = some a → KnowsRows h (f a)) : KnowsRows h (Prog.orThrow x o >>= f) := by
  cases o with
  | none => trivial
  | some a => exact hf a rfl

theorem knowsRows_ensure_bind {p : Prop} [Decidable p] {x : AuthError}
    {f : Unit → RoleReq AuthError β} (hf : p → KnowsRows h (f ())) :
    KnowsRows h (Prog.ensure p x >>= f) := by
  apply Prog.meets_bind.mpr
  apply Prog.meets_ensure.mpr
  constructor
  · exact hf
  · intro _
    trivial

end

/-! ## The programs under the rule -/

section

variable {h : List (Entry roleTables.machine)}

theorem createRole_knowsRows {request : CreateRoleRequest} {key : Str} :
    KnowsRows h (createRole request key) := by
  unfold createRole
  rcases hname : validateRbacName "Role" request.name with x | name
  · trivial
  · show KnowsRows h (roleQuery (.roleByName name) >>= _)
    refine knowsRows_query_bind trivial ?_
    intro ctx w existing _
    apply knowsRows_ensure_bind
    intro _
    apply KnowsRows.bind (knowsRows_of_served .now)
    intro t now
    apply knowsRows_query_bind
    · exact ⟨rfl, isRbacName_of_validated hname⟩
    · intro ctx' w' role _
      trivial

theorem createPermission_knowsRows {request : CreatePermissionRequest} {key : Str} :
    KnowsRows h (createPermission request key) := by
  unfold createPermission
  rcases hname : validateRbacName "Permission" request.name with x | name
  · trivial
  · apply KnowsRows.bind (p := roleView (.permissionByName name))
      (knowsRows_of_free (view_served _))
    intro t existing
    apply knowsRows_ensure_bind
    intro _
    apply KnowsRows.bind (knowsRows_of_served .now)
    intro t' now
    exact knowsRows_query (isRbacName_of_validated hname)

theorem updateRole_knowsRows {roleName : Str} {request : UpdateRoleRequest} :
    KnowsRows h (updateRole roleName request) := by
  unfold updateRole
  refine knowsRows_query_bind trivial ?_
  intro ctx w found hfound
  apply knowsRows_orThrow_bind
  intro role hrole
  subst hrole
  apply knowsRows_ensure_bind
  intro hsystem
  apply knowsRows_ensure_bind
  intro _
  apply KnowsRows.bind (knowsRows_of_served .now)
  intro t now
  apply knowsRows_query_bind
  · -- the row is written under the key at which no system role was read
    exact (ordinary_of_read ctx hfound hsystem).mono t
  · intro ctx' w' updated _
    apply knowsRows_orThrow_bind
    intro row _
    exact knowsRows_of_free (.map attachPermissions_served)

theorem deleteRole_knowsRows {roleName : Str} : KnowsRows h (deleteRole roleName) := by
  unfold deleteRole
  refine knowsRows_query_bind trivial ?_
  intro ctx w found hfound
  apply knowsRows_orThrow_bind
  intro role hrole
  subst hrole
  apply knowsRows_ensure_bind
  intro hsystem
  apply KnowsRows.bind (knowsRows_of_free (view_served _))
  intro t count
  apply knowsRows_ensure_bind
  intro _
  refine knowsRows_query_bind trivial ?_
  intro ctx' w' _ _
  -- what was read before the count and the grants is still known here
  exact knowsRows_query (((ordinary_of_read ctx hfound hsystem).mono t).mono _)

/-- What an operation on roles writes, it knows. -/
theorem RoleOperation.knowsRows (op : RoleOperation) (operator : Str) :
    KnowsRows h (op.program operator) := by
  have hreply : ∀ {γ : Type} {p : RoleReq AuthError γ} {g : γ → RoleReply}, KnowsRows h p →
      KnowsRows h (p >>= fun a => (return g a : RoleReq AuthError RoleReply)) := by
    intro γ p g hp
    apply KnowsRows.bind hp
    intro t a
    trivial
  cases op with
  | createRole request key => exact hreply createRole_knowsRows
  | updateRole roleName request => exact hreply updateRole_knowsRows
  | deleteRole roleName => exact hreply deleteRole_knowsRows
  | createPermission request key => exact hreply createPermission_knowsRows
  | listRoles page limit => exact hreply (knowsRows_of_free listRoles_served)
  | getRole roleName => exact hreply (knowsRows_of_free getRole_served)
  | listPermissions page limit => exact hreply (knowsRows_of_free (view_served _))
  | getPermission permissionName => exact hreply (knowsRows_of_free findPermission_served)
  | getRolePermissions roleName => exact hreply (knowsRows_of_free getRolePermissions_served)
  | assignPermissionToRole roleName permissionName =>
    exact hreply (knowsRows_of_served (RbacOperation.keepsRows
      (.assignPermissionToRole roleName permissionName operator) (by simp)))
  | removePermissionFromRole roleName permissionName =>
    exact hreply (knowsRows_of_served (RbacOperation.keepsRows
      (.removePermissionFromRole roleName permissionName) (by simp)))
  | assignRoleToUser userId roleName =>
    exact hreply (knowsRows_of_served (RbacOperation.keepsRows
      (.assignRoleToUser (normalizeUserId userId) roleName operator) (by simp)))
  | removeRoleFromUser userId roleName =>
    exact hreply (knowsRows_of_served (RbacOperation.keepsRows
      (.removeRoleFromUser (normalizeUserId userId) roleName) (by simp)))

/-- A bootstrap writes no rows of roles or permissions. -/
theorem bootstrapAdmin_knowsRows {cfg : Config} {gate : BootstrapGate}
    {request : BootstrapAdminRequest} {ip : Str} :
    KnowsRows h (bootstrapAdmin cfg gate request ip) := by
  apply bootstrapAdmin_conduct.weaken (fun _ hw => hw)
  · intro t e _ he s hs
    obtain ⟨ctx, s' | s', w⟩ := e
    · cases hs
    · cases hs
      -- the writes to rows take a permission, and a bootstrap may not send them
      rcases he with hobeys | ⟨-, hmay⟩
      · cases s with
        | createRole _ | updateRole _ _ _ _ | deleteRole _ | createPermission _ =>
          exact (hobeys _ rfl).elim
        | _ => trivial
      · cases s with
        | createRole _ | updateRole _ _ _ _ | deleteRole _ | createPermission _ => cases hmay
        | _ => trivial
  · intro t r _
    trivial

theorem adminLogin_knowsRows {cfg : Config} {email password ip : Str} :
    KnowsRows h (adminLogin cfg email password ip) := by
  apply Only.meets adminLogin_only
  · intro t e _ he s hs
    rw [hs] at he
    have hfree : s.authority = none := he
    cases s with
    | createRole _ | updateRole _ _ _ _ | deleteRole _ | createPermission _ => cases hfree
    | _ => trivial
  · intro t r _
    trivial

/-- The gate asks questions only. -/
theorem gate_knowsRows {userId permission : Str}
    {f : Except AuthError Bool → RoleReq AuthError Unit}
    (hf : ∀ out, RoleProgram RoleStmt.Free (f out)) :
    KnowsRows h ((checkUserPermission userId permission).attempt >>= f) :=
  knowsRows_of_free (.bind (.attempt checkUserPermission_served) hf)

end

section

variable {ε ε' α β : Type} {h : List (Entry consoleTables.machine)} {bearer : Claims}

/-- A part of a request to the console under the rule. -/
abbrev ConsoleKnowsRows (h : List (Entry consoleTables.machine)) (p : ConsoleReq ε α) : Prop :=
  p.Meets (fun _ => True) ConsoleRowsKnown (fun _ _ => True) h

theorem ConsoleKnowsRows.bind {p : ConsoleReq ε α} {f : α → ConsoleReq ε β}
    (hp : ConsoleKnowsRows h p) (hf : ∀ t a, ConsoleKnowsRows (h ++ t) (f a)) :
    ConsoleKnowsRows h (p >>= f) := by
  apply Prog.Meets.bind hp
  · intro t a _
    exact hf t a
  · intro t e _
    trivial

theorem ConsoleKnowsRows.mapError {p : ConsoleReq ε α} {g : ε → ε'}
    (hp : ConsoleKnowsRows h p) : ConsoleKnowsRows h (p.mapError g) := by
  apply Prog.Meets.mapError hp
  · intro t a _
    trivial
  · intro t e _
    trivial

/-- What the server does behind its cache is no write of roles. -/
theorem ofCache_knowsRows {p : CacheReq ε α} : ConsoleKnowsRows h (ofCache p) := by
  apply Only.meets (only_widen_of_all
    (S := fun s : consoleTables.machine.Stmt => ∀ s', s ≠ .inr (.inl s')) ?_)
  · intro t e _ he s hs
    exact absurd hs (he s)
  · intro t r _
    trivial
  · intro s s' heq
    obtain s | s := s
    · cases heq
    · cases heq

theorem ofRoles_knowsRows {p : RoleReq ε α} (hp : KnowsRows (seenByRoles h) p) :
    ConsoleKnowsRows h (ofRoles p) := by
  apply hp.widen
  · intro t e e₀ hnarrow he s hs
    obtain ⟨ctx, s' | s' | s', w⟩ := e
    · cases hs
    · cases hnarrow
      cases hs
      exact he s rfl
    · cases hs
  · intro t r _
    trivial

theorem answer_knowsRows {p : ConsoleReq ε α} {f : α → ConsoleReply} {e : ε → Failure}
    (hp : ConsoleKnowsRows h p) : ConsoleKnowsRows h (answer f e p) := by
  apply ConsoleKnowsRows.bind hp.mapError
  intro t a
  trivial

theorem permitted_knowsRows {permission : Str} :
    ConsoleKnowsRows h (permitted bearer permission) := by
  apply ConsoleKnowsRows.bind ofCache_knowsRows
  intro t user
  apply ConsoleKnowsRows.bind
  · apply ofRoles_knowsRows
    apply gate_knowsRows
    intro out
    cases out with
    | ok has => exact .ensure
    | error e => exact .result _
  · intro t' _
    trivial

theorem forSelf_knowsRows {userId : Str} {p : RoleReq AuthError α}
    (hp : RoleProgram RoleStmt.Free p) : ConsoleKnowsRows h (forSelf bearer userId p) := by
  apply ConsoleKnowsRows.bind
  · apply ConsoleKnowsRows.bind ofCache_knowsRows
    intro t user
    by_cases hself : user.key = userId
    · show ConsoleKnowsRows _ (if user.key = userId then _ else _)
      rw [if_pos hself]
      trivial
    · show ConsoleKnowsRows _ (if user.key = userId then _ else _)
      rw [if_neg hself]
      apply ofRoles_knowsRows
      apply gate_knowsRows
      intro out
      exact .ensure
  · intro t _
    exact ofRoles_knowsRows (knowsRows_of_free hp)

theorem forCaller_knowsRows {f : User → RoleReq AuthError α}
    (hf : ∀ user, RoleProgram RoleStmt.Free (f user)) :
    ConsoleKnowsRows h (forCaller bearer f) := by
  apply ConsoleKnowsRows.bind ofCache_knowsRows
  intro t user
  exact ofRoles_knowsRows (knowsRows_of_free (hf user))

end

theorem rowRule_met : rowRule.Met := by
  intro r
  show ConsoleKnowsRows [] r.program
  cases r with
  | anyone _ | resetPassword _ _ _ | purgeExpired | own _ _ _ =>
    exact answer_knowsRows ofCache_knowsRows
  | adminLogin cfg email password ip =>
    exact answer_knowsRows (ofRoles_knowsRows adminLogin_knowsRows)
  | bootstrap cfg gate request ip =>
    exact answer_knowsRows (ofRoles_knowsRows bootstrapAdmin_knowsRows)
  | manage cfg bearer op =>
    apply answer_knowsRows
    apply ConsoleKnowsRows.bind permitted_knowsRows.mapError
    intro t user
    exact ofCache_knowsRows
  | roles bearer op =>
    apply answer_knowsRows
    apply ConsoleKnowsRows.bind permitted_knowsRows
    intro t user
    exact ofRoles_knowsRows (op.knowsRows user.key)
  | userRoles bearer userId => exact answer_knowsRows (forSelf_knowsRows getUserRoles_served)
  | userPermissions bearer userId =>
    exact answer_knowsRows (forSelf_knowsRows getUserPermissions_served)
  | checkPermission bearer permissionName =>
    exact answer_knowsRows (forCaller_knowsRows fun _ => .map checkUserPermission_served)
  | checkRole bearer roleName =>
    exact answer_knowsRows (forCaller_knowsRows fun _ => .map checkUserRole_served)

/-! ## What a statement does to the rows -/

section

omit [Platform]

variable {w : World} {t : RoleTables} {s : RoleStmt}

/-- The roles stay, one is edited, one is added under a name and a key that
    are not in use, or one is deleted. -/
theorem RoleStmt.roles_cases :
    (s.exec w t).2.roles = t.roles ∨
    (∃ key displayName description now, s = .updateRole key displayName description now ∧
      (s.exec w t).2.roles = t.roles.map fun r =>
        if r.key = key then r.edit displayName description now else r) ∨
    (∃ r, s = .createRole r ∧ (∀ q ∈ t.roles, q.name ≠ r.name ∧ q.key ≠ r.key) ∧
      (s.exec w t).2.roles = t.roles ++ [r]) ∨
    ∃ key, s = .deleteRole key ∧
      (s.exec w t).2.roles = t.roles.filter fun r => r.key ≠ key := by
  cases s with
  | deleteRole key => exact .inr (.inr (.inr ⟨key, rfl, rfl⟩))
  | updateRole key displayName description now =>
    exact .inr (.inl ⟨key, displayName, description, now, rfl, rfl⟩)
  | createRole r =>
    simp only [exec]
    split_ifs with hname hkey
    · exact .inl rfl
    · exact .inl rfl
    · -- the unique index on names and the record key let the row in
      right; right; left
      refine ⟨r, rfl, ?_, rfl⟩
      simp only [List.any_eq_true, decide_eq_true_eq, not_exists, not_and] at hname hkey
      intro q hq
      exact ⟨hname q hq, hkey q hq⟩
  | assign _ | grant _ | createPermission _ | createClaim _ =>
    left
    simp only [exec]
    split_ifs <;> rfl
  | _ => exact .inl rfl

/-- The permissions stay, or one is added under a name that is not in use. -/
theorem RoleStmt.permissions_cases :
    (s.exec w t).2.permissions = t.permissions ∨
    ∃ p, s = .createPermission p ∧ (∀ q ∈ t.permissions, q.name ≠ p.name) ∧
      (s.exec w t).2.permissions = t.permissions ++ [p] := by
  rcases s.permissions_exec (w := w) (t := t) with hsame | hauthority
  · exact .inl hsame
  · cases s with
    | createPermission p =>
      simp only [exec]
      split_ifs with hname hkey
      · exact .inl rfl
      · exact .inl rfl
      · right
        refine ⟨p, rfl, ?_, rfl⟩
        simp only [List.any_eq_true, decide_eq_true_eq, not_exists, not_and] at hname
        exact hname
    | assign _ | grant _ | createRole _ | createClaim _ =>
      left
      simp only [exec]
      split_ifs <;> rfl
    | _ => exact .inl rfl

/-- An edit keeps the key, the name and the kind of a role. -/
theorem edit_keeps {α : Type} {f : Role → α} {key : Str} {d d' : Option Str} {now : Timestamp}
    (hf : ∀ r : Role, f (r.edit d d' now) = f r) (roles : List Role) :
    (roles.map fun r => if r.key = key then r.edit d d' now else r).map f = roles.map f := by
  rw [List.map_map]
  apply List.map_congr_left
  intro r _
  show f (if r.key = key then r.edit d d' now else r) = f r
  by_cases hkey : r.key = key
  · rw [if_pos hkey]
    exact hf r
  · rw [if_neg hkey]

/-- The keys stay distinct. -/
theorem RoleStmt.roleKeys_nodup (h : (t.roles.map Role.key).Nodup) :
    ((s.exec w t).2.roles.map Role.key).Nodup := by
  rcases s.roles_cases (w := w) (t := t) with hsame | ⟨key, d, d', now, -, hexec⟩ |
    ⟨r, -, hnew, hexec⟩ | ⟨key, -, hexec⟩
  · rw [hsame]
    exact h
  · rw [hexec, edit_keeps fun _ => rfl]
    exact h
  · rw [hexec, List.map_append]
    apply h.append (by simp)
    intro k hk hr
    obtain ⟨q, hq, rfl⟩ := List.mem_map.mp hk
    exact (hnew q hq).2 (List.mem_singleton.mp hr)
  · rw [hexec]
    exact h.sublist (List.filter_sublist.map _)

end

/-! ## System roles -/

/-- The roles of the initial data that no operation may touch. -/
def RoleTables.systemRoles (t : RoleTables) : List Role := t.roles.filter Role.isSystem

section

omit [Platform]

variable {w : World} {t : RoleTables} {s : RoleStmt}

/-- No system role has this key. -/
def RoleTables.Spares (t : RoleTables) (key : Str) : Prop := ∀ r ∈ t.systemRoles, r.key ≠ key

theorem systemRoles_edit {key : Str} {d d' : Option Str} {now : Timestamp}
    (h : t.Spares key) :
    (t.roles.map fun r => if r.key = key then r.edit d d' now else r).filter Role.isSystem =
      t.systemRoles := by
  have hkeep : ∀ r ∈ t.roles,
      (if r.key = key then r.edit d d' now else r).isSystem = r.isSystem := by
    intro r _
    by_cases hkey : r.key = key
    · rw [if_pos hkey]
      rfl
    · rw [if_neg hkey]
  rw [List.filter_map]
  have hfilter : t.roles.filter (Role.isSystem ∘ fun r =>
      if r.key = key then r.edit d d' now else r) = t.systemRoles := by
    apply List.filter_congr
    intro r hr
    exact hkeep r hr
  rw [hfilter]
  -- the rows that are left are not the edited one
  have hid : ∀ r ∈ t.systemRoles, (if r.key = key then r.edit d d' now else r) = r := by
    intro r hr
    exact if_neg (h r hr)
  rw [List.map_congr_left hid]
  exact List.map_id _

theorem systemRoles_delete {key : Str} (h : t.Spares key) :
    (t.roles.filter fun r => r.key ≠ key).filter Role.isSystem = t.systemRoles := by
  rw [List.filter_filter]
  apply List.filter_congr
  intro r hr
  by_cases hsystem : r.isSystem = true
  · have hne : r.key ≠ key := h r (List.mem_filter.mpr ⟨hr, hsystem⟩)
    simp [hsystem, hne]
  · simp [hsystem]

end

/-- The keys are distinct and the system roles are those of the start. -/
def KeepsSystemRoles (t₀ t : RoleTables) : Prop :=
  (t.roles.map Role.key).Nodup ∧ t.systemRoles = t₀.systemRoles

/-- What the request has read under the key of a role tells that no system
    role has it. -/
theorem spares_of_ordinary {t₀ t : RoleTables} {key : Str}
    {h : List (Entry roleTables.machine)} (ht : KeepsSystemRoles t₀ t)
    (hall : ∀ e ∈ h, KeepsSystemRoles t₀ e.before.2) (hkey : Ordinary key h) :
    t.Spares key := by
  obtain ⟨e, he, r, hr, rfl, hordinary⟩ := hkey
  obtain ⟨hnodup, hsame⟩ := hall e he
  intro r' hr' hkeys
  -- a system role of now was there when the request read
  rw [ht.2, ← hsame] at hr'
  obtain ⟨hin, hsystem⟩ := List.mem_filter.mp hr'
  obtain rfl : r' = r := List.inj_on_of_nodup_map hnodup hin hr hkeys
  rw [hordinary] at hsystem
  cases hsystem

/-- A statement that a request knows enough for keeps the system roles. -/
theorem KeepsSystemRoles.exec {t₀ t : RoleTables} {w : World} {s : RoleStmt}
    {h : List (Entry roleTables.machine)} (ht : KeepsSystemRoles t₀ t)
    (hall : ∀ e ∈ h, KeepsSystemRoles t₀ e.before.2) (hs : WritesKnown h s) :
    KeepsSystemRoles t₀ (s.exec w t).2 := by
  constructor
  · exact RoleStmt.roleKeys_nodup ht.1
  · rw [← ht.2]
    show (s.exec w t).2.roles.filter Role.isSystem = _
    rcases s.roles_cases (w := w) (t := t) with hsame | ⟨key, d, d', now, rfl, hroles⟩ |
      ⟨r, rfl, -, hroles⟩ | ⟨key, rfl, hroles⟩
    · rw [hsame]
      rfl
    · rw [hroles]
      exact systemRoles_edit (spares_of_ordinary ht hall hs)
    · -- a role that is created is no system role
      have hordinary : r.isSystem = false := hs.1
      rw [hroles, List.filter_append]
      simp [hordinary, RoleTables.systemRoles]
    · rw [hroles]
      exact systemRoles_delete (spares_of_ordinary ht hall hs)

section

variable {w₀ : consoleTables.machine.State} {c : (console).Conf}

/-- **System roles are permanent.** No interleaving of requests edits, deletes
    or adds a system role. -/
theorem system_roles_permanent (hkeys : (w₀.2.1.roles.map Role.key).Nodup)
    (hc : Reachable w₀ c) : c.state.2.1.systemRoles = w₀.2.1.systemRoles := by
  -- the states before every entry as well: a request may act on an old read
  have hkept := hc.lift rowRule_met
    (P := fun tr w => KeepsSystemRoles w₀.2.1 w.2.1 ∧
      ∀ x ∈ tr, KeepsSystemRoles w₀.2.1 x.2.before.2.1)
    ⟨⟨hkeys, rfl⟩, by simp⟩ ?_ (fun _ _ _ => trivial)
  · exact hkept.2.1.2
  · intro c i r e _ _ hp hbefore _ hentry
    obtain ⟨hstate, hall⟩ := hp
    rw [← hbefore] at hstate
    have hread : ∀ e₀ ∈ seenByRoles (entriesOf i c.trace),
        KeepsSystemRoles w₀.2.1 e₀.before.2 := by
      intro e₀ he₀
      obtain ⟨e', he', hseen⟩ := mem_seenByRoles he₀
      rw [hseen]
      exact hall (i, e') (mem_entriesOf.mp he')
    constructor
    · rcases roleTables_after e with hsame | ⟨s, hs, hexec⟩
      · rw [hsame]
        exact hstate
      · rw [hexec]
        exact hstate.exec hread (hentry s hs)
    · intro x hx
      rcases List.mem_append.mp hx with hx | hx
      · exact hall x hx
      · obtain rfl := List.mem_singleton.mp hx
        exact hstate

end

/-! ## Every name finds its row -/

/-- Names are well formed, and no two rows share one. -/
structure RoleTables.NamesSound (t : RoleTables) : Prop where
  roles : (t.roles.map Role.name).Nodup
  permissions : (t.permissions.map Permission.name).Nodup
  roleNames : ∀ r ∈ t.roles, IsRbacName r.name
  permissionNames : ∀ p ∈ t.permissions, IsRbacName p.name

theorem RoleTables.NamesSound.exec {w : World} {t : RoleTables} {s : RoleStmt}
    {h : List (Entry roleTables.machine)} (ht : t.NamesSound) (hs : WritesKnown h s) :
    (s.exec w t).2.NamesSound := by
  have hroles : ((s.exec w t).2.roles.map Role.name).Nodup ∧
      ∀ r ∈ (s.exec w t).2.roles, IsRbacName r.name := by
    have hnamed : (∀ n ∈ t.roles.map Role.name, IsRbacName n) := by
      intro n hn
      obtain ⟨r, hr, rfl⟩ := List.mem_map.mp hn
      exact ht.roleNames r hr
    rcases s.roles_cases (w := w) (t := t) with hsame | ⟨key, d, d', now, -, hexec⟩ |
      ⟨r, rfl, hnew, hexec⟩ | ⟨key, -, hexec⟩
    · rw [hsame]
      exact ⟨ht.roles, ht.roleNames⟩
    · -- an edit changes no name
      have hmap : (s.exec w t).2.roles.map Role.name = t.roles.map Role.name := by
        rw [hexec, edit_keeps fun _ => rfl]
      rw [hmap]
      refine ⟨ht.roles, fun r hr => hnamed r.name ?_⟩
      rw [← hmap]
      exact List.mem_map_of_mem hr
    · rw [hexec, List.map_append]
      constructor
      · apply ht.roles.append (by simp)
        intro n hn hr
        obtain ⟨q, hq, rfl⟩ := List.mem_map.mp hn
        exact (hnew q hq).1 (List.mem_singleton.mp hr)
      · intro q hq
        rcases List.mem_append.mp hq with hq | hq
        · exact ht.roleNames q hq
        · obtain rfl := List.mem_singleton.mp hq
          exact hs.2
    · rw [hexec]
      exact ⟨ht.roles.sublist (List.filter_sublist.map _),
        fun r hr => ht.roleNames r (List.mem_of_mem_filter hr)⟩
  have hpermissions : ((s.exec w t).2.permissions.map Permission.name).Nodup ∧
      ∀ p ∈ (s.exec w t).2.permissions, IsRbacName p.name := by
    rcases s.permissions_cases (w := w) (t := t) with hsame | ⟨p, rfl, hnew, hexec⟩
    · rw [hsame]
      exact ⟨ht.permissions, ht.permissionNames⟩
    · rw [hexec, List.map_append]
      constructor
      · apply ht.permissions.append (by simp)
        intro n hn hp
        obtain ⟨q, hq, rfl⟩ := List.mem_map.mp hn
        exact hnew q hq (List.mem_singleton.mp hp)
      · intro q hq
        rcases List.mem_append.mp hq with hq | hq
        · exact ht.permissionNames q hq
        · obtain rfl := List.mem_singleton.mp hq
          exact hs
  exact ⟨hroles.1, hpermissions.1, hroles.2, hpermissions.2⟩

omit [Platform] in
/-- Under its name a role or a permission is found, and the name passes the
    validation again. -/
theorem RoleTables.NamesSound.found {t : RoleTables} (h : t.NamesSound) :
    (∀ r ∈ t.roles, (t.roles.find? fun q => q.name = r.name) = some r ∧
      validateRbacName "Role" r.name = .ok r.name) ∧
    ∀ p ∈ t.permissions, (t.permissions.find? fun q => q.name = p.name) = some p ∧
      validateRbacName "Permission" p.name = .ok p.name := by
  constructor
  · intro r hr
    exact ⟨KeyedTable.rowAt_of_mem h.roles hr, (h.roleNames r hr).validated "Role"⟩
  · intro p hp
    exact ⟨KeyedTable.rowAt_of_mem h.permissions hp, (h.permissionNames p hp).validated "Permission"⟩

/-- **Every name finds its row.** In every state that requests reach from
    tables with sound names, each role and each permission is found under its
    own name, which is one that the validation accepts. -/
theorem names_find_rows {w₀ : consoleTables.machine.State} {c : (console).Conf}
    (hw : w₀.2.1.NamesSound) (hc : Reachable w₀ c) :
    (∀ r ∈ c.state.2.1.roles, (c.state.2.1.roles.find? fun q => q.name = r.name) = some r ∧
      validateRbacName "Role" r.name = .ok r.name) ∧
    ∀ p ∈ c.state.2.1.permissions,
      (c.state.2.1.permissions.find? fun q => q.name = p.name) = some p ∧
      validateRbacName "Permission" p.name = .ok p.name := by
  apply RoleTables.NamesSound.found
  have hkept := hc.lift rowRule_met (P := fun _ w => w.2.1.NamesSound) hw ?_
    (fun _ _ _ => trivial)
  · exact hkept.2
  · intro c i r e _ _ hsound hbefore _ hentry
    rw [← hbefore] at hsound
    rcases roleTables_after e with hsame | ⟨s, hs, hexec⟩
    · rw [hsame]
      exact hsound
    · rw [hexec]
      exact hsound.exec (hentry s hs)

end SoulAuth

namespace SoulAuth.Sample

open Framework Framework.Prog Framework.System

/-- Alice edits the role of the administrators, which is refused, and then
    deletes the role of the editors. -/
def editing : List (console).Action :=
  .start (.roles aliceBearer (.updateRole adminRole ⟨some "Root".toList, none⟩)) ::
    consoleSteps 0 11 ++
    .start (.roles aliceBearer (.deleteRole editors.name)) :: consoleSteps 1 14

theorem system_roles_permanent_alice :
    (asked administration editing).outcome 0 =
        some (.error (.auth (.validationError "Cannot update system role"))) ∧
      (asked administration editing).outcome 1 = some (.ok (.roles .noContent)) ∧
      (asked administration editing).state.2.1.systemRoles = administration.systemRoles :=
  ⟨by decide +kernel, by decide +kernel,
    system_roles_permanent (by decide +kernel)
      (asked_reachable administration editing)⟩

theorem administration_namesSound : administration.NamesSound where
  roles := by decide +kernel
  permissions := by decide +kernel
  roleNames r hr := by
    have hnames : ∀ r ∈ administration.roles, validateRbacName "Role" r.name = .ok r.name := by
      decide +kernel
    exact isRbacName_of_validated (hnames r hr)
  permissionNames p hp := by
    have hnames : ∀ p ∈ administration.permissions,
        validateRbacName "Permission" p.name = .ok p.name := by
      decide +kernel
    exact isRbacName_of_validated (hnames p hp)

/-- The role that Alice creates is found under its name. -/
theorem names_find_rows_alice :
    (∀ r ∈ (asked administration creation).state.2.1.roles,
      ((asked administration creation).state.2.1.roles.find? fun q => q.name = r.name) =
        some r ∧
      validateRbacName "Role" r.name = .ok r.name) ∧
    ∀ p ∈ (asked administration creation).state.2.1.permissions,
      ((asked administration creation).state.2.1.permissions.find? fun q => q.name = p.name) =
        some p ∧
      validateRbacName "Permission" p.name = .ok p.name :=
  names_find_rows administration_namesSound
    (asked_reachable administration creation)

end SoulAuth.Sample
