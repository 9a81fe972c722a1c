import SoulAuth.Framework.KeyedTable
import SoulAuth.Proofs.RoleTables
import SoulAuth.Proofs.Tables

/-! # Four views of what a user may do

The purpose of the tables is a relation: a user holds a role, and a role
lists a permission. Each read of the role service computes some part of this
relation by queries of its own. Every read is compared with the relation, and
so with the others. One of them takes the keys of the roles out of texts, and
finds a role again only where its key is written as it is.
-/

namespace SoulAuth

open Framework Framework.Prog

/-! ## The relation -/

/-- The user holds the role. -/
def RoleTables.Holds (t : RoleTables) (users : List User) (userKey : Str) (r : Role) : Prop :=
  r ∈ t.roles ∧ ∃ a ∈ t.assignmentsOf users userKey, a.roleId = r.key

/-- The role lists the permission of this name. -/
def RoleTables.Lists (t : RoleTables) (r : Role) (name : Str) : Prop :=
  ∃ g ∈ t.rolePermissions, g.roleId = r.key ∧
    ∃ p ∈ t.permissions, p.key = g.permissionId ∧ p.name = name

/-- A content of the tables: record keys and the unique indexes, names that
    are not empty, and no row that refers to a missing one. -/
structure RoleTables.WellFormed (t : RoleTables) : Prop where
  roleKeys : (t.roles.map Role.key).Nodup
  roleNames : (t.roles.map Role.name).Nodup
  permissionKeys : (t.permissions.map Permission.key).Nodup
  permissionNames : (t.permissions.map Permission.name).Nodup
  userRoles : (t.userRoles.map fun a => (a.userId, a.roleId)).Nodup
  rolePermissions : (t.rolePermissions.map fun g => (g.roleId, g.permissionId)).Nodup
  namedRoles : ∀ r ∈ t.roles, r.name ≠ []
  namedPermissions : ∀ p ∈ t.permissions, p.name ≠ []
  assigned : ∀ a ∈ t.userRoles, ∃ r ∈ t.roles, r.key = a.roleId
  granted : ∀ g ∈ t.rolePermissions,
    (∃ r ∈ t.roles, r.key = g.roleId) ∧ ∃ p ∈ t.permissions, p.key = g.permissionId

/-! ## Keys as texts -/

/-- A key that is written as it is has letters, digits and underscores, and
    is not empty. -/
theorem plain_of_written {key : Str} (h : writtenKey key = key) :
    key ≠ [] ∧ ∀ c ∈ key, c.isAlphanum ∨ c = '_' := by
  unfold writtenKey at h
  split at h
  · next hplain =>
    obtain ⟨hchars, hletter⟩ := Bool.and_eq_true_iff.mp hplain
    constructor
    · intro hnil
      rw [hnil] at hletter
      cases hletter
    · intro c hc
      simpa using List.all_eq_true.mp hchars c hc
  · -- the quoted key is longer
    have hlen := congrArg List.length h
    simp only [List.length_append, List.length_cons, List.length_nil] at hlen
    omega

theorem removeRolePrefix_eq_self {fuel : Nat} {s : Str} (h : ':' ∉ s) :
    removeRolePrefix fuel s = s := by
  induction fuel generalizing s with
  | zero => rfl
  | succ fuel ih =>
    cases s with
    | nil => rfl
    | cons c s =>
      have hnone : Str.stripPrefix "role:".toList (c :: s) = none :=
        Str.stripPrefix_eq_none (d := ':') (by decide) h
      have hs : ':' ∉ s := fun hmem => h (List.mem_cons_of_mem c hmem)
      simp only [removeRolePrefix, hnone, ih hs]

/-- A plain key survives the way through a text. -/
theorem roleIdText_plain {key : Str} (h : writtenKey key = key) : roleIdText key = key := by
  obtain ⟨-, hchars⟩ := plain_of_written h
  have hcolon : ':' ∉ key := by
    intro hmem
    rcases hchars ':' hmem with halnum | hunderscore
    · exact absurd halnum (by decide)
    · exact absurd hunderscore (by decide)
  have hstrip : Str.stripPrefix "role:".toList ("role:".toList ++ key) = some key :=
    Str.stripPrefix_append _ _
  have htext : recordAddress "role".toList key = "role:".toList ++ key := rfl
  simp only [roleIdText, h, htext]
  -- the prefix is taken off once: what is left has no colon
  show removeRolePrefix (_ + 1) ('r' :: _) = key
  unfold removeRolePrefix
  split
  · next rest hrest =>
    obtain rfl : key = rest := Option.some.inj (hstrip.symm.trans hrest)
    exact removeRolePrefix_eq_self hcolon
  · next hnone => cases hstrip.symm.trans hnone

theorem trim_plain {key : Str} (h : writtenKey key = key) : Str.trim key = key := by
  apply Str.trimBoth_eq_self
  intro c hc
  rcases (plain_of_written h).2 c hc with halnum | rfl
  · exact IsKeyChar.not_whitespace (.inl halnum)
  · decide

/-! ## Counts and duplicates -/

/-- A count says whether there is a row. -/
theorem isPositive_countAll {α : Type} {rows : List α} :
    isPositive (countAll rows) = true ↔ ∃ a, a ∈ rows := by
  cases rows with
  | nil => simp [countAll, isPositive]
  | cons a rows =>
    simp only [countAll, isPositive, reduceCtorEq, if_false, Option.getD_some,
      List.length_cons, decide_eq_true_eq]
    constructor
    · intro _
      exact ⟨a, List.mem_cons_self⟩
    · intro _
      omega

theorem mem_dedup {α : Type} [DecidableEq α] {a : α} {l : List α} : a ∈ dedup l ↔ a ∈ l := by
  induction l using dedup.induct with
  | case1 => rfl
  | case2 b => rfl
  | case3 b rest ih =>
    rw [dedup, if_pos rfl, ih]
    simp
  | case4 b c rest hne ih =>
    rw [dedup, if_neg hne, List.mem_cons, List.mem_cons, ih]

/-! ## The queries and the relation -/

section

variable {t : RoleTables} {users : List User} {userKey name : Str} {r : Role}

/-- An assignment is of a role that the user holds. -/
theorem RoleTables.WellFormed.holds_of_assignment (ht : t.WellFormed) {a : UserRole}
    (ha : a ∈ t.assignmentsOf users userKey) : ∃ r, t.Holds users userKey r ∧ r.key = a.roleId := by
  obtain ⟨r, hr, hkey⟩ := ht.assigned a (List.mem_of_mem_filter ha)
  exact ⟨r, ⟨hr, a, ha, hkey.symm⟩, hkey⟩

/-- The query of `check_user_role`. -/
theorem countRole_iff :
    isPositive ((RoleView.countRole userKey name).eval users t) = true ↔
      ∃ r, t.Holds users userKey r ∧ r.name = name := by
  show isPositive (countAll _) = true ↔ _
  rw [isPositive_countAll]
  constructor
  · intro h
    obtain ⟨a, ha⟩ := h
    obtain ⟨ha, hnamed⟩ := List.mem_filter.mp ha
    obtain ⟨r, hr, hkey⟩ := List.mem_map.mp (of_decide_eq_true hnamed)
    obtain ⟨hr, hname⟩ := List.mem_filter.mp hr
    exact ⟨r, ⟨hr, a, ha, hkey.symm⟩, of_decide_eq_true hname⟩
  · intro h
    obtain ⟨r, ⟨hr, a, ha, hkey⟩, hname⟩ := h
    refine ⟨a, List.mem_filter.mpr ⟨ha, decide_eq_true (List.mem_map.mpr ⟨r, ?_, hkey.symm⟩)⟩⟩
    exact List.mem_filter.mpr ⟨hr, decide_eq_true hname⟩

/-- The query of `check_user_permission`. -/
theorem countPermission_iff (ht : t.WellFormed) :
    isPositive ((RoleView.countPermission userKey name).eval users t) = true ↔
      ∃ r, t.Holds users userKey r ∧ t.Lists r name := by
  show isPositive (countAll _) = true ↔ _
  rw [isPositive_countAll]
  constructor
  · intro h
    obtain ⟨g, hg⟩ := h
    obtain ⟨hg, hboth⟩ := List.mem_filter.mp hg
    obtain ⟨hheld, hnamed⟩ := Bool.and_eq_true_iff.mp hboth
    obtain ⟨a, ha, hrole⟩ := List.mem_map.mp (of_decide_eq_true hheld)
    obtain ⟨p, hp, hkey⟩ := List.mem_map.mp (of_decide_eq_true hnamed)
    obtain ⟨hp, hname⟩ := List.mem_filter.mp hp
    -- the query compares keys only: that there is such a role is the tables'
    obtain ⟨r, hholds, hr⟩ := ht.holds_of_assignment ha
    exact ⟨r, hholds, g, hg, (hr.trans hrole).symm, p, hp, hkey, of_decide_eq_true hname⟩
  · intro h
    obtain ⟨r, ⟨_, a, ha, hrole⟩, g, hg, hgrant, p, hp, hkey, hname⟩ := h
    refine ⟨g, List.mem_filter.mpr ⟨hg, Bool.and_eq_true_iff.mpr ⟨?_, ?_⟩⟩⟩
    · exact decide_eq_true (List.mem_map.mpr ⟨a, ha, hrole.trans hgrant.symm⟩)
    · exact decide_eq_true (List.mem_map.mpr
        ⟨p, List.mem_filter.mpr ⟨hp, decide_eq_true hname⟩, hkey⟩)

/-- The query of `get_user_permissions`. -/
theorem mem_permissionsOf (ht : t.WellFormed) :
    name ∈ (RoleView.permissionsOf userKey).eval users t ↔
      ∃ r, t.Holds users userKey r ∧ t.Lists r name := by
  constructor
  · intro h
    obtain ⟨p, hp, hname⟩ := List.mem_map.mp h
    obtain ⟨hp, hgranted⟩ := List.mem_filter.mp hp
    obtain ⟨g, hg, hkey⟩ := List.mem_map.mp (of_decide_eq_true hgranted)
    obtain ⟨hg, hheld⟩ := List.mem_filter.mp hg
    obtain ⟨a, ha, hrole⟩ := List.mem_map.mp (of_decide_eq_true hheld)
    obtain ⟨r, hholds, hr⟩ := ht.holds_of_assignment ha
    exact ⟨r, hholds, g, hg, (hr.trans hrole).symm, p, hp, hkey.symm, hname⟩
  · intro h
    obtain ⟨r, ⟨_, a, ha, hrole⟩, g, hg, hgrant, p, hp, hkey, hname⟩ := h
    refine List.mem_map.mpr ⟨p, List.mem_filter.mpr ⟨hp, decide_eq_true ?_⟩, hname⟩
    refine List.mem_map.mpr ⟨g, List.mem_filter.mpr ⟨hg, decide_eq_true ?_⟩, hkey.symm⟩
    exact List.mem_map.mpr ⟨a, ha, hrole.trans hgrant.symm⟩

/-- The names that `get_role_permissions` finds for a role. -/
def RoleTables.permissionNamesOf (t : RoleTables) (r : Role) : List Str :=
  let keys := (t.rolePermissions.filter fun g => g.roleId = r.key).map RolePermission.permissionId
  ((t.permissions.filter fun p => p.key ∈ keys).map Permission.name).filter fun name => name ≠ []

theorem mem_permissionNamesOf (ht : t.WellFormed) :
    name ∈ t.permissionNamesOf r ↔ t.Lists r name := by
  constructor
  · intro h
    obtain ⟨hmem, -⟩ := List.mem_filter.mp h
    obtain ⟨p, hp, hname⟩ := List.mem_map.mp hmem
    obtain ⟨hp, hgranted⟩ := List.mem_filter.mp hp
    obtain ⟨g, hg, hkey⟩ := List.mem_map.mp (of_decide_eq_true hgranted)
    obtain ⟨hg, hrole⟩ := List.mem_filter.mp hg
    exact ⟨g, hg, of_decide_eq_true hrole, p, hp, hkey.symm, hname⟩
  · intro h
    obtain ⟨g, hg, hrole, p, hp, hkey, hname⟩ := h
    have hne : name ≠ [] := by
      rw [← hname]
      exact ht.namedPermissions p hp
    refine List.mem_filter.mpr ⟨List.mem_map.mpr ⟨p, ?_, hname⟩, decide_eq_true hne⟩
    refine List.mem_filter.mpr ⟨hp, decide_eq_true (List.mem_map.mpr ⟨g, ?_, hkey.symm⟩)⟩
    exact List.mem_filter.mpr ⟨hg, decide_eq_true hrole⟩

end

/-! ## The reads -/

section

variable [Platform] {w : World × RoleTables}

theorem yields_findRole {r : Role} (hnames : (w.2.roles.map Role.name).Nodup)
    (hr : r ∈ w.2.roles) : Yields (findRole r.name) w r := by
  have hfind : (w.2.roles.find? fun r' => r'.name = r.name) = some r :=
    KeyedTable.rowAt_of_mem hnames hr
  apply yields_roleByName.bind
  rw [hfind]
  exact yields_orThrow

/-- `get_role_permissions` answers the names that the role lists. -/
theorem yields_getRolePermissions {r : Role} (hnames : (w.2.roles.map Role.name).Nodup)
    (hr : r ∈ w.2.roles) :
    Yields (getRolePermissions r.name) w (w.2.permissionNamesOf r) := by
  apply (yields_findRole hnames hr).bind
  apply yields_view.bind
  by_cases hnone : (RoleView.grantsOf r.key).eval w.1.db.users w.2 = []
  · -- without a grant the names are not asked for
    have hnames : w.2.permissionNamesOf r = [] := by
      have hkeys : (w.2.rolePermissions.filter fun g => g.roleId = r.key).map
          RolePermission.permissionId = [] := hnone
      simp [RoleTables.permissionNamesOf, hkeys]
    rw [if_pos hnone, hnames]
    exact yields_pure
  · rw [if_neg hnone]
    apply yields_view.bind
    exact yields_pure

/-- What `get_user_roles` answers about a role. -/
def RoleTables.listing (t : RoleTables) (rows : List UserRoleRow) (r : Role) :
    RoleWithPermissions where
  id := r.key
  name := r.name
  displayName := r.displayName
  description := r.description
  permissions := t.permissionNamesOf r
  assignedAt := dateTimeOrDefault (assignedAtOf rows r.key)

theorem yields_withPermissions (ht : w.2.WellFormed) {rows : List UserRoleRow}
    {roles : List Role} (hroles : ∀ r ∈ roles, r ∈ w.2.roles) :
    Yields (withPermissions rows roles) w (roles.map (w.2.listing rows)) := by
  induction roles with
  | nil => exact yields_pure
  | cons r roles ih =>
    obtain ⟨hr, hrest⟩ := List.forall_mem_cons.mp hroles
    apply (yields_getRolePermissions ht.roleNames hr).bind
    apply (ih hrest).bind
    exact yields_pure

omit [Platform] in
/-- The texts from which `get_user_roles` makes the keys of roles. -/
def RoleTables.roleTextsOf (t : RoleTables) (users : List User) (userKey : Str) : List Str :=
  (((RoleView.assignedTo userKey).eval users t).map fun row => Str.trim row.roleId).filter
    fun text => text ≠ []

/-- The keys of the roles that the user holds are written as they are. -/
def RoleTables.HoldsBare (t : RoleTables) (users : List User) (userKey : Str) : Prop :=
  ∀ r, t.Holds users userKey r → writtenKey r.key = r.key

omit [Platform] in
/-- The texts of the roles are their keys. -/
theorem roleTextsOf_bare {t : RoleTables} (ht : t.WellFormed) {users : List User} {userKey : Str}
    (hbare : t.HoldsBare users userKey) :
    t.roleTextsOf users userKey = (t.assignmentsOf users userKey).map UserRole.roleId := by
  have htext : ∀ a ∈ t.assignmentsOf users userKey,
      Str.trim (roleIdText a.roleId) = a.roleId ∧ a.roleId ≠ [] := by
    intro a ha
    obtain ⟨r, hr, hkey⟩ := ht.holds_of_assignment ha
    have hplain : writtenKey a.roleId = a.roleId := by
      rw [← hkey]
      exact hbare r hr
    rw [roleIdText_plain hplain]
    exact ⟨trim_plain hplain, (plain_of_written hplain).1⟩
  have hmap : ((RoleView.assignedTo userKey).eval users t).map (fun row => Str.trim row.roleId) =
      (t.assignmentsOf users userKey).map UserRole.roleId := by
    show ((t.assignmentsOf users userKey).map _).map _ = _
    rw [List.map_map]
    apply List.map_congr_left
    intro a ha
    exact (htext a ha).1
  unfold RoleTables.roleTextsOf
  rw [hmap]
  apply List.filter_eq_self.mpr
  intro text hmem
  obtain ⟨a, ha, rfl⟩ := List.mem_map.mp hmem
  exact decide_eq_true (htext a ha).2

/-- `get_user_roles` lists the roles that its texts name, each with the
    permissions that it lists. -/
theorem yields_getUserRoles (ht : w.2.WellFormed) (userId : Str) :
    ∃ rows, Yields (getUserRoles userId) w
      ((w.2.roles.filter fun r =>
        r.key ∈ w.2.roleTextsOf w.1.db.users (normalizeUserId userId)).map (w.2.listing rows)) := by
  refine ⟨(RoleView.assignedTo (normalizeUserId userId)).eval w.1.db.users w.2, ?_⟩
  apply yields_view.bind
  show Yields (if w.2.roleTextsOf w.1.db.users (normalizeUserId userId) = [] then return []
    else roleView (.rolesIn (w.2.roleTextsOf w.1.db.users (normalizeUserId userId))) >>= _) w _
  by_cases hnone : w.2.roleTextsOf w.1.db.users (normalizeUserId userId) = []
  · -- without a text no role is asked for
    rw [if_pos hnone, hnone]
    simpa using yields_pure
  · rw [if_neg hnone]
    apply yields_view.bind
    apply yields_withPermissions ht
    intro r hr
    exact List.mem_of_mem_filter hr

omit [Platform] in
/-- With keys that are written as they are, these are the roles that the user
    holds. -/
theorem mem_rolesOf_bare {t : RoleTables} (ht : t.WellFormed) {users : List User} {userKey : Str}
    (hbare : t.HoldsBare users userKey) {r : Role} :
    (r ∈ t.roles.filter fun r => r.key ∈ t.roleTextsOf users userKey) ↔
      t.Holds users userKey r := by
  rw [roleTextsOf_bare ht hbare, List.mem_filter, decide_eq_true_eq, List.mem_map]
  constructor
  · intro h
    obtain ⟨hr, a, ha, hrole⟩ := h
    exact ⟨hr, a, ha, hrole⟩
  · intro h
    obtain ⟨hr, a, ha, hrole⟩ := h
    exact ⟨hr, a, ha, hrole⟩

theorem yields_checkUserRole (userId name : Str) :
    ∃ assigned, Yields (checkUserRole userId name) w assigned ∧
      (assigned = true ↔
        ∃ r, w.2.Holds w.1.db.users (normalizeUserId userId) r ∧ r.name = name) := by
  refine ⟨_, ?_, countRole_iff⟩
  apply yields_view.bind
  exact yields_pure

theorem yields_checkUserPermission (ht : w.2.WellFormed) (userId name : Str) :
    ∃ allowed, Yields (checkUserPermission userId name) w allowed ∧
      (allowed = true ↔
        ∃ r, w.2.Holds w.1.db.users (normalizeUserId userId) r ∧ w.2.Lists r name) := by
  refine ⟨_, ?_, countPermission_iff ht⟩
  apply yields_view.bind
  exact yields_pure

theorem yields_getUserPermissions (ht : w.2.WellFormed) (userId : Str) :
    ∃ permissions, Yields (getUserPermissions userId) w permissions ∧
      ∀ name, name ∈ permissions ↔
        ∃ r, w.2.Holds w.1.db.users (normalizeUserId userId) r ∧ w.2.Lists r name := by
  refine ⟨dedup ((((RoleView.permissionsOf (normalizeUserId userId)).eval w.1.db.users
    w.2).filter fun name => name ≠ []).insertionSort (· ≤ ·)), ?_, ?_⟩
  · apply yields_view.bind
    exact yields_pure
  · intro name
    rw [mem_dedup, List.mem_insertionSort, List.mem_filter, mem_permissionsOf ht]
    constructor
    · intro h
      exact h.1
    · intro h
      obtain ⟨r, hr, hlists⟩ := h
      -- a name that is listed is not empty, so the filter keeps it
      have hnamed := hlists
      obtain ⟨_, _, _, p, hp, _, rfl⟩ := hnamed
      exact ⟨⟨r, hr, hlists⟩, decide_eq_true (ht.namedPermissions p hp)⟩

/-- **The views agree.** On every well-formed content the check of a
    permission and the list of permissions say the same about a user. Where
    the keys of the user's roles are written as they are, the list of roles
    says the same as well, and the check of a role agrees with it. -/
theorem role_views_agree (ht : w.2.WellFormed) (userId permissionName roleName : Str) :
    ∃ allowed assigned permissions roles,
      Yields (checkUserPermission userId permissionName) w allowed ∧
      Yields (checkUserRole userId roleName) w assigned ∧
      Yields (getUserPermissions userId) w permissions ∧
      Yields (getUserRoles userId) w roles ∧
      (allowed = true ↔ permissionName ∈ permissions) ∧
      (w.2.HoldsBare w.1.db.users (normalizeUserId userId) →
        (permissionName ∈ permissions ↔ ∃ role ∈ roles, permissionName ∈ role.permissions) ∧
        (assigned = true ↔ ∃ role ∈ roles, role.name = roleName)) := by
  obtain ⟨allowed, hallowed, hallows⟩ :=
    yields_checkUserPermission ht userId permissionName
  obtain ⟨assigned, hassigned, hassigns⟩ :=
    yields_checkUserRole (w := w) userId roleName
  obtain ⟨permissions, hpermissions, hmem⟩ := yields_getUserPermissions ht userId
  obtain ⟨rows, hroles⟩ := yields_getUserRoles ht userId
  refine ⟨allowed, assigned, permissions, _, hallowed, hassigned, hpermissions, hroles, ?_, ?_⟩
  · rw [hallows, hmem]
  · intro hbare
    -- the list of roles is the relation only now, since its keys come out of texts
    constructor
    · rw [hmem]
      constructor
      · intro h
        obtain ⟨r, hr, hlists⟩ := h
        exact ⟨_, List.mem_map.mpr ⟨r, (mem_rolesOf_bare ht hbare).mpr hr, rfl⟩,
          (mem_permissionNamesOf ht).mpr hlists⟩
      · intro h
        obtain ⟨role, hrole, hlists⟩ := h
        obtain ⟨r, hr, rfl⟩ := List.mem_map.mp hrole
        exact ⟨r, (mem_rolesOf_bare ht hbare).mp hr, (mem_permissionNamesOf ht).mp hlists⟩
    · rw [hassigns]
      constructor
      · intro h
        obtain ⟨r, hr, hname⟩ := h
        exact ⟨_, List.mem_map.mpr ⟨r, (mem_rolesOf_bare ht hbare).mpr hr, rfl⟩, hname⟩
      · intro h
        obtain ⟨role, hrole, hname⟩ := h
        obtain ⟨r, hr, rfl⟩ := List.mem_map.mp hrole
        exact ⟨r, (mem_rolesOf_bare ht hbare).mp hr, hname⟩

end

namespace Sample

/-- A role that may be deleted, with one permission. -/
def editors : Role :=
  ⟨"editors".toList, "Editors".toList, "Editors".toList, none, false, 0, 0⟩

def publishing : Permission where
  key := "publish".toList
  name := "press:publish".toList
  displayName := "Publish".toList
  description := none
  resource := "press".toList
  action := "publish".toList
  isSystem := false
  createdAt := 0
  updatedAt := 0

/-- Alice is an editor. -/
def editorial : RoleTables where
  roles := [editors]
  permissions := [publishing]
  userRoles := [⟨aliceActor, editors.key, 0, "system".toList⟩]
  rolePermissions := [⟨editors.key, publishing.key, 0, "system".toList⟩]
  claim := none

theorem editorial_wellFormed : editorial.WellFormed where
  roleKeys := by decide
  roleNames := by decide
  permissionKeys := by decide
  permissionNames := by decide
  userRoles := by decide
  rolePermissions := by decide
  namedRoles := by decide
  namedPermissions := by decide
  assigned := by decide
  granted := by decide

/-- The views agree about Alice: she may publish, as an editor. -/
theorem role_views_agree_alice :
    ∃ permissions roles,
      Yields (checkUserPermission alice publishing.name) ((after prelude).state, editorial)
        true ∧
      Yields (checkUserRole alice editors.name) ((after prelude).state, editorial) true ∧
      Yields (getUserPermissions alice) ((after prelude).state, editorial) permissions ∧
      Yields (getUserRoles alice) ((after prelude).state, editorial) roles ∧
      publishing.name ∈ permissions ∧ (∃ role ∈ roles, publishing.name ∈ role.permissions) ∧
      ∃ role ∈ roles, role.name = editors.name := by
  obtain ⟨allowed, assigned, permissions, roles, hallowed, hassigned, hpermissions, hroles,
    hlisted, hviews⟩ := role_views_agree (w := ((after prelude).state, editorial))
      editorial_wellFormed alice publishing.name editors.name
  have hbare : editorial.HoldsBare (after prelude).state.db.users (normalizeUserId alice) := by
    intro r hr
    obtain rfl := List.mem_singleton.mp hr.1
    decide
  obtain rfl : allowed = true := hallowed.eq_of_run (by decide +kernel)
  obtain rfl : assigned = true := hassigned.eq_of_run (by decide +kernel)
  have hmay := hlisted.mp rfl
  exact ⟨permissions, roles, hallowed, hassigned, hpermissions, hroles, hmay,
    (hviews hbare).1.mp hmay, (hviews hbare).2.mp rfl⟩

/-- The same role under a key of digits. -/
def numberedEditors : Role := { editors with key := "123".toList }

/-- Alice has that role. -/
def numberedEditorial : RoleTables where
  roles := [numberedEditors]
  permissions := [publishing]
  userRoles := [⟨aliceActor, numberedEditors.key, 0, "system".toList⟩]
  rolePermissions := [⟨numberedEditors.key, publishing.key, 0, "system".toList⟩]
  claim := none

theorem numberedEditorial_wellFormed : numberedEditorial.WellFormed where
  roleKeys := by decide
  roleNames := by decide
  permissionKeys := by decide
  permissionNames := by decide
  userRoles := by decide
  rolePermissions := by decide
  namedRoles := by decide
  namedPermissions := by decide
  assigned := by decide
  granted := by decide

theorem numberedEditorial_alphanum :
    ∀ r ∈ numberedEditorial.roles, r.key ≠ [] ∧ ∀ c ∈ r.key, c.isAlphanum = true := by
  intro r hr
  obtain rfl := List.mem_singleton.mp hr
  exact ⟨by decide, Str.forall_mem_of_all (by decide)⟩

/-- A key of digits is quoted in a text, and the list of roles leaves the role
    out that the check finds. -/
theorem role_views_differ :
    ¬ ∀ w : World × RoleTables, w.2.WellFormed →
      (∀ r ∈ w.2.roles, r.key ≠ [] ∧ ∀ c ∈ r.key, c.isAlphanum = true) →
      ∀ userId permissionName roleName : Str, ∃ allowed assigned permissions roles,
        Yields (checkUserPermission userId permissionName) w allowed ∧
        Yields (checkUserRole userId roleName) w assigned ∧
        Yields (getUserPermissions userId) w permissions ∧
        Yields (getUserRoles userId) w roles ∧
        (allowed = true ↔ permissionName ∈ permissions) ∧
        (permissionName ∈ permissions ↔ ∃ role ∈ roles, permissionName ∈ role.permissions) ∧
        (assigned = true ↔ ∃ role ∈ roles, role.name = roleName) := by
  intro h
  obtain ⟨allowed, assigned, permissions, roles, -, hassigned, -, hroles, -, -, hviews⟩ :=
    h ((after prelude).state, numberedEditorial) numberedEditorial_wellFormed
      numberedEditorial_alphanum alice publishing.name editors.name
  obtain rfl : assigned = true := hassigned.eq_of_run (by decide +kernel)
  obtain rfl : roles = [] := hroles.eq_of_run (by decide +kernel)
  obtain ⟨role, hrole, -⟩ := hviews.mp rfl
  exact absurd hrole List.not_mem_nil

end Sample

end SoulAuth
