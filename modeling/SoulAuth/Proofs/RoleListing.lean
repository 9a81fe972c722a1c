import SoulAuth.Proofs.RoleRows
import SoulAuth.Proofs.RoleViews

/-! # The permissions of many roles at once

`attach_permissions` collects the permissions of any number of roles with two
queries that compare record addresses as texts. What it fills in is what
`get_role_permissions` answers about each of the roles, sorted; but a role
whose key is written between backticks is not found again, and is left without
permissions.
-/

namespace SoulAuth

open Framework Framework.Prog

/-! ## Texts of record addresses -/

theorem writtenKey_injective : Function.Injective writtenKey := by
  intro key key' h
  unfold writtenKey at h
  have hplain : ∀ {k : Str},
      ((k.all fun c => c.isAlphanum || c = '_') && k.any Char.isAlpha) = true →
      ∀ rest : Str, k ≠ backtick :: rest := by
    intro k hk rest heq
    simp only [Bool.and_eq_true, List.all_eq_true] at hk
    have hb := hk.1 backtick (by rw [heq]; exact List.mem_cons_self)
    revert hb
    decide
  split_ifs at h with h₁ h₂ h₂
  · exact h
  · exact absurd h (hplain h₁ _)
  · exact absurd h.symm (hplain h₂ _)
  · exact List.append_cancel_right (List.cons_injective h)

theorem permissionText_injective : Function.Injective permissionText := by
  intro key key' h
  apply writtenKey_injective
  exact List.cons_injective (List.append_cancel_left h)

theorem roleText_plain {key : Str} (h : writtenKey key = key) :
    roleText key = recordAddress "role".toList key := by
  unfold roleText
  rw [h]

theorem roleText_injective : Function.Injective roleText := by
  intro key key' h
  apply writtenKey_injective
  exact List.cons_injective (List.append_cancel_left h)

/-! ## Sorted lists -/

/-- Sorting forgets the order. -/
theorem insertionSort_perm {l l' : List Str} (h : l.Perm l') :
    l.insertionSort (· ≤ ·) = l'.insertionSort (· ≤ ·) := by
  have hsorted : ∀ l : List Str, (l.insertionSort (· ≤ ·)).Pairwise (· ≤ ·) :=
    fun l => List.pairwise_insertionSort _ l
  apply List.Perm.eq_of_pairwise' (hsorted l) (hsorted l')
  exact ((List.perm_insertionSort _ l).trans h).trans (List.perm_insertionSort _ l').symm

/-! ## What the loop fills in -/

/-- The response for a role with these permissions. -/
def RoleResponse.filled (r : Role) (names : List Str) : RoleResponse :=
  { RoleResponse.of r with permissions := names.insertionSort (· ≤ ·) }

/-- The names that the map holds for a role. -/
def namesUnder (byRole : List (Str × Str)) (r : Role) : List Str :=
  (byRole.filter fun e => e.1 = recordAddress "role".toList r.key).map Prod.snd

theorem filter_other {l : List (Str × Str)} {a b : Str} (h : a ≠ b) :
    ((l.filter fun e => e.1 ≠ b).filter fun e => e.1 = a) = l.filter fun e => e.1 = a := by
  rw [List.filter_filter]
  apply List.filter_congr
  intro e _
  by_cases he : e.1 = a
  · simp [he, h]
  · simp [he]

theorem namesUnder_remaining {byRole : List (Str × Str)} {r r' : Role} (hne : r'.key ≠ r.key) :
    namesUnder (byRole.filter fun e => e.1 ≠ recordAddress "role".toList r.key) r' =
      namesUnder byRole r' := by
  have htext : recordAddress "role".toList r'.key ≠ recordAddress "role".toList r.key := by
    intro h
    exact hne (List.cons_injective (List.append_cancel_left h))
  unfold namesUnder
  rw [filter_other htext]

/-- Roles with different keys do not take names from each other. -/
theorem fillPermissions_eq {byRole : List (Str × Str)} {rs : List Role}
    (hkeys : (rs.map Role.key).Nodup) :
    fillPermissions byRole (rs.map RoleResponse.of) =
      rs.map fun r => RoleResponse.filled r (namesUnder byRole r) := by
  induction rs generalizing byRole with
  | nil => rfl
  | cons r rs ih =>
    obtain ⟨hnew, hrest⟩ := List.nodup_cons.mp hkeys
    simp only [List.map_cons, fillPermissions]
    congr 1
    · -- a role without names is left as it was, which has none either
      show (if namesUnder byRole r = [] then _ else _) = RoleResponse.filled r (namesUnder byRole r)
      by_cases hnone : namesUnder byRole r = []
      · rw [if_pos hnone, hnone]
        rfl
      · rw [if_neg hnone]
        rfl
    · -- what the first role has taken out, the others do not look for
      show fillPermissions (byRole.filter fun e => e.1 ≠ recordAddress "role".toList r.key) _ = _
      rw [ih hrest]
      apply List.map_congr_left
      intro r' hr'
      have hne : r'.key ≠ r.key := by
        intro heq
        exact hnew (heq ▸ List.mem_map_of_mem hr')
      rw [namesUnder_remaining hne]

/-! ## What the map holds -/

/-- Tables in which a role can be listed: names and record keys are distinct,
    a permission is granted to a role once and has a name, and no key of a role
    has a backtick. -/
structure RoleTables.Listable (t : RoleTables) : Prop where
  roleNames : (t.roles.map Role.name).Nodup
  permissionKeys : (t.permissions.map Permission.key).Nodup
  grants : (t.rolePermissions.map fun g => (g.roleId, g.permissionId)).Nodup
  named : ∀ p ∈ t.permissions, p.name ≠ []
  unquoted : ∀ r ∈ t.roles, backtick ∉ r.key

section

variable {t : RoleTables} {rs : List Role} {r : Role}

/-- The reply to `rbac_list_role_permission_links`. -/
def RoleTables.links (t : RoleTables) (roleTexts : List Str) : List PermissionLink :=
  (t.rolePermissions.map fun g =>
    PermissionLink.mk (roleText g.roleId) (permissionText g.permissionId)).filter
      fun link => link.roleId ∈ roleTexts

/-- The reply to `rbac_list_permission_names`. -/
def RoleTables.namedIn (t : RoleTables) (texts : List Str) : List NamedPermission :=
  (t.permissions.map fun p => NamedPermission.mk (permissionText p.key) p.name).filter
    fun p => p.id ∈ texts

/-- The name of the permission that a row of `role_permission` refers to. -/
def RoleTables.nameGranted (t : RoleTables) (g : RolePermission) : Option Str :=
  (t.permissions.find? fun p => p.key = g.permissionId).map Permission.name

/-- The look-up in the map of names. -/
theorem nameGranted_eq (ht : t.Listable) {texts : List Str} {g : RolePermission}
    (hg : permissionText g.permissionId ∈ texts) :
    ((t.namedIn texts).reverse.find? fun p => p.id = permissionText g.permissionId).map
      NamedPermission.name = t.nameGranted g := by
  unfold RoleTables.nameGranted
  rcases hfound : t.permissions.find? fun p => p.key = g.permissionId with _ | p
  · -- no row has the key, so none has its text
    have hnone : ((t.namedIn texts).reverse.find? fun p =>
        p.id = permissionText g.permissionId) = none := by
      apply List.find?_eq_none.mpr
      intro n hn
      obtain ⟨hn, -⟩ := List.mem_filter.mp (List.mem_reverse.mp hn)
      obtain ⟨p, hp, rfl⟩ := List.mem_map.mp hn
      have hkey := List.find?_eq_none.mp hfound p hp
      intro htext
      exact hkey (decide_eq_true (permissionText_injective (of_decide_eq_true htext)))
    rw [hnone, hfound]
    rfl
  · have hp := List.mem_of_find?_eq_some hfound
    have hfirst := List.find?_some hfound
    have hkey : p.key = g.permissionId := of_decide_eq_true hfirst
    have hnodup : ((t.namedIn texts).reverse.map NamedPermission.id).Nodup := by
      rw [List.map_reverse, List.nodup_reverse]
      apply List.Nodup.sublist (List.filter_sublist.map _)
      rw [List.map_map]
      have hmap := ht.permissionKeys.map permissionText_injective
      rw [List.map_map] at hmap
      exact hmap
    have hmem : NamedPermission.mk (permissionText p.key) p.name ∈ (t.namedIn texts).reverse := by
      apply List.mem_reverse.mpr
      apply List.mem_filter.mpr
      refine ⟨List.mem_map_of_mem hp, decide_eq_true ?_⟩
      show permissionText p.key ∈ texts
      rw [hkey]
      exact hg
    have hfind := KeyedTable.rowAt_of_mem hnodup hmem
    rw [hfound, ← hkey]
    exact congrArg (Option.map NamedPermission.name) hfind

/-- The names of the permissions of a role, in the order of the grants. -/
def RoleTables.linkedNames (t : RoleTables) (r : Role) : List Str :=
  (t.rolePermissions.filter fun g => g.roleId = r.key).filterMap t.nameGranted

/-- What the map holds for a role that was asked for. -/
theorem namesUnder_links (ht : t.Listable) {roleTexts texts : List Str}
    (hr : writtenKey r.key = r.key) (hasked : recordAddress "role".toList r.key ∈ roleTexts)
    (htexts : ∀ link ∈ t.links roleTexts, link.permissionId ∈ texts) :
    namesUnder (namesByRole (t.links roleTexts) (t.namedIn texts)) r = t.linkedNames r := by
  rw [← roleText_plain hr] at hasked
  unfold namesUnder namesByRole RoleTables.linkedNames RoleTables.links
  rw [← roleText_plain hr, List.filter_filterMap, List.map_filterMap, List.filterMap_filter,
    List.filterMap_filter, List.filterMap_map]
  apply List.filterMap_congr
  intro g hg
  -- grant by grant, both sides keep the name or leave it out
  by_cases hrole : g.roleId = r.key
  · have hin : roleText g.roleId ∈ roleTexts := by rw [hrole]; exact hasked
    have hlink : PermissionLink.mk (roleText g.roleId) (permissionText g.permissionId) ∈
        t.links roleTexts :=
      List.mem_filter.mpr ⟨List.mem_map_of_mem hg, decide_eq_true hin⟩
    have hname := nameGranted_eq ht (htexts _ hlink)
    show (if decide (roleText g.roleId ∈ roleTexts) = true then _ else none) = _
    rw [if_pos (decide_eq_true hin), if_pos (decide_eq_true hrole), ← hname]
    show ((((t.namedIn texts).reverse.find? fun p => p.id = permissionText g.permissionId).map
      fun p => (roleText g.roleId, p.name)).filter fun e => e.1 = roleText r.key).map Prod.snd = _
    rw [hrole]
    cases (t.namedIn texts).reverse.find? fun p => p.id = permissionText g.permissionId with
    | none => rfl
    | some p => simp
  · have hother : roleText g.roleId ≠ roleText r.key := fun h => hrole (roleText_injective h)
    show (if decide (roleText g.roleId ∈ roleTexts) = true then
      ((((t.namedIn texts).reverse.find? fun p => p.id = permissionText g.permissionId).map
        fun p => (roleText g.roleId, p.name)).filter fun e => e.1 = roleText r.key).map Prod.snd
      else none) = _
    rw [if_neg fun h => hrole (of_decide_eq_true h)]
    cases (t.namedIn texts).reverse.find? fun p => p.id = permissionText g.permissionId with
    | none => simp
    | some p => simp [hother]

/-- The address of a role whose key is quoted is no text of a link. -/
theorem roleText_ne_of_quoted {key : Str} (hquoted : writtenKey r.key ≠ r.key)
    (hkey : backtick ∉ r.key) : roleText key ≠ recordAddress "role".toList r.key := by
  intro htext
  have hwritten : writtenKey key = r.key :=
    List.cons_injective (List.append_cancel_left htext)
  unfold writtenKey at hwritten
  split at hwritten
  · next hplain =>
    rw [hwritten] at hplain
    exact hquoted (if_pos hplain)
  · rw [← hwritten] at hkey
    exact hkey List.mem_cons_self

/-- The map holds nothing for a role whose key is quoted. -/
theorem namesUnder_quoted {roleTexts texts : List Str} (hquoted : writtenKey r.key ≠ r.key)
    (hkey : backtick ∉ r.key) :
    namesUnder (namesByRole (t.links roleTexts) (t.namedIn texts)) r = [] := by
  apply List.map_eq_nil_iff.mpr
  apply List.filter_eq_nil_iff.mpr
  intro e he haddress
  obtain ⟨link, hlink, hname⟩ := List.mem_filterMap.mp he
  obtain ⟨p, -, rfl⟩ := Option.map_eq_some_iff.mp hname
  obtain ⟨g, -, rfl⟩ := List.mem_map.mp (List.mem_of_mem_filter hlink)
  exact roleText_ne_of_quoted hquoted hkey (of_decide_eq_true haddress)

/-- The permission with a key. -/
theorem find?_permission_iff (ht : t.Listable) {key : Str} {p : Permission} :
    (t.permissions.find? fun q => q.key = key) = some p ↔ p ∈ t.permissions ∧ p.key = key := by
  constructor
  · intro h
    have hfirst := List.find?_some h
    exact ⟨List.mem_of_find?_eq_some h, of_decide_eq_true hfirst⟩
  · intro h
    rw [← h.2]
    exact KeyedTable.rowAt_of_mem ht.permissionKeys h.1

/-- A permission is granted to a role once. -/
theorem grantedKeys_nodup (ht : t.Listable) :
    ((t.rolePermissions.filter fun g => g.roleId = r.key).map
      RolePermission.permissionId).Nodup := by
  apply List.Nodup.of_map fun key => (r.key, key)
  have hpairs : ((t.rolePermissions.filter fun g => g.roleId = r.key).map
      RolePermission.permissionId).map (fun key => (r.key, key)) =
      (t.rolePermissions.filter fun g => g.roleId = r.key).map
        fun g => (g.roleId, g.permissionId) := by
    rw [List.map_map]
    apply List.map_congr_left
    intro g hg
    have hrole : g.roleId = r.key := of_decide_eq_true (List.mem_filter.mp hg).2
    show (r.key, g.permissionId) = (g.roleId, g.permissionId)
    rw [hrole]
  rw [hpairs]
  exact ht.grants.sublist (List.filter_sublist.map _)

/-- The two ways to the names of a role lead to the same ones: along the
    grants, and through the permissions that are granted. -/
theorem linkedNames_perm (ht : t.Listable) : (t.linkedNames r).Perm (t.permissionNamesOf r) := by
  let keys := (t.rolePermissions.filter fun g => g.roleId = r.key).map RolePermission.permissionId
  have hrows : (keys.filterMap fun key => t.permissions.find? fun p => p.key = key).Perm
      (t.permissions.filter fun p => p.key ∈ keys) := by
    -- neither list has a row twice, so that it is enough to compare members
    apply (List.perm_ext_iff_of_nodup _ _).mpr
    · intro p
      constructor
      · intro h
        obtain ⟨key, hkey, hfound⟩ := List.mem_filterMap.mp h
        obtain ⟨hp, rfl⟩ := (find?_permission_iff ht).mp hfound
        exact List.mem_filter.mpr ⟨hp, decide_eq_true hkey⟩
      · intro h
        obtain ⟨hp, hkey⟩ := List.mem_filter.mp h
        exact List.mem_filterMap.mpr
          ⟨p.key, of_decide_eq_true hkey, (find?_permission_iff ht).mpr ⟨hp, rfl⟩⟩
    · apply List.Nodup.filterMap _ (grantedKeys_nodup ht)
      intro key key' p hkey hkey'
      have h := ((find?_permission_iff ht).mp hkey).2
      have h' := ((find?_permission_iff ht).mp hkey').2
      exact h.symm.trans h'
    · exact ht.permissionKeys.of_map.filter _
  have hlinked : t.linkedNames r =
      (keys.filterMap fun key => t.permissions.find? fun p => p.key = key).map Permission.name := by
    unfold RoleTables.linkedNames RoleTables.nameGranted
    rw [List.map_filterMap, List.filterMap_map]
    rfl
  have hnamed : t.permissionNamesOf r =
      (t.permissions.filter fun p => p.key ∈ keys).map Permission.name := by
    apply List.filter_eq_self.mpr
    intro name hname
    obtain ⟨p, hp, rfl⟩ := List.mem_map.mp hname
    exact decide_eq_true (ht.named p (List.mem_of_mem_filter hp))
  rw [hlinked, hnamed]
  exact hrows.map _

end

variable [Platform]

/-! ## The two reads, run alone -/

section

variable {w : World × RoleTables} {rs : List Role}

omit [Platform]

/-- The texts under which the links of the roles are asked for. -/
def roleTextsOf (rs : List Role) : List Str :=
  (rs.map RoleResponse.of).map fun role => recordAddress "role".toList role.id

/-- The texts under which the names are asked for. -/
def permissionTextsOf (links : List PermissionLink) : List Str :=
  dedup ((links.map PermissionLink.permissionId).insertionSort (· ≤ ·))

theorem mem_roleTextsOf {r : Role} (hr : r ∈ rs) :
    recordAddress "role".toList r.key ∈ roleTextsOf rs :=
  List.mem_map.mpr ⟨.of r, List.mem_map_of_mem hr, rfl⟩

theorem mem_permissionTextsOf {links : List PermissionLink} {link : PermissionLink}
    (h : link ∈ links) : link.permissionId ∈ permissionTextsOf links :=
  mem_dedup.mpr ((List.mem_insertionSort _).mpr (List.mem_map_of_mem h))

/-- The names that are filled in about a role. -/
def RoleTables.attachedNames (t : RoleTables) (r : Role) : List Str :=
  if writtenKey r.key = r.key then t.permissionNamesOf r else []

/-- What is filled in about a role is the sorted list of these names. -/
theorem filled_eq (ht : w.2.Listable) (hrs : ∀ r ∈ rs, r ∈ w.2.roles) {r : Role} (hr : r ∈ rs) :
    RoleResponse.filled r (namesUnder (namesByRole (w.2.links (roleTextsOf rs))
      (w.2.namedIn (permissionTextsOf (w.2.links (roleTextsOf rs))))) r) =
      RoleResponse.filled r (w.2.attachedNames r) := by
  unfold RoleResponse.filled RoleTables.attachedNames
  by_cases hplain : writtenKey r.key = r.key
  · rw [if_pos hplain, namesUnder_links ht hplain (mem_roleTextsOf hr)
      fun _ => mem_permissionTextsOf, insertionSort_perm (linkedNames_perm ht)]
  · rw [if_neg hplain, namesUnder_quoted hplain (ht.unquoted r (hrs r hr))]

/-- Without a link there is nothing to fill in. -/
theorem filled_of_no_links (ht : w.2.Listable) (hrs : ∀ r ∈ rs, r ∈ w.2.roles)
    (hlinks : w.2.links (roleTextsOf rs) = []) {r : Role} (hr : r ∈ rs) :
    RoleResponse.of r = RoleResponse.filled r (w.2.attachedNames r) := by
  rw [← filled_eq ht hrs hr, hlinks]
  rfl

end

/-- **One listing of many roles.** While nothing fails, `attach_permissions`
    answers about any number of roles, with two queries, what
    `get_role_permissions` answers about each of them, in sorted order; a role
    whose key is written between backticks it leaves without permissions. -/
theorem attached_permissions_agree {w : World × RoleTables} (ht : w.2.Listable) {rs : List Role}
    (hkeys : (rs.map Role.key).Nodup) (hrs : ∀ r ∈ rs, r ∈ w.2.roles) :
    ∃ names : Role → List Str,
      (∀ r ∈ rs, Yields (getRolePermissions r.name) w (names r)) ∧
      Yields (attachPermissions (rs.map RoleResponse.of)) w
        (rs.map fun r =>
          RoleResponse.filled r (if writtenKey r.key = r.key then names r else [])) := by
  refine ⟨w.2.permissionNamesOf, ?_, ?_⟩
  · intro r hr
    exact yields_getRolePermissions ht.roleNames (hrs r hr)
  · show Yields _ w (rs.map fun r => RoleResponse.filled r (w.2.attachedNames r))
    unfold attachPermissions
    by_cases hnone : rs.map RoleResponse.of = []
    · rw [if_pos hnone]
      obtain rfl : rs = [] := List.map_eq_nil_iff.mp hnone
      exact yields_pure
    · rw [if_neg hnone]
      apply yields_view.bind
      show Yields (if w.2.links (roleTextsOf rs) = [] then _ else _) w _
      by_cases hlinks : w.2.links (roleTextsOf rs) = []
      · -- without a link the second query is not sent
        rw [if_pos hlinks]
        have hsame : rs.map RoleResponse.of =
            rs.map fun r => RoleResponse.filled r (w.2.attachedNames r) :=
          List.map_congr_left fun r hr => filled_of_no_links ht hrs hlinks hr
        rw [hsame]
        exact yields_pure
      · rw [if_neg hlinks]
        apply yields_view.bind
        show Yields (pure (fillPermissions (namesByRole (w.2.links (roleTextsOf rs))
          (w.2.namedIn (permissionTextsOf (w.2.links (roleTextsOf rs)))))
          (rs.map RoleResponse.of))) w _
        rw [fillPermissions_eq hkeys, List.map_congr_left fun r hr => filled_eq ht hrs hr]
        exact yields_pure

end SoulAuth

namespace SoulAuth.Sample

open Framework Framework.Prog

/-- The same role under a key of digits. -/
def counted : Role := { editors with key := "123".toList, name := "Counted".toList }

/-- Two roles with one permission. -/
def listed : RoleTables where
  roles := [editors, counted]
  permissions := [publishing]
  userRoles := []
  rolePermissions := [⟨editors.key, publishing.key, 0, "system".toList⟩,
    ⟨counted.key, publishing.key, 0, "system".toList⟩]
  claim := none

theorem listed_listable : listed.Listable where
  roleNames := by decide
  permissionKeys := by decide
  grants := by decide
  named := by decide
  unquoted := by decide

/-- One of them is listed without its permission. -/
theorem attached_permissions_agree_listed :
    Yields (getRolePermissions editors.name) ((after prelude).state, listed) [publishing.name] ∧
    Yields (getRolePermissions counted.name) ((after prelude).state, listed) [publishing.name] ∧
    Yields (attachPermissions [.of editors, .of counted]) ((after prelude).state, listed)
      [.filled editors [publishing.name], .filled counted []] := by
  obtain ⟨names, hnames, hattached⟩ :=
    attached_permissions_agree (w := ((after prelude).state, listed)) listed_listable
      (show (listed.roles.map Role.key).Nodup by decide) fun _ hr => hr
  have hfirst := hnames editors (by decide)
  have hsecond := hnames counted (by decide)
  have heditors : names editors = [publishing.name] := hfirst.eq_of_run (by decide +kernel)
  have hcounted : names counted = [publishing.name] := hsecond.eq_of_run (by decide +kernel)
  rw [heditors] at hfirst
  rw [hcounted] at hsecond
  have hlisted : (listed.roles.map fun r =>
      RoleResponse.filled r (if writtenKey r.key = r.key then names r else [])) =
      [.filled editors [publishing.name], .filled counted []] := by
    have hbare : writtenKey editors.key = editors.key := by decide
    have hquoted : writtenKey counted.key ≠ counted.key := by decide
    show [RoleResponse.filled editors _, RoleResponse.filled counted _] = _
    rw [if_pos hbare, if_neg hquoted, heditors]
  rw [hlisted] at hattached
  exact ⟨hfirst, hsecond, hattached⟩

end SoulAuth.Sample
