import SoulAuth.Framework.KeyedTable
import SoulAuth.Proofs.Tables

/-! # Concurrent updates of the account row

Most operations write the whole row of an account back. What such a write
does to a field that the operation is not about depends on one thing only:
whether the field still has the value that the operation has read.
-/

namespace SoulAuth

open Framework Framework.System

/-- The row under a key. -/
abbrev userAt (key : Str) (t : List User) : Option User := KeyedTable.rowAt User.key key t

namespace UserField

variable {F : UserField} {u v x : User}

theorem Same.refl (F : UserField) (u : User) : F.Same u u := by
  cases F with
  | accountStatus | verified => exact rfl
  | verificationToken | membership => exact ⟨rfl, rfl⟩

theorem Same.symm (h : F.Same u v) : F.Same v u := by
  cases F with
  | accountStatus | verified => exact Eq.symm h
  | verificationToken | membership => exact ⟨h.1.symm, h.2.symm⟩

theorem Same.trans (h : F.Same u v) (h' : F.Same v x) : F.Same u x := by
  cases F with
  | accountStatus | verified => exact Eq.trans h h'
  | verificationToken | membership => exact ⟨h.1.trans h'.1, h.2.trans h'.2⟩

/-- The key of a row is none of the fields. -/
theorem Same.with_key (h : F.Same u v) (key : Str) : F.Same { u with key := key } v := by
  cases F <;> exact h

end UserField

section

variable [Platform] {w : World} {e : Entry machine} {F : UserField}

/-- No row loses its value of the field. -/
def Kept (F : UserField) (e : Entry machine) : Prop :=
  ∀ key u v, userAt key e.before.db.users = some u → userAt key e.after.db.users = some v →
    F.Same v u

/-- The entry replaces the row under a key. -/
structure Overwrites (key : Str) (content : User) (e : Entry machine) : Prop where
  stmt : e.stmt = .db (.identity (.user (.update key content)))
  after : e.after.db.users =
    e.before.db.users.map fun u => if u.key = key then { content with key := key } else u

/-- A row that the entry replaces has kept the field since the request,
    which has done `h`, has read it. -/
def StillAsRead (F : UserField) (h : List (Entry machine)) (e : Entry machine) : Prop :=
  ∀ key content read stored, Overwrites key content e → lastUserRead h = some read →
    userAt key e.before.db.users = some stored → F.Same read stored

/-- The same of the row under one key. -/
def KeptAt (F : UserField) (key : Str) (e : Entry machine) : Prop :=
  ∀ u v, userAt key e.before.db.users = some u → userAt key e.after.db.users = some v → F.Same v u

def StillAsReadAt (F : UserField) (key : Str) (h : List (Entry machine)) (e : Entry machine) :
    Prop :=
  ∀ content read stored, Overwrites key content e → lastUserRead h = some read →
    userAt key e.before.db.users = some stored → F.Same read stored

omit [Platform] in
theorem userAt_map {t : List User} {f : User → User} (hf : ∀ u, (f u).key = u.key) {key : Str}
    {u v : User} (hu : userAt key t = some u) (hv : userAt key (t.map f) = some v) : v = f u := by
  rw [userAt, KeyedTable.rowAt_map fun u _ => hf u] at hv
  rw [userAt] at hu
  rw [hu] at hv
  exact (Option.some.inj hv).symm

theorem Overwrites.userAt {key : Str} {content : User} (h : Overwrites key content e)
    {stored : User} (hstored : userAt key e.before.db.users = some stored) :
    SoulAuth.userAt key e.after.db.users = some { content with key := key } := by
  have hkeys : ∀ u : User, (if u.key = key then { content with key := key } else u).key = u.key := by
    intro u
    split
    · next hu => exact hu.symm
    · rfl
  have hkey : stored.key = key := KeyedTable.key_of_rowAt hstored
  rw [h.after, SoulAuth.userAt, KeyedTable.rowAt_map fun u _ => hkeys u]
  rw [SoulAuth.userAt] at hstored
  rw [hstored, Option.map_some, if_pos hkey]

omit [Platform] in
/-- Only the link of an email verification claims a verification token. -/
theorem claims_of_effects {ep : Endpoint} (h : .claimVerification ∈ ep.effects) :
    ∃ token ip, ep = .verifyEmail token ip := by
  cases ep with
  | verifyEmail token ip => exact ⟨token, ip, rfl⟩
  | _ => simp [Endpoint.effects] at h

omit [Platform] in
/-- Only the administration of accounts sets their status. -/
theorem setsStatus_of_effects {ep : Endpoint} (h : .setAccountStatus ∈ ep.effects) :
    ∃ userId status, ep = .updateAccountStatus userId status := by
  cases ep with
  | updateAccountStatus userId status => exact ⟨userId, status, rfl⟩
  | _ => simp [Endpoint.effects] at h

/-- A write of the whole row keeps a field exactly if it still is as read. -/
theorem keptAt_of_update {r : Call} {h : List (Entry machine)} {k key : Str} {content : User}
    (hwrites : WritesBack r h key content) (hF : r.endpoint.sets F = false)
    (hover : Overwrites key content e) (hfresh : StillAsReadAt F k h e) : KeptAt F k e := by
  obtain ⟨read, hread, -, -, hsame⟩ := hwrites.from_read
  intro u v hu hv
  by_cases hk : k = key
  · -- the row that is replaced
    subst hk
    have hcontent : F.Same { content with key := k } u :=
      ((hsame F hF).trans (hfresh content read u hover hread hu)).with_key k
    rw [hover.userAt hu] at hv
    obtain rfl := Option.some.inj hv
    exact hcontent
  · have hkey : u.key = k := KeyedTable.key_of_rowAt hu
    have hv' : v = if u.key = key then { content with key := key } else u := by
      apply @userAt_map _ _ _ k _ _ hu
      · rw [← hover.after]
        exact hv
      · intro u'
        split
        · next hu' => exact hu'.symm
        · rfl
    rw [hv', if_neg (hkey ▸ hk)]
    exact UserField.Same.refl F u

/-- A write that keeps a field has found it as the request had read it. -/
theorem stillAsRead_of_kept {r : Call} {h : List (Entry machine)}
    (hconduct : Conducted r h e) (hF : r.endpoint.sets F = false) (hkept : Kept F e) :
    StillAsRead F h e := by
  intro key content read stored hover hread hstored
  have hwrites : WritesBack r h key content := by
    unfold Conducted at hconduct
    rw [hover.stmt] at hconduct
    exact hconduct
  obtain ⟨u, hu, -, -, hsame⟩ := hwrites.from_read
  obtain rfl := Option.some.inj (hu.symm.trans hread)
  have hafter := hkept key stored _ hstored (hover.userAt hstored)
  have hcontent : F.Same { content with key := key } u := (hsame F hF).with_key key
  exact hcontent.symm.trans hafter

theorem kept_of_same (h : e.after.db.users = e.before.db.users) : Kept F e := by
  intro key u v hu hv
  rw [h, hu] at hv
  obtain rfl := Option.some.inj hv
  exact UserField.Same.refl F u

/-- A statement that keeps the field in every row it writes. -/
theorem kept_of_map {f : User → User} (h : e.after.db.users = e.before.db.users.map f)
    (hkey : ∀ u, (f u).key = u.key) (hsame : ∀ u, F.Same (f u) u) : Kept F e := by
  intro key u v hu hv
  rw [h] at hv
  rw [userAt_map hkey hu hv]
  exact hsame u

theorem keptAt_of_userStmt {r : Call} {h : List (Entry machine)} {k : Str}
    (hconduct : Conducted r h e) (hwithin : e.stmt.Within r.endpoint.effects)
    (hF : r.endpoint.sets F = false) (hfresh : StillAsReadAt F k h e) {s : UserStmt}
    (hs : e.stmt = .db (.identity (.user s)))
    (hafter : e.after.db.users = (s.exec e.before.db.users).2) : KeptAt F k e := by
  cases s with
  | update key content =>
    have hwrites : WritesBack r h key content := by
      unfold Conducted at hconduct
      rw [hs] at hconduct
      exact hconduct
    -- a write that is refused changes nothing
    simp only [UserStmt.exec] at hafter
    split at hafter
    · split at hafter
      · exact kept_of_same hafter k
      · split at hafter
        · exact kept_of_same hafter k
        · exact keptAt_of_update hwrites hF ⟨hs, hafter⟩ hfresh
    · exact kept_of_same hafter k
  | claimVerification tokenHash now =>
    obtain ⟨token, ip, hep⟩ := claims_of_effects (hwithin .claimVerification (by rw [hs]; rfl))
    rw [hep] at hF
    apply kept_of_map hafter _ _ k
    · intro u
      split <;> rfl
    · intro u
      cases F with
      | verified | verificationToken => cases hF
      | accountStatus => show (if _ then _ else _ : User).accountStatus = _; split <;> rfl
      | membership => split <;> exact ⟨rfl, rfl⟩
  | setAccountStatus key status now =>
    obtain ⟨userId, status', hep⟩ := setsStatus_of_effects (hwithin .setAccountStatus (by rw [hs]; rfl))
    rw [hep] at hF
    apply kept_of_map hafter _ _ k
    · intro u
      split <;> rfl
    · intro u
      cases F with
      | accountStatus => cases hF
      | verified => show (if _ then _ else _ : User).verified = _; split <;> rfl
      | verificationToken | membership => split <;> exact ⟨rfl, rfl⟩
  | _ => exact kept_of_same hafter k

/-- An entry of an operation that does not set the field keeps it in the row
    under a key, if that row still has the value that the operation has
    read. -/
theorem keptAt_of_fresh {r : Call} {h : List (Entry machine)} {k : Str}
    (hconduct : Conducted r h e) (hwithin : e.stmt.Within r.endpoint.effects)
    (hF : r.endpoint.sets F = false) (hfresh : StillAsReadAt F k h e) : KeptAt F k e := by
  rcases users_after e with hsame | ⟨s, hs, hafter⟩ | ⟨a, -, hafter⟩
  · exact kept_of_same hsame k
  · exact keptAt_of_userStmt hconduct hwithin hF hfresh hs hafter
  · -- a new row stands behind the others
    intro u v hu hv
    rw [hafter, userAt, KeyedTable.rowAt, List.find?_append] at hv
    rw [userAt, KeyedTable.rowAt] at hu
    rw [hu] at hv
    obtain rfl := Option.some.inj hv
    exact UserField.Same.refl F u

/-- **What an entry does to a field.** An entry of an operation that does
    not set the field keeps it exactly if a row that it replaces still has
    the value that the operation has read. -/
theorem kept_iff {r : Call} {h : List (Entry machine)} (hconduct : Conducted r h e)
    (hwithin : e.stmt.Within r.endpoint.effects) (hF : r.endpoint.sets F = false) :
    Kept F e ↔ StillAsRead F h e := by
  constructor
  · exact stillAsRead_of_kept hconduct hF
  · intro hfresh key
    exact keptAt_of_fresh hconduct hwithin hF (hfresh key)

/-! ## Runs -/

/-- Every operation keeps the fields that it does not set. -/
def FieldsKept (c : (server).Conf) : Prop :=
  ∀ tr₁ i e tr₂ r F, c.trace = tr₁ ++ (i, e) :: tr₂ → c.reqOf i = some r →
    r.endpoint.sets F = false → Kept F e

/-- Every operation that writes a whole row writes it over the values of
    these fields that it has read. -/
def NoStaleWrite (c : (server).Conf) : Prop :=
  ∀ tr₁ i e tr₂ r F, c.trace = tr₁ ++ (i, e) :: tr₂ → c.reqOf i = some r →
    r.endpoint.sets F = false → StillAsRead F (entriesOf (S := server) i tr₁) e

/-- **Lost updates.** In a run no operation changes a field back that it does
    not set, exactly if no operation writes a whole row in which such a field
    has changed since it read the row. -/
theorem fieldsKept_iff {c : (server).Conf} (hc : Reachable w c) :
    FieldsKept c ↔ NoStaleWrite c := by
  have hentry : ∀ tr₁ i e tr₂ r F, c.trace = tr₁ ++ (i, e) :: tr₂ → c.reqOf i = some r →
      r.endpoint.sets F = false →
      (Kept F e ↔ StillAsRead F (entriesOf (S := server) i tr₁) e) := by
    intro tr₁ i e tr₂ r F htr hr hF
    obtain ⟨r₁, hr₁, hconduct⟩ := conducted_at hc htr
    obtain rfl := Option.some.inj (hr₁.symm.trans hr)
    have hmem : (i, e) ∈ c.trace := by
      rw [htr]
      simp
    obtain ⟨r₂, hr₂, hwithin⟩ := within_at hc hmem
    obtain rfl := Option.some.inj (hr₂.symm.trans hr)
    exact kept_iff hconduct hwithin hF
  constructor
  · intro hkept tr₁ i e tr₂ r F htr hr hF
    exact (hentry tr₁ i e tr₂ r F htr hr hF).mp (hkept tr₁ i e tr₂ r F htr hr hF)
  · intro hfresh tr₁ i e tr₂ r F htr hr hF
    exact (hentry tr₁ i e tr₂ r F htr hr hF).mpr (hfresh tr₁ i e tr₂ r F htr hr hF)

end

namespace Sample

/-- Request 2 logs Alice in, up to the statement that writes her row back.
    Meanwhile request 3 suspends her account. -/
def suspendedMeanwhile : List (server).Action :=
  prelude ++ start config (.login "a@b.c".toList password "ip".toList) :: steps 2 10 ++
    start config (.updateAccountStatus alice .suspended) :: steps 3 20

/-- The statement that writes Alice's row back. -/
def writeBack : Stmt := ((after suspendedMeanwhile).upcoming 2).getD .now

def writeBackEntry : Entry machine := ⟨.calm, writeBack, (after suspendedMeanwhile).state⟩

/-- The login makes the suspended account active again. -/
theorem suspension_lost : ¬ ∀ (w : World) (c : (server).Conf), Reachable w c → FieldsKept c := by
  intro hall
  have hupcoming : (after suspendedMeanwhile).upcoming 2 = some writeBack := by decide +kernel
  obtain ⟨tr, htr⟩ := (after suspendedMeanwhile).trace_upcoming hupcoming .calm []
  have hreach : Reachable (World.fresh 0) ((after suspendedMeanwhile).run [.step 2 .calm]) :=
    (after_reachable suspendedMeanwhile).run _
  have hreq : ((after suspendedMeanwhile).run [.step 2 .calm]).reqOf 2 =
      some ⟨config, .login "a@b.c".toList password "ip".toList⟩ := by decide +kernel
  have hkept := hall _ _ hreach _ 2 writeBackEntry tr _ .accountStatus htr hreq rfl
  have hbefore : (userAt alice writeBackEntry.before.db.users).map User.accountStatus =
      some .suspended := by decide +kernel
  have hafter : (userAt alice writeBackEntry.after.db.users).map User.accountStatus =
      some .active := by decide +kernel
  obtain ⟨u, hu, hsuspended⟩ := Option.map_eq_some_iff.mp hbefore
  obtain ⟨v, hv, hactive⟩ := Option.map_eq_some_iff.mp hafter
  have hsame : v.accountStatus = u.accountStatus := hkept alice u v hu hv
  rw [hsuspended, hactive] at hsame
  cases hsame

theorem fieldsKept_iff_suspendedMeanwhile :
    FieldsKept (after suspendedMeanwhile) ↔ NoStaleWrite (after suspendedMeanwhile) :=
  fieldsKept_iff (after_reachable suspendedMeanwhile)

end Sample

end SoulAuth
