import SoulAuth.Proofs.StatusSync

/-! # Passwords of deleted accounts

The deletion of an account sets its status first and revokes its password
later. A request that stores a password looks at the account before, if at
all: one that has seen the account before it was deleted can store its
password after the revocation, which makes the revoked credential active
again. One that looks later is refused.
-/

namespace SoulAuth

open Framework Framework.System

section

variable [Platform]

/-- At this place of the trace request `k` marks the account as deleted. -/
def DeletesAt (c : (server).Conf) (k n : Nat) (key : Str) : Prop :=
  ∃ e t, c.trace[n]? = some (k, e) ∧
    Executes (.identity (.user (.setAccountStatus key .deleted t))) e

/-- At this place of the trace request `k` revokes the password. -/
def RevokesAt (c : (server).Conf) (k n : Nat) (actorKey : Str) : Prop :=
  ∃ e t, c.trace[n]? = some (k, e) ∧ Executes (.identity (.credential (.revoke actorKey t))) e

/-- The entry stores a password for the actor. -/
def Stores (actorKey : Str) (e : Entry machine) : Prop :=
  ∃ s, Executes s e ∧ (Stmt.db s).storesFor = some actorKey

/-- The entry writes the row of the user back. -/
def Replaces (key : Str) (e : Entry machine) : Prop :=
  ∃ content, Executes (.identity (.user (.update key content))) e

/-- The request has read the row of the user at a place before `m`. -/
def HadRead (c : (server).Conf) (j m : Nat) (key : Str) : Prop :=
  ∃ n e v, n < m ∧ c.trace[n]? = some (j, e) ∧ userReadBy e = some v ∧ v.key = key

/-- The row that the request has read is older than the write at `m`: it was
    read before, or after a request that had read it before has written it
    back. -/
def StaleRead (c : (server).Conf) (j m : Nat) (key : Str) : Prop :=
  HadRead c j m key ∨ ∃ n n' i e e' v, m < n' ∧ n' < n ∧ c.trace[n]? = some (j, e) ∧
    userReadBy e = some v ∧ v.key = key ∧ c.trace[n']? = some (i, e') ∧ Replaces key e' ∧
    HadRead c i m key

/-- After the deletion no request sets the account to another status. -/
def StaysDeleted (c : (server).Conf) (k : Nat) (key : Str) : Prop :=
  ∀ m n j e status t, DeletesAt c k m key → m < n → c.trace[n]? = some (j, e) →
    Executes (.identity (.user (.setAccountStatus key status t))) e → status = .deleted

/-- After the revocation no password is stored by a reset that has read the
    account as it was before the deletion, nor by an initialization. -/
structure StoresInTime (c : (server).Conf) (k : Nat) (key actorKey : Str) : Prop where
  reset : ∀ m p n j e, DeletesAt c k m key → RevokesAt c k p actorKey → m < p → p < n →
    c.trace[n]? = some (j, e) → Stores actorKey e → ¬ StaleRead c j m key
  initialized : ∀ p n j e cfg userId pw, RevokesAt c k p actorKey → p < n →
    c.trace[n]? = some (j, e) → Stores actorKey e →
    c.reqOf j ≠ some ⟨cfg, .initializePassword userId pw⟩

/-- The actor has no active password. -/
def NoPassword (actorKey : Str) (db : Db) : Prop :=
  ∀ x ∈ db.identity.credentials, x.actorIdentityId = actorKey → x.status ≠ .active

section

variable {now : Timestamp} {c : (server).Conf} {key actorKey : Str} {i j k m n p : Nat}
  {e e' : Entry machine} {u v : User} {r : Call}

/-! ## The account stays deleted -/

theorem Answered.userReadBy {email : Str}
    (h : Answered (.identity (.user (.findByEmail email))) (some v) e) :
    SoulAuth.userReadBy e = some v := by
  obtain ⟨ctx, s, w⟩ := e
  have hs := h.stmt
  have hf := h.sound
  have hreply := h.reply
  simp only [DbStmt.exec, IdentityStmt.exec, UserStmt.exec, Except.ok.injEq] at hreply
  subst hs
  exact (if_pos hf).trans hreply

/-- A row of the user has the stored status. -/
theorem accountStatus_of_row (hc : Reachable (World.fresh now) c)
    (hn : c.trace[n]? = some (j, e)) (hv : v ∈ e.before.db.users) (hkey : v.key = key)
    {status : AccountStatus} (hstatus : accountStatusOf key e.before.db = some status) :
    v.accountStatus = status := by
  obtain ⟨c₁, hc₁, -, hstate⟩ := hc.before (split_at hn)
  have hnodup := userKeys_nodup hc₁
  rw [hstate] at hnodup
  have hrow : userAt v.key e.before.db.users = some v := KeyedTable.rowAt_of_mem hnodup hv
  rw [accountStatusOf, ← hkey, hrow] at hstatus
  exact Option.some.inj hstatus

/-- One entry leaves the account deleted. -/
theorem deleted_after (hc : Reachable (World.fresh now) c) (hn : c.trace[n]? = some (j, e))
    (hdeleted : accountStatusOf key e.before.db = some .deleted)
    (hset : ∀ status t, Executes (.identity (.user (.setAccountStatus key status t))) e →
      status = .deleted)
    (hread : ∀ v, Replaces key e →
      lastUserRead (entriesOf (S := server) j (c.trace.take n)) = some v →
      v.accountStatus = .deleted) :
    accountStatusOf key e.after.db = some .deleted := by
  obtain ⟨u, hu, hstatus⟩ := Option.map_eq_some_iff.mp hdeleted
  have hcut := split_at hn
  obtain ⟨r, hr, hconduct⟩ := conducted_at hc hcut
  obtain ⟨r', hr', hwithin⟩ := within_at hc (List.mem_of_getElem? hn)
  obtain rfl := Option.some.inj (hr.symm.trans hr')
  by_cases hsets : r.endpoint.sets .accountStatus = false
  · -- the row is written back, if at all, as it was read
    have hkept : KeptAt .accountStatus key e := by
      rcases db_executed e with ⟨s, hs⟩ | ⟨-, hsame⟩
      · apply keptAt_of_fresh hconduct hwithin hsets
        intro content read stored hover hlast hstored
        cases hs.stmt.symm.trans hover.stmt
        obtain rfl := Option.some.inj (hu.symm.trans hstored)
        exact (hread read ⟨content, hs⟩ hlast).trans hstatus.symm
      · exact kept_of_same (congrArg Db.users hsame) key
    obtain ⟨c₁, r₁, hnext, -⟩ := next_at hc hcut
    obtain ⟨v, hv, hvkey⟩ := hnext.user_kept
      ⟨u, KeyedTable.mem_of_rowAt hu, KeyedTable.key_of_rowAt hu⟩
    rcases hrow : userAt key e.after.db.users with _ | v'
    · exact absurd hvkey (KeyedTable.rowAt_eq_none.mp hrow v hv)
    · have hsame : v'.accountStatus = u.accountStatus := hkept u v' hu hrow
      rw [accountStatusOf, hrow, Option.map_some, hsame, hstatus]
  · -- a change of status
    have hep : ∃ userId status, r.endpoint = .updateAccountStatus userId status := by
      cases hep : r.endpoint with
      | updateAccountStatus userId status => exact ⟨userId, status, rfl⟩
      | _ => exact absurd (by rw [hep]; rfl) hsets
    obtain ⟨userId, status, hep⟩ := hep
    rw [hep] at hwithin
    by_cases hw : WritesAccount key e
    · obtain ⟨status', t, hx⟩ := hw
      rw [accountStatusOf_written hx hu, hset status' t hx]
    · rw [accountStatusOf_kept hwithin hw, hdeleted]

/-- The account stays deleted as long as no row read before is written
    back. -/
theorem deleted_until (hc : Reachable (World.fresh now) c) (hm : DeletesAt c k m key)
    (hu : ∃ v, ∀ e, c.trace[m]? = some (k, e) → userAt key e.before.db.users = some v)
    (hstays : StaysDeleted c k key) :
    ∀ n j e, m < n → c.trace[n]? = some (j, e) →
      (∀ n' i e', m < n' → n' < n → c.trace[n']? = some (i, e') → Replaces key e' →
        ¬ HadRead c i m key) →
      accountStatusOf key e.before.db = some .deleted := by
  obtain ⟨eₘ, t, hmat, hmx⟩ := id hm
  obtain ⟨v, hv⟩ := hu
  intro n
  induction n using Nat.strong_induction_on with
  | _ n ih =>
    intro j e hlt hn hstale
    -- the entry before this one
    obtain ⟨n₁, rfl⟩ : ∃ n₁, n = n₁ + 1 := ⟨n - 1, by omega⟩
    have hlen := (List.getElem?_eq_some_iff.mp hn).1
    obtain ⟨⟨i, e₁⟩, hn₁⟩ : ∃ x, c.trace[n₁]? = some x :=
      ⟨_, List.getElem?_eq_getElem (by omega)⟩
    rw [hc.steps.adjacent hn₁ hn]
    by_cases hfirst : n₁ = m
    · subst hfirst
      cases hn₁.symm.trans hmat
      exact accountStatusOf_written hmx (hv eₘ hmat)
    have hlt₁ : m < n₁ := by omega
    apply deleted_after hc hn₁
    · exact ih n₁ (by omega) i e₁ hlt₁ hn₁ fun n' i' e' h₁ h₂ => hstale n' i' e' h₁ (by omega)
    · intro status t hx
      exact hstays m n₁ i e₁ status t hm hlt₁ hn₁ hx
    · intro read hreplaces hlast
      have hfresh := hstale n₁ i e₁ hlt₁ (by omega) hn₁ hreplaces
      obtain ⟨content, hx⟩ := hreplaces
      obtain ⟨r, hr, hconduct⟩ := conducted_at hc (split_at hn₁)
      unfold Conducted at hconduct
      rw [hx.stmt] at hconduct
      obtain ⟨read', hread', hkey, -⟩ := hconduct.from_read
      obtain rfl := Option.some.inj (hread'.symm.trans hlast)
      -- the place where the row was read
      have hin : read' ∈ userReads (entriesOf (S := server) i (c.trace.take n₁)) :=
        List.mem_of_getLast? hread'
      obtain ⟨e₂, he₂, hby⟩ := List.mem_filterMap.mp hin
      obtain ⟨n₂, hlt₂, hn₂⟩ := mem_entriesOf_take.mp he₂
      have hmem := userReadBy_mem hby
      have hseen : Seen c read' := ⟨i, e₂, List.mem_of_getElem? hn₂, hmem⟩
      have hread : read'.key = key := by
        obtain ⟨g, -, -, hsubject⟩ := hseen.conceived hc
        have hplain : idArgumentKey (userAddress read'.key) = read'.key :=
          (hseen.plain hc hsubject).1.idArgumentKey_address (by decide)
        exact hplain.symm.trans hkey.symm
      rcases Nat.lt_trichotomy n₂ m with hbefore | heq | hafter
      · exact absurd ⟨n₂, e₂, read', hbefore, hn₂, hby, hread⟩ hfresh
      · subst heq
        cases hn₂.symm.trans hmat
        rw [userReadBy_eq_none (by rw [hmx.stmt]; rfl)] at hby
        cases hby
      · have hdeleted := ih n₂ (by omega) i e₂ hafter hn₂ fun n' i' e' h₁ h₂ =>
          hstale n' i' e' h₁ (by omega)
        exact accountStatus_of_row hc hn₂ hmem hread hdeleted

/-! ## The password stays revoked -/

/-- Where no password is stored none becomes active. -/
theorem noPassword_after {r : Call} {h : List (Entry machine)} (hconduct : Conducted r h e)
    (hroot : ∃ a ∈ e.before.db.identity.actors, a.key = actorKey) (hstores : ¬ Stores actorKey e)
    (hnone : NoPassword actorKey e.before.db) : NoPassword actorKey e.after.db := by
  rcases db_executed e with ⟨s, hs⟩ | ⟨-, hsame⟩
  · unfold NoPassword
    rw [hs.after]
    cases s with
    | identity s =>
      cases s with
      | credential s =>
        cases s with
        | findPassword a => exact hnone
        | rotate a hash t =>
          have hne : a ≠ actorKey := by
            intro heq
            subst heq
            exact hstores ⟨_, hs, rfl⟩
          intro x hx howner
          obtain ⟨y, hy, rfl⟩ := List.mem_map.mp hx
          by_cases hown : y.actorIdentityId = a
          · rw [if_pos hown] at howner
            exact absurd (hown.symm.trans howner) hne
          · rw [if_neg hown] at howner ⊢
            exact hnone y hy howner
        | create y =>
          intro x hx howner
          simp only [DbStmt.exec, IdentityStmt.exec, CredentialStmt.exec] at hx
          split at hx
          · exact hnone x hx howner
          · rcases List.mem_append.mp hx with hx | hx
            · exact hnone x hx howner
            · obtain rfl := List.mem_singleton.mp hx
              exact absurd ⟨_, hs, congrArg some howner⟩ hstores
        | revoke a t =>
          intro x hx howner
          obtain ⟨y, hy, rfl⟩ := List.mem_map.mp hx
          by_cases hown : y.actorIdentityId = a
          · rw [if_pos hown]
            intro hactive
            cases hactive
          · rw [if_neg hown] at howner ⊢
            exact hnone y hy howner
      | createHuman a =>
        intro x hx howner
        simp only [DbStmt.exec, IdentityStmt.exec, HumanAggregate.create] at hx
        split at hx
        · exact hnone x hx howner
        · next hfree =>
          rcases List.mem_append.mp hx with hx | hx
          · exact hnone x hx howner
          · -- the credential of a new human is of a new root
            unfold Conducted at hconduct
            rw [hs.stmt] at hconduct
            obtain ⟨new, keys, t, drawn, rfl, -⟩ := hconduct.rows
            obtain ⟨pw, -, rfl⟩ := Option.map_eq_some_iff.mp (Option.mem_toList.mp hx)
            obtain ⟨b, hb, hkey⟩ := hroot
            exact absurd (hkey.trans howner.symm) (violation_none_root hfree b hb)
      | _ => exact hnone
    | _ => exact hnone
  · rw [hsame]
    exact hnone

/-- The identity root of a user that was seen is there. -/
theorem Seen.rootAt (hc : Reachable (World.fresh now) c) (hu : Seen c u)
    (ha : u.subjectId = some actorKey) : ∃ x, SoulAuth.rootAt actorKey c.state.db.identity.actors = some x := by
  obtain ⟨n, e, hmem, hin⟩ := hu
  obtain ⟨tr₁, tr₂, htr⟩ := List.append_of_mem hmem
  obtain ⟨c₁, hc₁, -, hstate⟩ := hc.before htr
  have hlinked := linked_holds hc₁
  rw [hstate] at hlinked
  obtain ⟨k, hk, x, hx, hkey, -⟩ := hlinked.root u hin
  obtain rfl : actorKey = k := Option.some.inj (ha.symm.trans hk)
  obtain ⟨y, hy, -⟩ := rootAt_of_found hc hmem
    (hkey ▸ KeyedTable.rowAt_of_mem hlinked.rootKeys hx)
  exact ⟨y, hy⟩

/-- From the revocation on. -/
theorem noPassword_along (hc : Reachable (World.fresh now) c) (hp : RevokesAt c k p actorKey)
    (hroot : ∀ e, c.trace[p]? = some (k, e) →
      ∃ a, rootAt actorKey e.before.db.identity.actors = some a)
    (hno : ∀ n j e, p < n → c.trace[n]? = some (j, e) → ¬ Stores actorKey e) :
    NoPassword actorKey c.state.db := by
  obtain ⟨eₚ, t, hat, hx⟩ := hp
  have hsteps := hc.steps
  rw [split_at hat] at hsteps
  have hrevoked : NoPassword actorKey eₚ.after.db := by
    unfold NoPassword
    rw [hx.after]
    intro x hx howner
    obtain ⟨y, hy, rfl⟩ := List.mem_map.mp hx
    by_cases hown : y.actorIdentityId = actorKey
    · rw [if_pos hown]
      exact nofun
    · rw [if_neg hown] at howner
      exact absurd howner hown
  obtain ⟨a, ha⟩ := hroot eₚ hat
  obtain ⟨b, hb, -⟩ := rootAt_after ha
  have hboth := hsteps.split_entry.2.preserves (P := fun w => NoPassword actorKey w.db ∧
    ∃ a, rootAt actorKey w.db.identity.actors = some a) ⟨hrevoked, b, hb⟩ fun j e hmem hbefore => by
      -- the root is carried along, so that no creation of an aggregate can take its key
      obtain ⟨hnone, a, ha⟩ := hbefore
      obtain ⟨q, hq⟩ := List.mem_iff_getElem?.mp hmem
      have hn : c.trace[p + 1 + q]? = some (j, e) := by simpa using hq
      obtain ⟨r, -, hconduct⟩ := conducted_at hc (split_at hn)
      obtain ⟨b, hb, -⟩ := rootAt_after ha
      refine ⟨?_, b, hb⟩
      exact noPassword_after hconduct
        ⟨a, KeyedTable.mem_of_rowAt ha, KeyedTable.key_of_rowAt ha⟩
        (hno _ j e (by omega) hn) hnone
  exact hboth.1

/-- What a request that stores a password has looked at. -/
theorem storesPassword_of_stores {h : List (Entry machine)} (hconduct : AccountConducted r h e)
    (hs : Stores actorKey e) : StoresPassword r h actorKey := by
  obtain ⟨s, hx, hfor⟩ := hs
  unfold AccountConducted at hconduct
  rw [hx.stmt] at hconduct
  unfold Stmt.storesFor at hfor
  split at hfor
  · next hs =>
    cases hs
    cases hfor
    exact hconduct
  · next hs =>
    cases hs
    cases hfor
    exact hconduct
  · cases hfor

/-- **A deleted account has no password.** When a deletion has returned, and
    until the account is set to another status, no password of its actor is
    active, if no password is stored after the revocation on the strength of
    what the account was before. -/
theorem deleted_without_password (hc : Reachable (World.fresh now) c) {cfg : Config}
    {userId : Str} {reply : Reply}
    (hk : c.reqOf k = some ⟨cfg, .updateAccountStatus userId .deleted⟩)
    (hret : c.Returned k (.ok reply)) (hu : u ∈ c.state.db.users)
    (hkey : userRecordKey userId = some u.key) (hl : u.subjectId = some actorKey)
    (hstays : StaysDeleted c k u.key) (hintime : StoresInTime c k u.key actorKey) :
    NoPassword actorKey c.state.db := by
  obtain ⟨r, hr, hconcluded⟩ := (accountRule_holds hc).returned hret
  obtain rfl := Option.some.inj (hk.symm.trans hr)
  obtain ⟨key, hkey', v, t, h₁, eₘ, h₂, hh, hread, hset, hrevoke⟩ :=
    hconcluded.revoked userId reply rfl rfl
  obtain rfl := Option.some.inj (hkey.symm.trans hkey')
  -- the places of the two writes
  obtain ⟨tr₁, tr₂, htr, rfl, rfl⟩ := entriesOf_split hh
  have hmat : c.trace[tr₁.length]? = some (k, eₘ) := by simp [htr]
  have hm : DeletesAt c k tr₁.length u.key := ⟨eₘ, t, hmat, hset.executes⟩
  obtain ⟨eᵣ, hmemᵣ, hread⟩ := heard_mem hread fun _ he => he
  obtain ⟨hv, hvkey⟩ := key_of_findById hread
  have hvseen : Seen c v := ⟨k, eᵣ, by rw [htr]; exact List.mem_append_left _ hmemᵣ, hv⟩
  have hvl : v.subjectId = some actorKey := (hvseen.subjectId_of_mem hc hu hvkey).trans hl
  obtain ⟨t', hrevoke⟩ := hrevoke actorKey hvl
  obtain ⟨eₚ, hmemₚ, hrevoke⟩ := heard_mem hrevoke fun _ he => he
  obtain ⟨q, hq⟩ := List.mem_iff_getElem?.mp hmemₚ
  have hpat : c.trace[tr₁.length + 1 + q]? = some (k, eₚ) := by
    rw [htr, List.getElem?_append_right (by omega)]
    simpa [show tr₁.length + 1 + q - tr₁.length = q + 1 by omega] using hq
  have hp : RevokesAt c k (tr₁.length + 1 + q) actorKey := ⟨eₚ, t', hpat, hrevoke.executes⟩
  -- the user and its root are there
  have hthere : ∃ x, ∀ e, c.trace[tr₁.length]? = some (k, e) →
      userAt u.key e.before.db.users = some x := by
    obtain ⟨c₁, hc₁, htr₁, hstate⟩ := hc.before htr
    have hseen₁ : Seen c₁ v := ⟨k, eᵣ, htr₁ ▸ hmemᵣ, hv⟩
    have hsubject := hseen₁.subjectOf hc₁ hvl
    obtain ⟨x, hx, -⟩ := Option.bind_eq_some_iff.mp hsubject
    refine ⟨x, fun e he => ?_⟩
    cases hmat.symm.trans he
    rw [← hstate, ← hvkey]
    exact hx
  have hroot : ∀ e, c.trace[tr₁.length + 1 + q]? = some (k, e) →
      ∃ a, rootAt actorKey e.before.db.identity.actors = some a := by
    intro e he
    obtain ⟨c₁, hc₁, htr₁, hstate⟩ := hc.before (split_at he)
    have hseen₁ : Seen c₁ v := by
      refine ⟨k, eᵣ, ?_, hv⟩
      rw [htr₁, htr, List.take_append]
      apply List.mem_append_left
      rw [List.take_of_length_le (by omega)]
      exact hmemᵣ
    rw [← hstate]
    exact hseen₁.rootAt hc₁ hvl
  apply noPassword_along hc hp hroot
  intro n j e hlt hn hstores
  obtain ⟨r, hr, hconduct⟩ := accountConducted_at hc hn
  rcases storesPassword_of_stores hconduct hstores with
    ⟨token, pw, email, w, -, hheard, hwl, hactive⟩ | ⟨userId', pw, hep⟩
  · -- a reset: it has read the account at some place
    have hfresh := hintime.reset _ _ n j e hm hp (by omega) hlt hn hstores
    obtain ⟨n', e', hlt', hn', hanswer⟩ := heard_before hheard
    have hmem := hanswer.findByEmail
    have hwseen : Seen c w := ⟨j, e', List.mem_of_getElem? hn', hmem⟩
    have hwkey : w.key = u.key := (hwseen.key_eq hc hvseen hwl hvl).trans hvkey
    have hby := hanswer.userReadBy
    rcases Nat.lt_trichotomy n' tr₁.length with hbefore | heq | hafter
    · exact hfresh (.inl ⟨n', e', w, hbefore, hn', hby, hwkey⟩)
    · rw [heq] at hn'
      cases hn'.symm.trans hmat
      cases hanswer.stmt.symm.trans hset.stmt
    · have hdeleted := deleted_until hc hm hthere hstays n' j e' hafter hn'
        fun n₁ i e₁ h₁ h₂ hat hreplaces hhad => hfresh (.inr ⟨n', n₁, i, e', e₁, w, h₁, h₂, hn',
          hby, hwkey, hat, hreplaces, hhad⟩)
      cases hactive.symm.trans (accountStatus_of_row hc hn' hmem hwkey hdeleted)
  · obtain ⟨cfg', endpoint⟩ := r
    cases hep
    exact hintime.initialized _ n j e cfg' userId' pw hp hlt hn hstores hr

end

end

end SoulAuth

namespace SoulAuth.Sample

open Framework Framework.System

/-- Request 2 has sent Alice a reset token, request 3 has read her account to
    reset her password, and request 4 begins to delete the account. -/
def resetBegun : List (server).Action :=
  prelude ++ start config (.requestPasswordReset "a@b.c".toList) :: steps 2 10 ++
    start config (.resetPassword (numbered 'u' 11) password) :: steps 3 5 ++
    [start config (.updateAccountStatus alice .deleted)]

/-- Request 4 marks the account as deleted, request 3 stores the password,
    and then request 4 revokes it. -/
def resetWithinDeletion : List (server).Action :=
  resetBegun ++ steps 4 3 ++ steps 3 20 ++ steps 4 25

/-- Request 4 has revoked the password when request 3 stores it. -/
def resetAcrossDeletion : List (server).Action := resetBegun ++ steps 4 25 ++ steps 3 1

/-- Every status that the run sets is `Deleted`. -/
def onlyDeletes (c : (server).Conf) : Bool :=
  c.trace.all fun x => match x.2.stmt with
    | .db (.identity (.user (.setAccountStatus _ status _))) => status = .deleted
    | _ => true

theorem staysDeleted_of {c : (server).Conf} (h : onlyDeletes c = true) (k : Nat) (key : Str) :
    StaysDeleted c k key := by
  intro m n j e status t _ _ hn hx
  have hall := List.all_eq_true.mp h (j, e) (List.mem_of_getElem? hn)
  simp only [hx.stmt] at hall
  exact of_decide_eq_true hall

/-- Whether all passwords are stored before the place `p`, and revoked from
    there on. -/
def storesBefore (c : (server).Conf) (p : Nat) : Bool :=
  c.trace.zipIdx.all fun x => match x.1.2.stmt with
    | .db (.identity (.credential (.revoke _ _))) => p ≤ x.2
    | s => s.storesFor = none || x.2 < p

theorem storesInTime_of {c : (server).Conf} {p : Nat} (h : storesBefore c p = true) (k : Nat)
    (key actorKey : Str) : StoresInTime c k key actorKey := by
  have hat : ∀ n x, c.trace[n]? = some x → _ := fun n x hn =>
    List.all_eq_true.mp h (x, n) (List.mem_zipIdx_iff_getElem?.mpr hn)
  have hrevoked : ∀ q, RevokesAt c k q actorKey → p ≤ q := by
    intro q hq
    obtain ⟨e, t, hn, hx⟩ := hq
    simpa [hx.stmt] using hat q _ hn
  have hstored : ∀ (n j : Nat) (e : Entry machine), c.trace[n]? = some (j, e) →
      Stores actorKey e → n < p := by
    intro n j e hn hstores
    obtain ⟨s, hx, hfor⟩ := hstores
    have hn' := hat n _ hn
    simp only [hx.stmt] at hn'
    split at hn'
    · next heq =>
      rw [heq] at hfor
      cases hfor
    · simpa [hfor] using hn'
  constructor
  · intro m q n j e _ hq _ hlt hn hs
    have hle := hrevoked q hq
    have hbefore := hstored n j e hn hs
    omega
  · intro q n j e cfg userId pw hq hlt hn hs
    have hle := hrevoked q hq
    have hbefore := hstored n j e hn hs
    omega

/-- The password that was stored meanwhile is revoked with the others. -/
theorem deleted_without_password_alice :
    (after resetWithinDeletion).outcome 3 = some (.ok .ok) ∧
    NoPassword aliceActor (after resetWithinDeletion).state.db := by
  obtain ⟨u, hu, hkey, hl⟩ := exists_row resetWithinDeletion (by decide +kernel)
  have hret : (after resetWithinDeletion).outcome 4 = some (.ok .ok) := by decide +kernel
  have hreq : (after resetWithinDeletion).reqOf 4 =
      some ⟨config, .updateAccountStatus alice .deleted⟩ := by decide +kernel
  have hrecord : userRecordKey alice = some u.key := by
    rw [hkey]
    decide +kernel
  have hbefore : storesBefore (after resetWithinDeletion) 50 = true := by decide +kernel
  exact ⟨by decide +kernel, deleted_without_password (after_reachable resetWithinDeletion) hreq
    (Conf.returned_of_outcome hret) hu hrecord hl
    (staysDeleted_of (by decide +kernel) 4 u.key) (storesInTime_of hbefore 4 u.key _)⟩

/-- The password of the deleted account is active. -/
theorem deleted_with_password : ¬ ∀ (now : Timestamp) (c : (server).Conf) (k : Nat)
    (cfg : Config) (userId : Str) (reply : Reply) (u : User) (actorKey : Str),
    Reachable (World.fresh now) c →
    c.reqOf k = some ⟨cfg, .updateAccountStatus userId .deleted⟩ → c.Returned k (.ok reply) →
    u ∈ c.state.db.users → userRecordKey userId = some u.key → u.subjectId = some actorKey →
    StaysDeleted c k u.key → NoPassword actorKey c.state.db := by
  intro hall
  obtain ⟨u, hu, hkey, hl⟩ := exists_row resetAcrossDeletion (by decide +kernel)
  have hret : (after resetAcrossDeletion).outcome 4 = some (.ok .ok) := by decide +kernel
  have hreq : (after resetAcrossDeletion).reqOf 4 =
      some ⟨config, .updateAccountStatus alice .deleted⟩ := by decide +kernel
  have hrecord : userRecordKey alice = some u.key := by
    rw [hkey]
    decide +kernel
  have hnone := hall 0 _ 4 config alice .ok u aliceActor (after_reachable resetAcrossDeletion)
    hreq (Conf.returned_of_outcome hret) hu hrecord hl (staysDeleted_of (by decide +kernel) 4 u.key)
  have hactive : ((after resetAcrossDeletion).state.db.identity.credentials.any fun x =>
      x.actorIdentityId = aliceActor && x.status = .active) = true := by decide +kernel
  obtain ⟨x, hx, hboth⟩ := List.any_eq_true.mp hactive
  simp only [Bool.and_eq_true, decide_eq_true_eq] at hboth
  exact hnone x hx hboth.1 hboth.2

end SoulAuth.Sample
