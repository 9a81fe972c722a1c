import SoulAuth.Proofs.RecordKeys
import SoulAuth.Proofs.Tables
import SoulAuth.Framework.KeyedTable

/-! # Where the rows of an identity come from

One transaction creates a human: the identity root, the account and the user
row, under keys drawn for them. No later statement changes a key, so every
row found in a run names the transaction it comes from, and so does every
code and token that refers to an identity root.
-/

namespace SoulAuth

open Framework Framework.System

variable [Platform]

/-! ## Humans created in a run -/

/-- A statement of the trace creates the human. -/
def Conceived (tr : List (Nat × Entry machine)) (a : HumanAggregate) : Prop :=
  ∃ i e, (i, e) ∈ tr ∧ e.stmt = .db (.identity (.createHuman a))

/-- The keys by which other rows and tokens refer to a human. -/
def HumanAggregate.keys (a : HumanAggregate) : List Str :=
  [a.actor.key, a.user.key, a.account.key, a.actor.subjectKey]

section

variable {w : World} {c : (server).Conf} {a b : HumanAggregate}
  {tr : List (Nat × Entry machine)}

theorem Conceived.mono (h : Conceived tr a) (t : List (Nat × Entry machine)) :
    Conceived (tr ++ t) a := by
  obtain ⟨i, e, hmem, hs⟩ := h
  exact ⟨i, e, List.mem_append_left t hmem, hs⟩

/-- The keys of a new human are among the values that its request drew, each
    of them once. -/
theorem Conceives.keys_sublist {r : Call} {h : List (Entry machine)} (hcon : Conceives r h a) :
    a.keys.Sublist (uuidsOf h) := by
  obtain ⟨new, keys, now, drawn, rfl, huuids⟩ := hcon.rows
  rw [huuids]
  apply List.Sublist.trans _ (List.sublist_append_right drawn _)
  show [keys.actor, keys.user, keys.account, keys.subject].Sublist _
  simp

/-- The rows of a new human refer to each other. -/
theorem Conceives.linked {r : Call} {h : List (Entry machine)} (hcon : Conceives r h a) :
    a.user.subjectId = some a.actor.key ∧ a.account.actorIdentityId = a.actor.key ∧
      a.actor.actorKind = .human := by
  obtain ⟨new, keys, now, drawn, rfl, -⟩ := hcon.rows
  exact ⟨rfl, rfl, rfl⟩

/-- Where a human is created in a run. -/
theorem Conceived.at_entry (hc : Reachable w c) (ha : Conceived c.trace a) :
    ∃ tr₁ i e tr₂ r, c.trace = tr₁ ++ (i, e) :: tr₂ ∧
      e.stmt = .db (.identity (.createHuman a)) ∧ c.reqOf i = some r ∧
      Conceives r (entriesOf (S := server) i tr₁) a := by
  obtain ⟨i, e, hmem, hs⟩ := ha
  obtain ⟨tr₁, tr₂, htr⟩ := List.append_of_mem hmem
  obtain ⟨r, hr, hcond⟩ := conducted_at hc htr
  unfold Conducted at hcond
  rw [hs] at hcond
  exact ⟨tr₁, i, e, tr₂, r, htr, hs, hr, hcond⟩

/-- The rows of a human refer to each other. -/
theorem Conceived.linked (hc : Reachable w c) (ha : Conceived c.trace a) :
    a.user.subjectId = some a.actor.key ∧ a.account.actorIdentityId = a.actor.key ∧
      a.actor.actorKind = .human := by
  obtain ⟨_, _, _, _, _, -, -, -, hcon⟩ := ha.at_entry hc
  exact hcon.linked

/-- The keys of a human are drawn by one request, which draws them once. -/
theorem Conceived.drawn (hc : Reachable w c) (ha : Conceived c.trace a) :
    ∃ i, a.keys.Sublist (uuidsOf (entriesOf (S := server) i c.trace)) := by
  obtain ⟨tr₁, i, e, tr₂, r, htr, -, -, hcon⟩ := ha.at_entry hc
  refine ⟨i, hcon.keys_sublist.trans ?_⟩
  rw [htr, entriesOf_append, uuidsOf_append]
  exact List.sublist_append_left _ _

/-- Two humans created in a run share no key. -/
theorem Conceived.unique (hc : Reachable w c) (ha : Conceived c.trace a)
    (hb : Conceived c.trace b) {v : Str} (hva : v ∈ a.keys) (hvb : v ∈ b.keys) : a = b := by
  obtain ⟨tr₁, i, e, tr₂, r, htr, hs, -, hcon⟩ := ha.at_entry hc
  obtain ⟨tr₁', j, e', tr₂', r', htr', hs', -, hcon'⟩ := hb.at_entry hc
  have hv := hcon.keys_sublist.subset hva
  have hv' := hcon'.keys_sublist.subset hvb
  -- the same place of the trace, or one of two places is the first
  rcases List.append_eq_append_iff.mp (htr.symm.trans htr') with ⟨m, rfl, hm⟩ | ⟨m, rfl, hm⟩
  · cases m with
    | nil =>
      cases hm
      cases hs.symm.trans hs'
      rfl
    | cons x m =>
      cases hm
      have htr₃ : c.trace = tr₁ ++ (i, e) :: (m ++ (j, e') :: tr₂') := by
        rw [htr']
        simp
      exact (issued_once isDraw_uuid hc htr₃ (x := .createHuman) (by rw [hs]; rfl) hv hv'
        hcon'.once).elim
  · cases m with
    | nil =>
      cases hm
      cases hs.symm.trans hs'
      rfl
    | cons x m =>
      cases hm
      have htr₃ : c.trace = tr₁' ++ (j, e') :: (m ++ (i, e) :: tr₂) := by
        rw [htr]
        simp
      exact (issued_once isDraw_uuid hc htr₃ (x := .createHuman) (by rw [hs']; rfl) hv' hv
        hcon.once).elim

/-- A value is one key of one human only. -/
theorem Conceived.keys_nodup (hc : Reachable w c) (ha : Conceived c.trace a) : a.keys.Nodup := by
  obtain ⟨i, hsub⟩ := ha.drawn hc
  exact (uuids_nodup hc).sublist hsub

/-- The subject of a human is the key of no identity root of a human, and of
    no user. -/
theorem Conceived.subject_ne (hc : Reachable w c) (ha : Conceived c.trace a)
    (hb : Conceived c.trace b) :
    a.actor.subjectKey ≠ b.actor.key ∧ a.actor.subjectKey ≠ b.user.key := by
  have hsame : ∀ v ∈ b.keys, a.actor.subjectKey = v → a = b := by
    intro v hv heq
    exact ha.unique hc hb (by simp [HumanAggregate.keys]) (heq ▸ hv)
  constructor
  · intro heq
    obtain rfl := hsame _ (by simp [HumanAggregate.keys]) heq
    have hnd := ha.keys_nodup hc
    simp [HumanAggregate.keys, heq] at hnd
  · intro heq
    obtain rfl := hsame _ (by simp [HumanAggregate.keys]) heq
    have hnd := ha.keys_nodup hc
    simp [HumanAggregate.keys, heq] at hnd

/-- A UUID that was drawn is a plain key. -/
theorem isPlainKey_of_drawn {h : List (Entry machine)} {v : Str} (hv : v ∈ uuidsOf h) :
    IsPlainKey v ∧ v ≠ [] := by
  obtain ⟨e, -, he⟩ := List.mem_filterMap.mp hv
  rw [isDraw_uuid.value e v he]
  exact ⟨isPlainKey_uuid _, Platform.uuid_ne_nil _⟩

/-- The keys of a human are plain. -/
theorem Conceived.isPlainKey (hc : Reachable w c) (ha : Conceived c.trace a) {v : Str}
    (hv : v ∈ a.keys) : IsPlainKey v ∧ v ≠ [] := by
  obtain ⟨i, hsub⟩ := ha.drawn hc
  exact isPlainKey_of_drawn (hsub.subset hv)

end

/-! ## Where rows come from -/

/-- Every row that has to do with a human is, but for what may change, a row
    of a human created in the trace. -/
structure Lineage (tr : List (Nat × Entry machine)) (db : Db) : Prop where
  users : ∀ u ∈ db.users, ∃ a, Conceived tr a ∧ u.SameAccount a.user
  roots : ∀ x ∈ db.identity.actors, x.actorKind = .human →
    ∃ a, Conceived tr a ∧ x.key = a.actor.key ∧ x.subjectKey = a.actor.subjectKey
  accounts : ∀ x ∈ db.identity.accounts, ∃ a, Conceived tr a ∧ x = a.account
  codes : ∀ r ∈ db.codes, ∃ a, Conceived tr a ∧ r.userId = a.actor.key
  access : ∀ t ∈ db.accessTokens, ∃ a, Conceived tr a ∧ t.userId = a.actor.key
  refresh : ∀ t ∈ db.refreshTokens, ∃ a, Conceived tr a ∧ t.userId = a.actor.key

omit [Platform] in
theorem User.SameAccount.trans {u v x : User} (h : u.SameAccount v) (h' : v.SameAccount x) :
    u.SameAccount x :=
  ⟨h.key.trans h'.key, h.subjectId.trans h'.subjectId, h.email.trans h'.email,
    h.username.trans h'.username, h.usernameNormalized.trans h'.usernameNormalized⟩

theorem Lineage.empty : Lineage [] Db.empty := by
  constructor <;> exact fun _ h => absurd h List.not_mem_nil

theorem Lineage.mono {tr : List (Nat × Entry machine)} {db : Db} (h : Lineage tr db)
    (t : List (Nat × Entry machine)) : Lineage (tr ++ t) db where
  users u hu := by
    obtain ⟨a, ha, hsame⟩ := h.users u hu
    exact ⟨a, ha.mono t, hsame⟩
  roots x hx hkind := by
    obtain ⟨a, ha, hkeys⟩ := h.roots x hx hkind
    exact ⟨a, ha.mono t, hkeys⟩
  accounts x hx := by
    obtain ⟨a, ha, heq⟩ := h.accounts x hx
    exact ⟨a, ha.mono t, heq⟩
  codes r hr := by
    obtain ⟨a, ha, hkey⟩ := h.codes r hr
    exact ⟨a, ha.mono t, hkey⟩
  access r hr := by
    obtain ⟨a, ha, hkey⟩ := h.access r hr
    exact ⟨a, ha.mono t, hkey⟩
  refresh r hr := by
    obtain ⟨a, ha, hkey⟩ := h.refresh r hr
    exact ⟨a, ha.mono t, hkey⟩

/-! ## One entry -/

section

variable {w : World} {c : (server).Conf} {i : Nat} {e : Entry machine} {r : Call}

/-- What is known of a configuration and of an entry that comes next. -/
structure Next (w : World) (c : (server).Conf) (i : Nat) (r : Call) (e : Entry machine) :
    Prop where
  reached : Reachable w c
  now : Lineage c.trace e.before.db
  past : ∀ x ∈ c.trace, Lineage c.trace x.2.before.db
  conduct : Conducted r (entriesOf (S := server) i c.trace) e

namespace Next

variable (h : Next w c i r e)
include h

/-- A row that the request read has been found in some earlier state. -/
theorem heard {s : DbStmt} {a : s.Reply} (hh : Heard (entriesOf (S := server) i c.trace) s a) :
    ∃ e', Lineage c.trace e'.before.db ∧ Answered s a e' := by
  obtain ⟨e', hmem, ha⟩ := heard_mem hh fun _ he => he
  exact ⟨e', h.past _ hmem, ha⟩

/-- The row that is written back is a row of the same account, under the
    same key. -/
theorem writesBack {key : Str} {content : User}
    (hs : e.stmt = .db (.identity (.user (.update key content)))) :
    ∃ a, Conceived c.trace a ∧ User.SameAccount { content with key := key } a.user := by
  have hcond := h.conduct
  unfold Conducted at hcond
  rw [hs] at hcond
  obtain ⟨u, hread, rfl, hsame, -⟩ := hcond.from_read
  obtain ⟨e', hmem, hu⟩ := List.mem_filterMap.mp (List.mem_of_getLast? hread)
  obtain ⟨a, ha, hacc⟩ := (h.past _ (mem_entriesOf.mp hmem)).users u (userReadBy_mem hu)
  have hkey : idArgumentKey (userAddress u.key) = u.key := by
    rw [hacc.key]
    have hplain := ha.isPlainKey h.reached (v := a.user.key) (by simp [HumanAggregate.keys])
    exact hplain.1.idArgumentKey_address (by decide)
  have hall := hsame.trans hacc
  exact ⟨a, ha, ⟨hkey.trans hacc.key, hall.subjectId, hall.email, hall.username,
    hall.usernameNormalized⟩⟩

theorem users (u : User) (hu : u ∈ e.after.db.users) :
    ∃ a, Conceived (c.trace ++ [(i, e)]) a ∧ u.SameAccount a.user := by
  have hold : ∀ v ∈ e.before.db.users, u.SameAccount v →
      ∃ a, Conceived (c.trace ++ [(i, e)]) a ∧ u.SameAccount a.user := by
    intro v hv hsame
    obtain ⟨a, ha, hacc⟩ := h.now.users v hv
    exact ⟨a, ha.mono _, hsame.trans hacc⟩
  rcases users_after e with hsame | ⟨s, hs, hafter⟩ | ⟨a, hs, hafter⟩
  · exact hold u (hsame ▸ hu) ⟨rfl, rfl, rfl, rfl, rfl⟩
  · rw [hafter] at hu
    cases s with
    | update key content =>
      simp only [UserStmt.exec] at hu
      split at hu
      · split at hu
        · exact hold u hu ⟨rfl, rfl, rfl, rfl, rfl⟩
        · split at hu
          · exact hold u hu ⟨rfl, rfl, rfl, rfl, rfl⟩
          · obtain ⟨v, hv, rfl⟩ := List.mem_map.mp hu
            by_cases hk : v.key = key
            · rw [if_pos hk]
              obtain ⟨a, ha, hacc⟩ := h.writesBack hs
              exact ⟨a, ha.mono _, hacc⟩
            · rw [if_neg hk] at hold ⊢
              exact hold v hv ⟨rfl, rfl, rfl, rfl, rfl⟩
      · exact hold u hu ⟨rfl, rfl, rfl, rfl, rfl⟩
    | claimVerification tokenHash now =>
      obtain ⟨v, hv, rfl⟩ := List.mem_map.mp hu
      apply hold v hv
      split <;> exact ⟨rfl, rfl, rfl, rfl, rfl⟩
    | setAccountStatus key status now =>
      obtain ⟨v, hv, rfl⟩ := List.mem_map.mp hu
      apply hold v hv
      split <;> exact ⟨rfl, rfl, rfl, rfl, rfl⟩
    | _ => exact hold u hu ⟨rfl, rfl, rfl, rfl, rfl⟩
  · rw [hafter] at hu
    rcases List.mem_append.mp hu with hu | hu
    · exact hold u hu ⟨rfl, rfl, rfl, rfl, rfl⟩
    · obtain rfl := List.mem_singleton.mp hu
      exact ⟨a, ⟨i, e, by simp, hs⟩, ⟨rfl, rfl, rfl, rfl, rfl⟩⟩

theorem roots (x : ActorIdentity) (hx : x ∈ e.after.db.identity.actors)
    (hkind : x.actorKind = .human) :
    ∃ a, Conceived (c.trace ++ [(i, e)]) a ∧ x.key = a.actor.key ∧
      x.subjectKey = a.actor.subjectKey := by
  have hold : ∀ y ∈ e.before.db.identity.actors, y.actorKind = x.actorKind → y.key = x.key →
      y.subjectKey = x.subjectKey → ∃ a, Conceived (c.trace ++ [(i, e)]) a ∧
        x.key = a.actor.key ∧ x.subjectKey = a.actor.subjectKey := by
    intro y hy hk hkey hsub
    obtain ⟨a, ha, hkey', hsub'⟩ := h.now.roots y hy (hk.trans hkind)
    exact ⟨a, ha.mono _, hkey.symm.trans hkey', hsub.symm.trans hsub'⟩
  rcases identity_after e with hsame | ⟨s, hs, hafter⟩
  · exact hold x (hsame ▸ hx) rfl rfl rfl
  · rw [hafter] at hx
    cases s with
    | actor s =>
      cases s with
      | find key => exact hold x hx rfl rfl rfl
      | setStatus key status now =>
        obtain ⟨y, hy, rfl⟩ := List.mem_map.mp hx
        apply hold y hy <;> split <;> rfl
      | create a =>
        simp only [IdentityStmt.exec, ActorStmt.exec] at hx
        split at hx
        · exact hold x hx rfl rfl rfl
        · rcases List.mem_append.mp hx with hx | hx
          · exact hold x hx rfl rfl rfl
          · -- a new root of an AI actor is no human
            obtain rfl := List.mem_singleton.mp hx
            have hcond := h.conduct
            unfold Conducted at hcond
            rw [hs] at hcond
            rw [hcond.kind] at hkind
            cases hkind
    | createHuman a =>
      simp only [IdentityStmt.exec, HumanAggregate.create] at hx
      split at hx
      · exact hold x hx rfl rfl rfl
      · rcases List.mem_append.mp hx with hx | hx
        · exact hold x hx rfl rfl rfl
        · obtain rfl := List.mem_singleton.mp hx
          exact ⟨a, ⟨i, e, by simp, hs⟩, rfl, rfl⟩
    | _ => exact hold x hx rfl rfl rfl

theorem accounts (x : HumanAccount) (hx : x ∈ e.after.db.identity.accounts) :
    ∃ a, Conceived (c.trace ++ [(i, e)]) a ∧ x = a.account := by
  have hold : x ∈ e.before.db.identity.accounts →
      ∃ a, Conceived (c.trace ++ [(i, e)]) a ∧ x = a.account := by
    intro hx
    obtain ⟨a, ha, heq⟩ := h.now.accounts x hx
    exact ⟨a, ha.mono _, heq⟩
  rcases identity_after e with hsame | ⟨s, hs, hafter⟩
  · exact hold (hsame ▸ hx)
  · rw [hafter] at hx
    cases s with
    | createHuman a =>
      simp only [IdentityStmt.exec, HumanAggregate.create] at hx
      split at hx
      · exact hold hx
      · rcases List.mem_append.mp hx with hx | hx
        · exact hold hx
        · obtain rfl := List.mem_singleton.mp hx
          exact ⟨a, ⟨i, e, by simp, hs⟩, rfl⟩
    | _ => exact hold hx

theorem codes (row : OidcAuthorizationCode) (hrow : row ∈ e.after.db.codes) :
    ∃ a, Conceived (c.trace ++ [(i, e)]) a ∧ row.userId = a.actor.key := by
  rcases code_before hrow with ⟨row₀, hrow₀, huser, -⟩ | ⟨saved, key, -, hsubject, -⟩
  · obtain ⟨a, ha, hkey⟩ := h.now.codes row₀ hrow₀
    exact ⟨a, ha.mono _, huser.symm.trans hkey⟩
  · -- the code belongs to the identity root of the user
    obtain ⟨u, hu, hsub⟩ := Option.bind_eq_some_iff.mp hsubject
    obtain ⟨a, ha, hacc⟩ := h.now.users u (List.mem_of_find?_eq_some hu)
    have hroot : some row.userId = some a.actor.key := by
      rw [← hsub, hacc.subjectId, (ha.linked h.reached).1]
    exact ⟨a, ha.mono _, Option.some.inj hroot⟩

/-- What a token request redeems belongs to an identity root. -/
theorem redeemed {request : TokenRequest} {clientId userId scope : Str}
    (hred : Redeemed request (entriesOf (S := server) i c.trace) clientId userId scope) :
    ∃ a, Conceived c.trace a ∧ normalizeActorId userId = a.actor.key := by
  have haddress : ∀ a, Conceived c.trace a →
      normalizeActorId (actorAddress a.actor.key) = a.actor.key := by
    intro a ha
    have hplain := ha.isPlainKey h.reached (v := a.actor.key) (by simp [HumanAggregate.keys])
    exact hplain.1.normalizeActorId_address hplain.2
  cases hred with
  | code code client row haccepted _ =>
    obtain ⟨e', hline, hread⟩ := h.heard haccepted.rowRead
    have hreply := hread.reply
    simp only [DbStmt.exec, CodeStmt.exec, Except.ok.injEq, Option.map_eq_some_iff] at hreply
    obtain ⟨stored, hstored, rfl⟩ := hreply
    obtain ⟨a, ha, hkey⟩ := hline.codes stored (List.mem_of_find?_eq_some hstored)
    exact ⟨a, ha, by rw [hkey, haddress a ha]⟩
  | refresh token scope client stored haccepted _ _ =>
    obtain ⟨e', hline, hread⟩ := h.heard haccepted.storedRead
    have hreply := hread.reply
    simp only [DbStmt.exec, RefreshTokenStmt.exec, Except.ok.injEq,
      Option.map_eq_some_iff] at hreply
    obtain ⟨row, hrow, rfl⟩ := hreply
    obtain ⟨a, ha, hkey⟩ := hline.refresh row (List.mem_of_find?_eq_some hrow)
    exact ⟨a, ha, by rw [hkey, haddress a ha]⟩

theorem access (t : OidcAccessToken) (ht : t ∈ e.after.db.accessTokens) :
    ∃ a, Conceived (c.trace ++ [(i, e)]) a ∧ t.userId = a.actor.key := by
  have hold : t ∈ e.before.db.accessTokens →
      ∃ a, Conceived (c.trace ++ [(i, e)]) a ∧ t.userId = a.actor.key := by
    intro ht
    obtain ⟨a, ha, hkey⟩ := h.now.access t ht
    exact ⟨a, ha.mono _, hkey⟩
  rcases accessTokens_after e with hsame | ⟨s, hs, hafter⟩
  · exact hold (hsame ▸ ht)
  · rw [hafter] at ht
    cases s with
    | save row =>
      simp only [AccessTokenStmt.exec] at ht
      split at ht
      · exact hold ht
      · rcases List.mem_append.mp ht with ht | ht
        · exact hold ht
        · obtain rfl := List.mem_singleton.mp ht
          have hcond := h.conduct
          unfold Conducted at hcond
          rw [hs] at hcond
          obtain ⟨request, userId, -, hkey, hred⟩ := hcond.redeemed
          obtain ⟨a, ha, hroot⟩ := h.redeemed hred
          exact ⟨a, ha.mono _, hkey.trans hroot⟩
    | get => exact hold ht
    | _ => exact hold (List.mem_of_mem_filter ht)

theorem refresh (t : OidcRefreshToken) (ht : t ∈ e.after.db.refreshTokens) :
    ∃ a, Conceived (c.trace ++ [(i, e)]) a ∧ t.userId = a.actor.key := by
  have hold : ∀ t' ∈ e.before.db.refreshTokens, t'.userId = t.userId →
      ∃ a, Conceived (c.trace ++ [(i, e)]) a ∧ t.userId = a.actor.key := by
    intro t' ht' huser
    obtain ⟨a, ha, hkey⟩ := h.now.refresh t' ht'
    exact ⟨a, ha.mono _, huser.symm.trans hkey⟩
  rcases refreshTokens_after e with hsame | ⟨s, hs, hafter⟩
  · exact hold t (hsame ▸ ht) rfl
  · rw [hafter] at ht
    cases s with
    | save row =>
      simp only [RefreshTokenStmt.exec] at ht
      split at ht
      · exact hold t ht rfl
      · rcases List.mem_append.mp ht with ht | ht
        · exact hold t ht rfl
        · obtain rfl := List.mem_singleton.mp ht
          have hcond := h.conduct
          unfold Conducted at hcond
          rw [hs] at hcond
          obtain ⟨request, userId, -, hkey, hred⟩ := hcond.redeemed
          obtain ⟨a, ha, hroot⟩ := h.redeemed hred
          exact ⟨a, ha.mono _, hkey.trans hroot⟩
    | get => exact hold t ht rfl
    | consume =>
      obtain ⟨t', ht', rfl⟩ := List.mem_map.mp ht
      apply hold t' ht'
      split <;> rfl
    | _ => exact hold t (List.mem_of_mem_filter ht) rfl

/-- One entry keeps the lineage of the rows. -/
theorem after : Lineage (c.trace ++ [(i, e)]) e.after.db :=
  ⟨h.users, h.roots, h.accounts, h.codes, h.access, h.refresh⟩

end Next

end

/-! ## A run -/

section

variable {now : Timestamp} {c : (server).Conf}

theorem lineage_along (hc : Reachable (World.fresh now) c) :
    Lineage c.trace c.state.db ∧ ∀ x ∈ c.trace, Lineage c.trace x.2.before.db := by
  refine (hc.lift (P := fun tr w => Lineage tr w.db ∧ ∀ x ∈ tr, Lineage tr x.2.before.db)
    conduct_met ⟨Lineage.empty, fun _ h => absurd h List.not_mem_nil⟩ ?_ fun _ _ _ => trivial).2
  intro c i r e hc _ ⟨hnow, hpast⟩ hbefore _ hconduct
  have hnext : Next (World.fresh now) c i r e := ⟨hc, hbefore ▸ hnow, hpast, hconduct⟩
  constructor
  · exact hnext.after
  · intro x hx
    rcases List.mem_append.mp hx with hx | hx
    · exact (hpast x hx).mono _
    · obtain rfl := List.mem_singleton.mp hx
      exact hnext.now.mono _

/-- What is known of an entry, wherever it stands in the trace. -/
theorem next_at (hc : Reachable (World.fresh now) c) {i : Nat} {e : Entry machine}
    {tr₁ tr₂ : List (Nat × Entry machine)} (htr : c.trace = tr₁ ++ (i, e) :: tr₂) :
    ∃ c₁ r, Next (World.fresh now) c₁ i r e ∧ c₁.trace = tr₁ ∧ c.reqOf i = some r := by
  obtain ⟨c₁, hc₁, rfl, hstate⟩ := hc.before htr
  obtain ⟨r, hr, hconduct⟩ := conducted_at hc htr
  obtain ⟨hnow, hpast⟩ := lineage_along hc₁
  exact ⟨c₁, r, ⟨hc₁, hstate ▸ hnow, hpast, hconduct⟩, rfl, hr⟩

/-- **Lineage.** In every run every row comes from a human that the run
    created. -/
theorem lineage_holds (hc : Reachable (World.fresh now) c) : Lineage c.trace c.state.db :=
  (lineage_along hc).1

end

/-! ## Looking rows up -/

/-- The identity root under a key. -/
abbrev rootAt (key : Str) (t : List ActorIdentity) : Option ActorIdentity :=
  KeyedTable.rowAt ActorIdentity.key key t

theorem Answered.rootAt {e : Entry machine} {key : Str} {a : ActorIdentity}
    (h : Answered (.identity (.actor (.find key))) (some a) e) :
    SoulAuth.rootAt key e.before.db.identity.actors = some a := by
  have hreply := h.reply
  simp only [DbStmt.exec, IdentityStmt.exec, ActorStmt.exec, Except.ok.injEq] at hreply
  exact hreply

/-! ## The rows of one human -/

/-- The root under a key, of a human, and the account of a root. -/
def HasRoot (db : Db) (key : Str) : Prop :=
  ∃ x ∈ db.identity.actors, x.key = key ∧ x.actorKind = .human

def HasAccount (db : Db) (key : Str) : Prop :=
  ∃ y ∈ db.identity.accounts, y.actorIdentityId = key

/-- Every user has the identity root of a human, and every such root has an
    account. -/
structure Linked (db : Db) : Prop where
  rootKeys : (db.identity.actors.map ActorIdentity.key).Nodup
  root : ∀ u ∈ db.users, ∃ key, u.subjectId = some key ∧ HasRoot db key
  account : ∀ key, HasRoot db key → HasAccount db key

section

variable {e : Entry machine}

/-- What the creation of a human makes of the identity tables. -/
theorem createHuman_after {a : HumanAggregate} (hs : e.stmt = .db (.identity (.createHuman a))) :
    e.after.db.identity = e.before.db.identity ∨
      a.violation e.before.db.identity = none ∧ e.after.db.identity =
        { users := e.before.db.users ++ [a.user]
          actors := e.before.db.identity.actors ++ [a.actor]
          accounts := e.before.db.identity.accounts ++ [a.account]
          credentials := e.before.db.identity.credentials ++ a.credential.toList
          bindings := e.before.db.identity.bindings ++ a.binding.toList } := by
  rcases identity_after e with hsame | ⟨s, hs', hafter⟩
  · exact .inl hsame
  · cases hs.symm.trans hs'
    simp only [IdentityStmt.exec, HumanAggregate.create] at hafter
    split at hafter
    · exact .inl hafter
    · next hfree => exact .inr ⟨hfree, hafter⟩

/-- What an entry makes of the identity roots. -/
theorem actors_after (e : Entry machine) :
    e.after.db.identity.actors = e.before.db.identity.actors ∨
    (∃ key status now, e.stmt = .db (.identity (.actor (.setStatus key status now))) ∧
      e.after.db.identity.actors = e.before.db.identity.actors.map fun a =>
        if a.key = key then { a with status := status, updatedAt := now } else a) ∨
    ∃ a, (e.before.db.identity.actors.any fun b => b.key = a.key) = false ∧
      e.after.db.identity.actors = e.before.db.identity.actors ++ [a] := by
  rcases identity_after e with hsame | ⟨s, hs, hafter⟩
  · exact .inl (congrArg IdentityTables.actors hsame)
  · cases s with
    | actor s =>
      have hactors := congrArg IdentityTables.actors hafter
      cases s with
      | find key => exact .inl hactors
      | setStatus key status now => exact .inr (.inl ⟨key, status, now, hs, hactors⟩)
      | create a =>
        simp only [IdentityStmt.exec, ActorStmt.exec] at hactors
        split at hactors
        · exact .inl hactors
        · next hnew =>
          refine .inr (.inr ⟨a, ?_, hactors⟩)
          rw [Bool.not_eq_true, List.any_eq_false] at hnew
          rw [List.any_eq_false]
          intro b hb hkey
          exact hnew b hb (by simp [show b.key = a.key by simpa using hkey])
    | createHuman a =>
      rcases createHuman_after hs with hsame | ⟨hfree, hafter⟩
      · exact .inl (congrArg IdentityTables.actors hsame)
      · refine .inr (.inr ⟨a.actor, ?_, congrArg IdentityTables.actors hafter⟩)
        unfold HumanAggregate.violation at hfree
        split at hfree
        · cases hfree
        · next hnew =>
          rw [Bool.not_eq_true, List.any_eq_false] at hnew
          rw [List.any_eq_false]
          intro b hb hkey
          exact hnew b hb (by simp [show b.key = a.actor.key by simpa using hkey])
    | _ =>
      have hactors := congrArg IdentityTables.actors hafter
      exact .inl hactors

theorem HasRoot.after {key : Str} (h : HasRoot e.before.db key) : HasRoot e.after.db key := by
  obtain ⟨x, hx, hkey, hkind⟩ := h
  rcases actors_after e with hsame | ⟨k, status, now, -, hmap⟩ | ⟨a, -, hnew⟩
  · exact ⟨x, by rw [hsame]; exact hx, hkey, hkind⟩
  · refine ⟨_, by rw [hmap]; exact List.mem_map_of_mem hx, ?_, ?_⟩ <;> split <;> assumption
  · exact ⟨x, by rw [hnew]; exact List.mem_append_left _ hx, hkey, hkind⟩

theorem HasAccount.after {key : Str} (h : HasAccount e.before.db key) :
    HasAccount e.after.db key := by
  obtain ⟨y, hy, hkey⟩ := h
  refine ⟨y, ?_, hkey⟩
  rcases identity_after e with hsame | ⟨s, hs, hafter⟩
  · rw [hsame]
    exact hy
  · cases s with
    | createHuman a =>
      rcases createHuman_after hs with hsame | ⟨-, hafter⟩
      · rw [hsame]
        exact hy
      · rw [hafter]
        exact List.mem_append_left _ hy
    | _ =>
      rw [hafter]
      exact hy

variable {w : World} {c : (server).Conf} {i : Nat} {r : Call}

/-- The rows of users are those from before, one by one, or a human is new. -/
theorem Next.users_change (h : Next w c i r e) :
    List.Forall₂ User.SameAccount e.after.db.users e.before.db.users ∨
      ∃ a, e.stmt = .db (.identity (.createHuman a)) ∧
        a.violation e.before.db.identity = none ∧
        e.after.db.identity =
          { users := e.before.db.identity.users ++ [a.user]
            actors := e.before.db.identity.actors ++ [a.actor]
            accounts := e.before.db.identity.accounts ++ [a.account]
            credentials := e.before.db.identity.credentials ++ a.credential.toList
            bindings := e.before.db.identity.bindings ++ a.binding.toList } := by
  have hself : ∀ l : List User, List.Forall₂ User.SameAccount l l := by
    intro l
    exact List.forall₂_same.mpr fun u _ => ⟨rfl, rfl, rfl, rfl, rfl⟩
  have hmap : ∀ {f : User → User}, (∀ v ∈ e.before.db.users, (f v).SameAccount v) →
      List.Forall₂ User.SameAccount (e.before.db.users.map f) e.before.db.users := by
    intro f hf
    apply List.forall₂_map_left_iff.mpr
    exact List.forall₂_same.mpr hf
  rcases users_after e with hsame | ⟨s, hs, hafter⟩ | ⟨a, hs, -⟩
  · rw [hsame]
    exact .inl (hself _)
  · rw [hafter]
    cases s with
    | update key content =>
      simp only [UserStmt.exec]
      split
      · split
        · exact .inl (hself _)
        · split
          · exact .inl (hself _)
          · refine .inl (hmap ?_)
            intro v hv
            by_cases hk : v.key = key
            · -- both rows are rows of the human with this key
              rw [if_pos hk]
              obtain ⟨a, ha, hacc⟩ := h.writesBack hs
              obtain ⟨b, hb, hacc'⟩ := h.now.users v hv
              have hkeys : a.user.key = b.user.key := by
                rw [← hacc.key, ← hacc'.key, hk]
              obtain rfl := ha.unique h.reached hb (v := a.user.key)
                (by simp [HumanAggregate.keys]) (by simp [HumanAggregate.keys, hkeys])
              exact ⟨hacc.key.trans hacc'.key.symm, hacc.subjectId.trans hacc'.subjectId.symm,
                hacc.email.trans hacc'.email.symm, hacc.username.trans hacc'.username.symm,
                hacc.usernameNormalized.trans hacc'.usernameNormalized.symm⟩
            · rw [if_neg hk]
              exact ⟨rfl, rfl, rfl, rfl, rfl⟩
      · exact .inl (hself _)
    | claimVerification tokenHash now =>
      refine .inl (hmap ?_)
      intro v _
      split <;> exact ⟨rfl, rfl, rfl, rfl, rfl⟩
    | setAccountStatus key status now =>
      refine .inl (hmap ?_)
      intro v _
      split <;> exact ⟨rfl, rfl, rfl, rfl, rfl⟩
    | _ => exact .inl (hself _)
  · rcases createHuman_after hs with hsame | ⟨hfree, hall⟩
    · rw [Db.users, hsame]
      exact .inl (hself _)
    · exact .inr ⟨a, hs, hfree, hall⟩

/-- A user row is one of an account that was there before, or of a new one. -/
theorem Next.users_from (h : Next w c i r e) {u : User} (hu : u ∈ e.after.db.users) :
    (∃ v ∈ e.before.db.users, u.SameAccount v) ∨
      ∃ a, e.stmt = .db (.identity (.createHuman a)) ∧ u = a.user ∧
        e.after.db.identity.actors = e.before.db.identity.actors ++ [a.actor] ∧
        e.after.db.identity.accounts = e.before.db.identity.accounts ++ [a.account] := by
  rcases h.users_change with hsame | ⟨a, hs, -, hafter⟩
  · obtain ⟨n, hn, rfl⟩ := List.mem_iff_getElem.mp hu
    have hn' : n < e.before.db.users.length := hsame.length_eq ▸ hn
    exact .inl ⟨_, List.getElem_mem hn', hsame.get hn hn'⟩
  · rw [Db.users, hafter] at hu
    rw [hafter]
    rcases List.mem_append.mp hu with hu | hu
    · exact .inl ⟨u, hu, ⟨rfl, rfl, rfl, rfl, rfl⟩⟩
    · exact .inr ⟨a, hs, List.mem_singleton.mp hu, rfl, rfl⟩

/-- One entry keeps the rows linked. -/
theorem Linked.after (hl : Linked e.before.db) (h : Next w c i r e) : Linked e.after.db where
  rootKeys := by
    rcases actors_after e with hsame | ⟨k, status, now, -, hmap⟩ | ⟨a, hfree, hnew⟩
    · rw [hsame]
      exact hl.rootKeys
    · rw [hmap]
      apply KeyedTable.nodup_map _ hl.rootKeys
      intro a _
      split <;> rfl
    · rw [hnew, List.map_append, List.map_singleton]
      apply List.nodup_append.mpr ⟨hl.rootKeys, List.nodup_singleton _, _⟩
      intro k hk k' hk' heq
      obtain ⟨b, hb, rfl⟩ := List.mem_map.mp hk
      obtain rfl := List.mem_singleton.mp hk'
      exact List.any_eq_false.mp hfree b hb (by simpa using heq)
  root := by
    intro u hu
    rcases h.users_from hu with ⟨v, hv, hsame⟩ | ⟨a, hs, rfl, hactors, -⟩
    · obtain ⟨key, hkey, hroot⟩ := hl.root v hv
      exact ⟨key, hsame.subjectId.trans hkey, hroot.after⟩
    · have hcond := h.conduct
      unfold Conducted at hcond
      rw [hs] at hcond
      exact ⟨a.actor.key, hcond.linked.1, a.actor, by rw [hactors]; simp, rfl, hcond.linked.2.2⟩
  account := by
    intro key hroot
    obtain ⟨x, hx, hkey, hkind⟩ := hroot
    -- a root that was there before has its account already
    have hold : ∀ y ∈ e.before.db.identity.actors, y.key = x.key → y.actorKind = x.actorKind →
        HasAccount e.after.db key := by
      intro y hy hk hkd
      exact (hl.account key ⟨y, hy, hk.trans hkey, hkd.trans hkind⟩).after
    rcases identity_after e with hsame | ⟨s, hs, hafter⟩
    · exact hold x (hsame ▸ hx) rfl rfl
    · cases s with
      | actor s =>
        rw [hafter] at hx
        cases s with
        | find k => exact hold x hx rfl rfl
        | setStatus k status now =>
          obtain ⟨y, hy, rfl⟩ := List.mem_map.mp hx
          apply hold y hy <;> split <;> rfl
        | create a =>
          simp only [IdentityStmt.exec, ActorStmt.exec] at hx
          split at hx
          · exact hold x hx rfl rfl
          · rcases List.mem_append.mp hx with hx | hx
            · exact hold x hx rfl rfl
            · -- a new root of an AI actor is no human
              obtain rfl := List.mem_singleton.mp hx
              have hcond := h.conduct
              unfold Conducted at hcond
              rw [hs] at hcond
              rw [hcond.kind] at hkind
              cases hkind
      | createHuman a =>
        rcases createHuman_after hs with hsame | ⟨-, hall⟩
        · exact hold x (hsame ▸ hx) rfl rfl
        · rw [hall] at hx
          rcases List.mem_append.mp hx with hx | hx
          · exact hold x hx rfl rfl
          · obtain rfl := List.mem_singleton.mp hx
            have hcond := h.conduct
            unfold Conducted at hcond
            rw [hs] at hcond
            exact ⟨a.account, by rw [hall]; simp, hcond.linked.2.1.trans hkey⟩
      | _ =>
        rw [hafter] at hx
        exact hold x hx rfl rfl

omit [Platform] in
theorem Linked.empty : Linked Db.empty := by
  constructor
  · exact List.nodup_nil
  · exact fun _ h => absurd h List.not_mem_nil
  · exact fun _ h => absurd h.choose_spec.1 List.not_mem_nil

variable {now : Timestamp}

/-- In every state of a run the rows are linked. -/
theorem linked_holds (hc : Reachable (World.fresh now) c) : Linked c.state.db := by
  refine (hc.lift (P := fun _ w => Linked w.db) conduct_met Linked.empty ?_
    fun _ _ _ => trivial).2
  intro c i r e hc _ hl hbefore _ hconduct
  obtain ⟨hnow, hpast⟩ := lineage_along hc
  have hnext : Next (World.fresh now) c i r e := ⟨hc, hbefore ▸ hnow, hpast, hconduct⟩
  rw [← hbefore] at hl
  exact hl.after hnext

end

end SoulAuth
