import SoulAuth.Proofs.AiAuthentication

/-! # The end of an AI actor's sessions

A revocation marks the key and then deletes the sessions that it opened; a
change of status marks the actor and then deletes its sessions. Nothing
looks at either when a session is inserted: an authentication that is past
its own checks inserts its session after the deletion, and the session lives.
-/

namespace SoulAuth

open Framework Framework.System

section

variable [Platform]

/-! ## Acceptance -/

/-- The request has accepted the token, as the one of an AI actor. -/
def Accepted (c : (server).Conf) (k : Nat) (token : Claims) : Prop :=
  (∃ cfg a, c.reqOf k = some ⟨cfg, .currentActor token⟩ ∧ c.Returned k (.ok (.actor a))) ∨
    ∃ cfg a s, c.reqOf k = some ⟨cfg, .introspect token⟩ ∧
      c.Returned k (.ok (.introspected a s))

/-- Between `c₀` and `c` the token was accepted: by a request that had not
    yet found its session in `c₀`. -/
def AcceptedSince (c₀ c : (server).Conf) (token : Claims) : Prop :=
  ∃ k, Accepted c k token ∧ ¬ FoundLive (entriesOf (S := server) k c₀.trace) token

/-- The authentication of request `i` inserts the session of the token. -/
structure Inserts (c : (server).Conf) (i : Nat) (token : Claims) (s : Session) : Prop where
  request : ∃ cfg proof, c.reqOf i = some ⟨cfg, .authenticateAiActor proof⟩
  entry : ∃ e, (i, e) ∈ c.trace ∧ e.stmt = .db (.session (.create s))
  token : s.tokenHash = hashBearer token

/-! ## The conditions -/

/-- An authentication reads the keys of the actor before request `j` revokes
    the key, and inserts its session after `j` has deleted those of the key. -/
def SlipsPast (c : (server).Conf) (j : Nat) (actorKey key : Str) : Prop :=
  ∃ i now s tr₁ e₁ tr₂ e₂ tr₃ e₃ tr₄ e₄ tr₅,
    c.trace =
      tr₁ ++ (i, e₁) :: (tr₂ ++ (j, e₂) :: (tr₃ ++ (j, e₃) :: (tr₄ ++ (i, e₄) :: tr₅))) ∧
    e₁.stmt = .db (.ai (.listCredentials actorKey)) ∧
    e₂.stmt = .db (.ai (.revokeCredential key actorKey now)) ∧
    e₃.stmt = .db (.session (.deleteByCredential actorKey (aiCredentialRef key))) ∧
    e₄.stmt = .db (.session (.create s)) ∧ s.credentialRefs = [aiCredentialRef key]

/-- The actor that a request names, by its key or by the quoted form of it. -/
def namedActor (actorKey : Str) : Str := idArgumentKey (actorAddress actorKey)

/-- An authentication that has started in `c₀` inserts a session of the actor
    after request `j` has deleted its sessions. -/
def InsertsLate (c₀ c : (server).Conf) (j : Nat) (actorKey : Str) : Prop :=
  ∃ i s tr₁ e₁ tr₂ e₂ tr₃, c.trace = tr₁ ++ (j, e₁) :: (tr₂ ++ (i, e₂) :: tr₃) ∧
    i < c₀.threads.length ∧ e₁.stmt = .db (.session (.deleteByActor actorKey)) ∧
    e₂.stmt = .db (.session (.create s)) ∧ s.userId = actorKey

/-- Request `j` has revoked the key. -/
def Revoked (c₀ : (server).Conf) (j : Nat) (actorKey key : Str) : Prop :=
  (∃ cfg, c₀.reqOf j = some ⟨cfg, .revokeAiCredential actorKey key⟩) ∧ c₀.Returned j (.ok .ok)

/-- Request `j` has suspended or retired the actor. -/
def Deactivated (c₀ : (server).Conf) (j : Nat) (actorKey : Str) : Prop :=
  (∃ cfg status, c₀.reqOf j = some ⟨cfg, .setAiActorStatus actorKey status⟩ ∧
    status ≠ .active) ∧ c₀.Returned j (.ok .ok)

/-! ## Sessions along a run -/

section

variable {w : World} {now : Timestamp} {c : (server).Conf} {i j k : Nat}
  {e e' e₃ : Entry machine} {s s' : Session} {tr tr₁ tr₂ tr₃ : List (Nat × Entry machine)}
  {token : Claims}

omit [Platform] in
/-- Two members of a list are one, or one stands before the other. -/
theorem split_members {α : Type} {l : List α} {x y : α} (hx : x ∈ l) (hy : y ∈ l) :
    x = y ∨ (∃ l₁ l₂ l₃, l = l₁ ++ x :: (l₂ ++ y :: l₃)) ∨
      ∃ l₁ l₂ l₃, l = l₁ ++ y :: (l₂ ++ x :: l₃) := by
  obtain ⟨l₁, l₂, rfl⟩ := List.append_of_mem hx
  rcases List.mem_append.mp hy with hy | hy
  · obtain ⟨l₃, l₄, rfl⟩ := List.append_of_mem hy
    exact .inr (.inr ⟨l₃, l₄, l₂, by simp⟩)
  · rcases List.mem_cons.mp hy with rfl | hy
    · exact .inl rfl
    · obtain ⟨l₃, l₄, rfl⟩ := List.append_of_mem hy
      exact .inr (.inl ⟨l₁, l₃, l₄, rfl⟩)

/-- The session of a token is created by one entry. -/
theorem session_creation_unique (hc : Reachable w c) (hm : (i, e) ∈ c.trace)
    (hm' : (j, e') ∈ c.trace) (hs : e.stmt = .db (.session (.create s)))
    (hs' : e'.stmt = .db (.session (.create s'))) (heq : s.tokenHash = s'.tokenHash) :
    (i, e) = (j, e') := by
  rcases split_members hm hm' with heq' | ⟨tr₁, tr₂, tr₃, htr⟩ | ⟨tr₁, tr₂, tr₃, htr⟩
  · exact heq'
  · exact absurd heq (session_created_once hc htr hs hs')
  · exact absurd heq.symm (session_created_once hc htr hs' hs)

/-- A session of a later state was there before, or is created on the way. -/
theorem session_origin {w' : World} (h : Steps (S := server) w tr w') (hs : s ∈ w'.db.sessions) :
    s ∈ w.db.sessions ∨ ∃ i e, (i, e) ∈ tr ∧ e.stmt = .db (.session (.create s)) := by
  rcases h.origin (P := fun w => s ∈ w.db.sessions) hs with hfirst | ⟨i, e, hm, hafter, hbefore⟩
  · exact .inl hfirst
  · rcases session_before hafter with hin | hcreate
    · exact absurd hin hbefore
    · exact .inr ⟨i, e, hm, hcreate⟩

/-- What a positive look-up has found. -/
theorem live_session {t : Timestamp}
    (h : Answered (.session (.isActive (hashBearer token) t)) true e) :
    ∃ s ∈ e.before.db.sessions, s.tokenHash = hashBearer token := by
  have hreply := h.reply
  simp only [DbStmt.exec, SessionStmt.exec, Except.ok.injEq] at hreply
  obtain ⟨s, hs, hlive⟩ := List.any_eq_true.mp hreply
  exact ⟨s, hs, by simpa using (Bool.and_eq_true_iff.mp hlive).1⟩

/-- A session that is found live after an entry was there after this entry,
    or is inserted in between. -/
theorem session_outlives {t : Timestamp} (hc : Reachable (World.fresh now) c)
    (htr : c.trace = tr₁ ++ (j, e₃) :: (tr₂ ++ (k, e) :: tr₃))
    (hlive : Answered (.session (.isActive (hashBearer token) t)) true e)
    (hins : Inserts c i token s) :
    s ∈ e₃.after.db.sessions ∨
      ∃ e₄, (i, e₄) ∈ tr₂ ∧ e₄.stmt = .db (.session (.create s)) := by
  obtain ⟨e₄, hm₄, hs₄⟩ := hins.entry
  obtain ⟨s', hs', htoken⟩ := live_session hlive
  have hall := hc.steps
  rw [htr] at hall
  have hafter := hall.split_entry.2.split_entry.1
  have hthen : Steps (S := server) (World.fresh now) (tr₁ ++ [(j, e₃)]) e₃.after :=
    .snoc j e₃ hall.split_entry.1 rfl
  -- whoever created the row that was found is the one who inserts the session
  have hunique : ∀ {i' e'}, (i', e') ∈ c.trace → e'.stmt = .db (.session (.create s')) →
      (i, e₄) = (i', e') ∧ s = s' := by
    intro i' e' hm' hcreate
    have hsame := session_creation_unique hc hm₄ hm' hs₄ hcreate (hins.token.trans htoken.symm)
    cases hsame
    cases hs₄.symm.trans hcreate
    exact ⟨rfl, rfl⟩
  rcases session_origin hafter hs' with hthere | ⟨i', e', hm', hcreate⟩
  · rcases session_origin hthen hthere with hfirst | ⟨i', e', hm', hcreate⟩
    · cases hfirst
    · have hmem : (i', e') ∈ c.trace := by
        rw [htr]
        rcases List.mem_append.mp hm' with hm' | hm'
        · exact List.mem_append_left _ hm'
        · rw [List.mem_singleton.mp hm']
          simp
      obtain ⟨-, rfl⟩ := hunique hmem hcreate
      exact .inl hthere
  · have hmem : (i', e') ∈ c.trace := by
      rw [htr]
      simp [hm']
    obtain ⟨hsame, rfl⟩ := hunique hmem hcreate
    cases hsame
    exact .inr ⟨e₄, hm', hs₄⟩

end

/-! ## What an authentication has found -/

section

variable {now : Timestamp} {c : (server).Conf} {i j k : Nat} {e e₂ : Entry machine}
  {s : Session} {tr₁ tr₂ : List (Nat × Entry machine)} {actorKey key : Str}

/-- The actor of a proof is found under its own key. -/
theorem proved_actor (hc : Reachable (World.fresh now) c) {cfg : Config} {proof : AiActorProof}
    {a : ActorIdentity} {x : AiActorCredential} (htr : c.trace = tr₁ ++ tr₂)
    (hp : Proved cfg proof (entriesOf (S := server) i tr₁) a x) : a.key = proof.actorKey := by
  obtain ⟨t, h₁, e, h₂, hh, hsaw, hconsumed⟩ := hp.consumed
  obtain ⟨tr₃, tr₄, rfl, rfl, -⟩ := entriesOf_split hh
  have htr' : c.trace = tr₃ ++ (i, e) :: (tr₄ ++ tr₂) := by
    rw [htr]
    simp
  have hspent := challenge_spent hc htr' hconsumed hsaw
  exact hp.actor.key_eq (hspent.plain hc)

omit [Platform] in
theorem aiCredentialRef_inj {key' : Str} (h : aiCredentialRef key = aiCredentialRef key') :
    key = key' := by
  unfold aiCredentialRef recordAddress at h
  exact (List.cons.inj (List.append_cancel_left h)).2

/-- The keys that are listed are in the table. -/
theorem listed_credential {keys : List AiActorCredential} {x : AiActorCredential}
    (h : Answered (.ai (.listCredentials actorKey)) keys e) (hx : x ∈ keys) :
    x ∈ e.before.db.ai.credentials ∧ x.actorIdentityId = actorKey := by
  have hreply := h.reply
  simp only [DbStmt.exec, AiActorStmt.exec, Except.ok.injEq] at hreply
  rw [← hreply, List.mem_insertionSort] at hx
  obtain ⟨hmem, hactor⟩ := List.mem_filter.mp hx
  exact ⟨hmem, by simpa using hactor⟩

/-- A key that is revoked was one of the actor, and is revoked from then on. -/
theorem revoked_credential {t : Timestamp}
    (hn : (e.before.db.ai.credentials.map AiActorCredential.key).Nodup)
    (h : Answered (.ai (.revokeCredential key actorKey t)) true e) :
    (∃ x, credentialAt key e.before.db.ai.credentials = some x ∧ x.actorIdentityId = actorKey) ∧
      ∃ x, credentialAt key e.after.db.ai.credentials = some x ∧ x.status = .revoked := by
  have hreply := h.reply
  simp only [DbStmt.exec, AiActorStmt.exec, Except.ok.injEq] at hreply
  obtain ⟨x, hx, hrevocable⟩ := List.any_eq_true.mp hreply
  obtain ⟨⟨hkey, hactor⟩, -⟩ : (x.key = key ∧ x.actorIdentityId = actorKey) ∧
      x.status = .active := by
    simpa [AiActorCredential.isRevocable] using hrevocable
  have hrow : credentialAt key e.before.db.ai.credentials = some x :=
    hkey ▸ KeyedTable.rowAt_of_mem hn hx
  refine ⟨⟨x, hrow, hactor⟩, { x with status := .revoked, revokedAt := some t }, ?_, rfl⟩
  rw [h.after]
  simp only [DbStmt.exec, AiActorStmt.exec]
  rw [credentialAt, KeyedTable.rowAt_map (fun r _ => by split <;> rfl),
    show KeyedTable.rowAt _ key _ = some x from hrow, Option.map_some, if_pos hrevocable]

/-- The record keys of the table that an entry finds. -/
theorem credentialKeys_before (hc : Reachable (World.fresh now) c)
    (htr : c.trace = tr₁ ++ (i, e) :: tr₂) :
    (e.before.db.ai.credentials.map AiActorCredential.key).Nodup := by
  obtain ⟨c₁, hc₁, -, hstate⟩ := hc.before htr
  exact hstate ▸ credentialKeys_nodup hc₁

/-- A key keeps its actor up to the end of the run, and stays revoked. -/
theorem credential_last {w : World} (hc : Reachable w c) (hm : (i, e) ∈ c.trace)
    {x : AiActorCredential} (hx : credentialAt key e.before.db.ai.credentials = some x) :
    ∃ y, credentialAt key c.state.db.ai.credentials = some y ∧
      y.actorIdentityId = x.actorIdentityId := by
  obtain ⟨tr₁, tr₂, htr⟩ := List.append_of_mem hm
  have hall := hc.steps
  rw [htr] at hall
  obtain ⟨y, hy, hactor, -⟩ := credentialAt_after hx
  obtain ⟨z, hz, hactor', -⟩ := credentialAt_along hall.split_entry.2 hy
  exact ⟨z, hz, hactor'.trans hactor⟩

/-- An authentication inserts a session of its actor, under a key that it
    has found among those of the actor, and not revoked. -/
theorem inserted_session (hc : Reachable (World.fresh now) c) {cfg : Config} {proof : AiActorProof}
    (hr : c.reqOf i = some ⟨cfg, .authenticateAiActor proof⟩)
    (htr : c.trace = tr₁ ++ (i, e) :: tr₂) (hs : e.stmt = .db (.session (.create s))) :
    s.userId = proof.actorKey ∧ ∃ e₁ keys x, (i, e₁) ∈ tr₁ ∧
      Answered (.ai (.listCredentials proof.actorKey)) keys e₁ ∧ x ∈ keys ∧
      s.credentialRefs = [aiCredentialRef x.key] ∧ x.status = .active := by
  obtain ⟨r, hr', hai⟩ := (aiConduct_holds hc).entries tr₁ i e tr₂ htr
  cases hr.symm.trans hr'
  change AiConducted _ _ e at hai
  unfold AiConducted at hai
  rw [hs] at hai
  obtain ⟨a, x, hproved, hactor, href⟩ := (hai proof rfl).proved
  obtain ⟨keys, ⟨e₁, he₁, hlisted⟩, hx⟩ := hproved.listed
  refine ⟨hactor.trans (proved_actor hc htr hproved), e₁, keys, x, mem_entriesOf.mp he₁, hlisted,
    hx, href, ?_⟩
  have husable := hproved.usable
  unfold AiActorCredential.canAuthenticate at husable
  exact (by simpa using husable : x.status = .active ∧ _).1

end

/-! ## After the end -/

section

variable {now : Timestamp} {c₀ : (server).Conf} {as : List (server).Action} {i j : Nat}
  {token : Claims} {s : Session} {actorKey key : Str}

/-- The look-up of a request that has accepted a token since. -/
theorem found_since (hc₀ : Reachable (World.fresh now) c₀)
    (hacc : AcceptedSince c₀ (c₀.run as) token) :
    ∃ k tr₁ e tr₂ t, (c₀.run as).trace = c₀.trace ++ (tr₁ ++ (k, e) :: tr₂) ∧
      Answered (.session (.isActive (hashBearer token) t)) true e := by
  obtain ⟨k, haccepted, hnot⟩ := hacc
  have hc := hc₀.run as
  have hlive : FoundLive (entriesOf (S := server) k (c₀.run as).trace) token := by
    rcases haccepted with ⟨cfg, a, hr, hret⟩ | ⟨cfg, a, x, hr, hret⟩
    all_goals
      obtain ⟨r, hr', hout⟩ := (aiConduct_holds hc).returned hret
      cases hr.symm.trans hr'
      exact hout token rfl
  obtain ⟨t, e, he, hfound⟩ := hlive
  obtain ⟨tr, htr, -⟩ := c₀.run_trace as
  rw [htr, entriesOf_append] at he
  rcases List.mem_append.mp he with he | he
  · exact absurd ⟨t, e, he, hfound⟩ hnot
  · obtain ⟨tr₁, tr₂, rfl⟩ := List.append_of_mem (mem_entriesOf.mp he)
    exact ⟨k, tr₁, e, tr₂, t, htr, hfound⟩

/-- The statements of a revocation, in the order of the trace. -/
theorem revoked_trace (hc₀ : Reachable (World.fresh now) c₀) (h : Revoked c₀ j actorKey key) :
    ∃ t tr₁ e₂ tr₂ e₃ tr₃, c₀.trace = tr₁ ++ (j, e₂) :: (tr₂ ++ (j, e₃) :: tr₃) ∧
      Answered (.ai (.revokeCredential key actorKey t)) true e₂ ∧
      Answered (.session (.deleteByCredential actorKey (aiCredentialRef key))) () e₃ := by
  obtain ⟨⟨cfg, hr⟩, hret⟩ := h
  obtain ⟨r, hr', hout⟩ := (aiConduct_holds hc₀).returned hret
  cases hr.symm.trans hr'
  obtain ⟨t, h₁, e₂, h₂, e₃, h₃, hh, hrevoked, hdeleted⟩ := hout.1 actorKey key rfl
  obtain ⟨tr₁, tr', htr, -, hrest⟩ := entriesOf_split hh
  obtain ⟨tr₂, tr₃, rfl, -, -⟩ := entriesOf_split hrest
  exact ⟨t, tr₁, e₂, tr₂, e₃, tr₃, htr, hrevoked, hdeleted⟩

/-- The sessions of a revoked key are accepted no more, if none of them was
    inserted late. -/
theorem revocation_ends (hc₀ : Reachable (World.fresh now) c₀) (hrev : Revoked c₀ j actorKey key)
    (hslip : ¬ SlipsPast (c₀.run as) j actorKey key) (hins : Inserts (c₀.run as) i token s)
    (href : s.credentialRefs = [aiCredentialRef key]) :
    ¬ AcceptedSince c₀ (c₀.run as) token := by
  intro hacc
  have hc := hc₀.run as
  obtain ⟨k, tr₄, e, tr₅, t, hrun, hlive⟩ := found_since hc₀ hacc
  obtain ⟨t', tr₁, e₂, tr₂, e₃, tr₃, hfirst, hrevoked, hdeleted⟩ := revoked_trace hc₀ hrev
  have htr₂ : (c₀.run as).trace =
      tr₁ ++ (j, e₂) :: (tr₂ ++ (j, e₃) :: (tr₃ ++ (tr₄ ++ (k, e) :: tr₅))) := by
    rw [hrun, hfirst]
    simp
  have htr₃ : (c₀.run as).trace =
      (tr₁ ++ (j, e₂) :: tr₂) ++ (j, e₃) :: ((tr₃ ++ tr₄) ++ (k, e) :: tr₅) := by
    rw [htr₂]
    simp
  obtain ⟨cfg, proof, hreq⟩ := hins.request
  obtain ⟨⟨x, hx, hxactor⟩, z, hz, hzrevoked⟩ :=
    revoked_credential (credentialKeys_before hc htr₂) hrevoked
  -- what the authentication found of the key, at whatever place it inserts its session
  have hfound : ∀ {l₁ e₄ l₂}, (c₀.run as).trace = l₁ ++ (i, e₄) :: l₂ →
      e₄.stmt = .db (.session (.create s)) → s.userId = actorKey ∧
        ∃ e₁ y, (i, e₁) ∈ l₁ ∧ e₁.stmt = .db (.ai (.listCredentials actorKey)) ∧
          credentialAt key e₁.before.db.ai.credentials = some y ∧ y.status = .active := by
    intro l₁ e₄ l₂ hl hs₄
    obtain ⟨huser, e₁, keys, y, hm₁, hlisted, hy, hyref, hactive⟩ :=
      inserted_session hc hreq hl hs₄
    obtain rfl : key = y.key :=
      aiCredentialRef_inj (List.singleton_injective (href.symm.trans hyref))
    obtain ⟨hymem, hyactor⟩ := listed_credential hlisted hy
    obtain ⟨l₃, l₄, rfl⟩ := List.append_of_mem hm₁
    have hl' : (c₀.run as).trace = l₃ ++ (i, e₁) :: (l₄ ++ (i, e₄) :: l₂) := by
      rw [hl]
      simp
    have hat := KeyedTable.rowAt_of_mem (credentialKeys_before hc hl') hymem
    -- the key has one actor, so it is the one of the revocation
    have hm₂ : (j, e₂) ∈ (c₀.run as).trace := by
      rw [htr₂]
      simp
    have hm₁' : (i, e₁) ∈ (c₀.run as).trace := by
      rw [hl']
      simp
    obtain ⟨u, hu, huactor⟩ := credential_last hc hm₂ hx
    obtain ⟨v, hv, hvactor⟩ := credential_last hc hm₁' hat
    obtain rfl := Option.some.inj (hu.symm.trans hv)
    have howner : proof.actorKey = actorKey := by
      rw [← hyactor, ← hvactor, huactor, hxactor]
    exact ⟨huser.trans howner, e₁, y, hm₁, howner ▸ hlisted.stmt, hat, hactive⟩
  rcases session_outlives hc htr₃ hlive hins with hthere | ⟨e₄, hm₄, hs₄⟩
  · -- the deletion has removed it
    obtain ⟨e₄, hm₄, hs₄⟩ := hins.entry
    obtain ⟨l₁, l₂, hl⟩ := List.append_of_mem hm₄
    obtain ⟨huser, -⟩ := hfound hl hs₄
    rw [hdeleted.after] at hthere
    have hkept := (List.mem_filter.mp hthere).2
    rw [huser, href] at hkept
    simp at hkept
  · -- it was inserted after the deletion, so the keys were read before the revocation
    obtain ⟨m₁, m₂, hm⟩ := List.append_of_mem hm₄
    have htr₄ : (c₀.run as).trace = (tr₁ ++ (j, e₂) :: (tr₂ ++ (j, e₃) :: m₁)) ++
        (i, e₄) :: (m₂ ++ (k, e) :: tr₅) := by
      rw [htr₃, hm]
      simp
    obtain ⟨-, e₁, y, hm₁, hs₁, hy, hactive⟩ := hfound htr₄ hs₄
    rcases List.mem_append.mp hm₁ with hm₁ | hm₁
    · obtain ⟨n₁, n₂, rfl⟩ := List.append_of_mem hm₁
      apply hslip
      refine ⟨i, t', s, n₁, e₁, n₂, e₂, tr₂, e₃, m₁, e₄, m₂ ++ (k, e) :: tr₅, ?_, hs₁,
        hrevoked.stmt, hdeleted.stmt, hs₄, href⟩
      rw [htr₄]
      simp
    · rcases List.mem_cons.mp hm₁ with heq | hm₁
      · cases heq
        cases hs₁.symm.trans hrevoked.stmt
      · obtain ⟨n₁, n₂, hn⟩ := List.append_of_mem hm₁
        have hall := hc.steps
        rw [htr₄, hn] at hall
        have hafter : Steps (S := server) e₂.after n₁ e₁.before := by
          have hcut : (tr₁ ++ (j, e₂) :: (n₁ ++ (i, e₁) :: n₂)) ++
              (i, e₄) :: (m₂ ++ (k, e) :: tr₅) =
              tr₁ ++ (j, e₂) :: (n₁ ++ (i, e₁) :: (n₂ ++ (i, e₄) :: (m₂ ++ (k, e) :: tr₅))) := by
            simp
          rw [hcut] at hall
          exact hall.split_entry.2.split_entry.1
        obtain ⟨v, hv, -, hvrevoked⟩ := credentialAt_along hafter hz
        obtain rfl := Option.some.inj (hv.symm.trans hy)
        cases (hvrevoked hzrevoked).symm.trans hactive

/-- The sessions of an actor that was suspended or retired, opened by
    authentications that had started, are accepted no more, if the request
    names the actor by its key and none of them was inserted late. -/
theorem deactivation_ends (hc₀ : Reachable (World.fresh now) c₀) (hdeact : Deactivated c₀ j actorKey)
    (hname : namedActor actorKey = actorKey) (hlate : ¬ InsertsLate c₀ (c₀.run as) j actorKey)
    (hi : i < c₀.threads.length) (hins : Inserts (c₀.run as) i token s)
    (huser : s.userId = namedActor actorKey) : ¬ AcceptedSince c₀ (c₀.run as) token := by
  intro hacc
  have hc := hc₀.run as
  rw [hname] at huser
  obtain ⟨k, tr₃, e, tr₄, t, hrun, hlive⟩ := found_since hc₀ hacc
  obtain ⟨⟨cfg, status, hr, hstatus⟩, hret⟩ := hdeact
  obtain ⟨r, hr', hout⟩ := (aiConduct_holds hc₀).returned hret
  cases hr.symm.trans hr'
  obtain ⟨a, -, e₃, he₃, hdeleted⟩ := hout.2 actorKey status rfl hstatus
  obtain ⟨tr₁, tr₂, hfirst⟩ := List.append_of_mem (mem_entriesOf.mp he₃)
  have htr : (c₀.run as).trace = tr₁ ++ (j, e₃) :: ((tr₂ ++ tr₃) ++ (k, e) :: tr₄) := by
    rw [hrun, hfirst]
    simp
  rcases session_outlives hc htr hlive hins with hthere | ⟨e₄, hm₄, hs₄⟩
  · rw [hdeleted.after] at hthere
    have hkept := (List.mem_filter.mp hthere).2
    rw [huser] at hkept
    simp at hkept
  · obtain ⟨m₁, m₂, hm⟩ := List.append_of_mem hm₄
    apply hlate
    refine ⟨i, s, tr₁, e₃, m₁, e₄, m₂ ++ (k, e) :: tr₄, ?_, hi, hdeleted.stmt, hs₄, huser⟩
    rw [htr, hm]
    simp

/-- In `c`, later than `c₀`, no session of a key that was revoked in `c₀` has
    been accepted since. -/
def EndsWithKey (c₀ c : (server).Conf) : Prop :=
  ∀ j actorKey key i token s, Revoked c₀ j actorKey key → Inserts c i token s →
    s.credentialRefs = [aiCredentialRef key] → ¬ AcceptedSince c₀ c token

/-- Nor has a session of an actor that was suspended or retired in `c₀`, if
    its authentication had started. -/
def EndsWithActor (c₀ c : (server).Conf) : Prop :=
  ∀ j actorKey i token s, Deactivated c₀ j actorKey → i < c₀.threads.length →
    Inserts c i token s → s.userId = namedActor actorKey → ¬ AcceptedSince c₀ c token

/-- **The end of sessions.** Sessions end with their key and with their actor
    in every run in which no authentication that is past its checks inserts
    its session after the deletion, and in which every change of status names
    the actor by its key. -/
theorem sessions_end (hc₀ : Reachable (World.fresh now) c₀)
    (hslip : ∀ j actorKey key, Revoked c₀ j actorKey key →
      ¬ SlipsPast (c₀.run as) j actorKey key)
    (hlate : ∀ j actorKey, Deactivated c₀ j actorKey →
      namedActor actorKey = actorKey ∧ ¬ InsertsLate c₀ (c₀.run as) j actorKey) :
    EndsWithKey c₀ (c₀.run as) ∧ EndsWithActor c₀ (c₀.run as) := by
  constructor
  · intro j actorKey key i token s hrev hins href
    exact revocation_ends hc₀ hrev (hslip j actorKey key hrev) hins href
  · intro j actorKey i token s hdeact hi hins huser
    obtain ⟨hname, hnot⟩ := hlate j actorKey hdeact
    exact deactivation_ends hc₀ hdeact hname hnot hi hins huser

end

end

namespace Sample

/-- The record key of the agent's key. -/
def agentCredential : Str := numbered 'u' 2

/-- Request 2 authenticates the actor up to the statement that inserts the
    session. -/
def proofVerified : List (server).Action :=
  challenged ++ start config (.authenticateAiActor agentProof) :: steps 2 8

/-- Request 3 revokes the key. -/
def revoking : List (server).Action :=
  start config (.revokeAiCredential agentKey agentCredential) :: steps 3 3

/-- Request 3 suspends the actor, and request 4 makes it active again. -/
def suspending : List (server).Action :=
  start config (.setAiActorStatus agentKey .suspended) :: steps 3 4 ++
    start config (.setAiActorStatus agentKey .active) :: steps 4 3

/-- Request 2 inserts its session, and request `k` presents the token. -/
def presented (k : Nat) : List (server).Action :=
  steps 2 1 ++ start config (.currentActor agentToken) :: steps k 4

/-- The entry inserts the session of the token, under the agent's key. -/
def insertsAgentSession (x : Nat × Entry machine) : Bool :=
  match x.2.stmt with
  | .db (.session (.create s)) => x.1 = 2 && s.tokenHash = hashBearer agentToken &&
      s.credentialRefs = [aiCredentialRef agentCredential] && s.userId = namedActor agentKey
  | _ => false

theorem exists_insertion {c : (server).Conf} (hm : c.trace.any insertsAgentSession = true)
    (hr : c.reqOf 2 = some ⟨config, .authenticateAiActor agentProof⟩) :
    ∃ s, Inserts c 2 agentToken s ∧ s.credentialRefs = [aiCredentialRef agentCredential] ∧
      s.userId = namedActor agentKey := by
  obtain ⟨⟨i, ctx, stmt, w⟩, hm, h⟩ := List.any_eq_true.mp hm
  unfold insertsAgentSession at h
  split at h
  · next s hs =>
    obtain ⟨⟨⟨hi, htoken⟩, href⟩, huser⟩ : ((i = 2 ∧ s.tokenHash = hashBearer agentToken) ∧
        s.credentialRefs = [aiCredentialRef agentCredential]) ∧
          s.userId = namedActor agentKey := by
      simpa using h
    subst hi
    exact ⟨s, ⟨⟨config, agentProof, hr⟩, ⟨_, hm, hs⟩, htoken⟩, href, huser⟩
  · cases h

/-- A request that starts later has found nothing yet. -/
theorem acceptedSince_of_later {c₀ c : (server).Conf} {k : Nat} {token : Claims}
    {a : ActorIdentity} (hr : c.reqOf k = some ⟨config, .currentActor token⟩)
    (hret : c.outcome k = some (.ok (.actor a)))
    (hnone : (entriesOf (S := server) k c₀.trace).length = 0) : AcceptedSince c₀ c token := by
  refine ⟨k, .inl ⟨config, a, hr, Conf.returned_of_outcome hret⟩, ?_⟩
  intro hfound
  obtain ⟨t, e, he, -⟩ := hfound
  rw [List.length_eq_zero_iff.mp hnone] at he
  cases he

def agentRoot : ActorIdentity where
  key := agentKey
  subjectKey := numbered 'u' 0
  actorKind := .aiActor
  status := .active
  createdAt := 0
  updatedAt := 0

/-- The session is inserted after the key was revoked, and is accepted. -/
theorem accepted_after_revocation :
    (after (proofVerified ++ revoking)).reqOf 3 =
      some ⟨config, .revokeAiCredential agentKey agentCredential⟩ ∧
    (after (proofVerified ++ revoking)).outcome 3 = some (.ok .ok) ∧
    (entriesOf (S := server) 4 (after (proofVerified ++ revoking)).trace).length = 0 ∧
    ((after (proofVerified ++ revoking)).run (presented 4)).trace.any insertsAgentSession = true ∧
    ((after (proofVerified ++ revoking)).run (presented 4)).reqOf 2 =
      some ⟨config, .authenticateAiActor agentProof⟩ ∧
    ((after (proofVerified ++ revoking)).run (presented 4)).reqOf 4 =
      some ⟨config, .currentActor agentToken⟩ ∧
    ((after (proofVerified ++ revoking)).run (presented 4)).outcome 4 =
      some (.ok (.actor agentRoot)) := by decide +kernel

/-- The session is inserted after the actor was suspended, and is accepted. -/
theorem accepted_after_suspension :
    (after (proofVerified ++ suspending)).reqOf 3 =
      some ⟨config, .setAiActorStatus agentKey .suspended⟩ ∧
    (after (proofVerified ++ suspending)).outcome 3 = some (.ok .ok) ∧
    (entriesOf (S := server) 5 (after (proofVerified ++ suspending)).trace).length = 0 ∧
    ((after (proofVerified ++ suspending)).run (presented 5)).trace.any insertsAgentSession =
      true ∧
    ((after (proofVerified ++ suspending)).run (presented 5)).reqOf 2 =
      some ⟨config, .authenticateAiActor agentProof⟩ ∧
    2 < (after (proofVerified ++ suspending)).threads.length ∧
    ((after (proofVerified ++ suspending)).run (presented 5)).reqOf 5 =
      some ⟨config, .currentActor agentToken⟩ ∧
    ((after (proofVerified ++ suspending)).run (presented 5)).outcome 5 =
      some (.ok (.actor agentRoot)) := by decide +kernel

theorem sessions_survive :
    (¬ ∀ (now : Timestamp) (c₀ : (server).Conf) (as : List (server).Action),
      Reachable (World.fresh now) c₀ → EndsWithKey c₀ (c₀.run as)) ∧
    ¬ ∀ (now : Timestamp) (c₀ : (server).Conf) (as : List (server).Action),
      Reachable (World.fresh now) c₀ → EndsWithActor c₀ (c₀.run as) := by
  constructor
  · intro hall
    have hends := hall 0 _ (presented 4) (after_reachable (proofVerified ++ revoking))
    obtain ⟨hreq, hdone, hnone, hinserts, hproof, hpresents, haccepted⟩ :=
      accepted_after_revocation
    obtain ⟨s, hins, href, -⟩ := exists_insertion hinserts hproof
    have hrev : Revoked (after (proofVerified ++ revoking)) 3 agentKey agentCredential :=
      ⟨⟨config, hreq⟩, Conf.returned_of_outcome hdone⟩
    apply hends 3 agentKey agentCredential 2 agentToken s hrev hins href
    exact acceptedSince_of_later hpresents haccepted hnone
  · intro hall
    have hends := hall 0 _ (presented 5) (after_reachable (proofVerified ++ suspending))
    obtain ⟨hreq, hdone, hnone, hinserts, hproof, hstarted, hpresents, haccepted⟩ :=
      accepted_after_suspension
    obtain ⟨s, hins, -, huser⟩ := exists_insertion hinserts hproof
    have hdeact : Deactivated (after (proofVerified ++ suspending)) 3 agentKey :=
      ⟨⟨config, .suspended, hreq, by decide⟩, Conf.returned_of_outcome hdone⟩
    apply hends 3 agentKey 2 agentToken s hdeact hstarted hins huser
    exact acceptedSince_of_later hpresents haccepted hnone

/-- The entry deletes the sessions of a key or of an actor. -/
def deletesSessions (x : Nat × Entry machine) : Bool :=
  match x.2.stmt with
  | .db (.session (.deleteByCredential _ _)) | .db (.session (.deleteByActor _)) => true
  | _ => false

def insertsSession (x : Nat × Entry machine) : Bool :=
  match x.2.stmt with
  | .db (.session (.create _)) => true
  | _ => false

/-- No session is inserted after a deletion. -/
def InsertsInTime (tr : List (Nat × Entry machine)) : Prop :=
  tr.Pairwise fun x y => ¬ (deletesSessions x && insertsSession y) = true

instance (tr : List (Nat × Entry machine)) : Decidable (InsertsInTime tr) :=
  inferInstanceAs
    (Decidable (tr.Pairwise fun x y => ¬ (deletesSessions x && insertsSession y) = true))

theorem InsertsInTime.not_after {tr tr₁ tr₂ tr₃ : List (Nat × Entry machine)}
    {x y : Nat × Entry machine} (h : InsertsInTime tr) (htr : tr = tr₁ ++ x :: (tr₂ ++ y :: tr₃))
    (hx : deletesSessions x = true) (hy : insertsSession y = true) : False := by
  rw [htr] at h
  obtain ⟨-, htail, -⟩ := List.pairwise_append.mp h
  apply (List.pairwise_cons.mp htail).1 y (by simp)
  rw [hx, hy]
  rfl

theorem InsertsInTime.not_slips {c : (server).Conf} (h : InsertsInTime c.trace) {j : Nat}
    {actorKey key : Str} : ¬ SlipsPast c j actorKey key := by
  intro hslip
  obtain ⟨i, t, s, tr₁, e₁, tr₂, e₂, tr₃, e₃, tr₄, e₄, tr₅, htr, -, -, hs₃, hs₄, -⟩ := hslip
  have htr' : c.trace =
      (tr₁ ++ (i, e₁) :: (tr₂ ++ (j, e₂) :: tr₃)) ++ (j, e₃) :: (tr₄ ++ (i, e₄) :: tr₅) := by
    rw [htr]
    simp
  exact h.not_after htr' (by simp [deletesSessions, hs₃]) (by simp [insertsSession, hs₄])

theorem InsertsInTime.not_late {c₀ c : (server).Conf} (h : InsertsInTime c.trace) {j : Nat}
    {actorKey : Str} : ¬ InsertsLate c₀ c j actorKey := by
  intro hlate
  obtain ⟨i, s, tr₁, e₁, tr₂, e₂, tr₃, htr, -, hs₁, hs₂, -⟩ := hlate
  exact h.not_after htr (by simp [deletesSessions, hs₁]) (by simp [insertsSession, hs₂])

/-- The requests that change a status name the actor by its key. -/
def namesActor (t : (server).Thread) : Bool :=
  match t.req.endpoint with
  | .setAiActorStatus actorKey _ => namedActor actorKey = actorKey
  | _ => true

theorem named_of_all {c₀ : (server).Conf} (h : ∀ t ∈ c₀.threads, namesActor t = true) {j : Nat}
    {actorKey : Str} (hdeact : Deactivated c₀ j actorKey) : namedActor actorKey = actorKey := by
  obtain ⟨⟨cfg, status, hr, -⟩, -⟩ := hdeact
  obtain ⟨t, ht, hreq⟩ := Option.map_eq_some_iff.mp hr
  have hnames := h t (List.mem_of_getElem? ht)
  unfold namesActor at hnames
  rw [hreq] at hnames
  simpa using hnames

/-- Request 2 has inserted its session before the key is revoked and the
    actor suspended. -/
def ended : List (server).Action :=
  authenticated ++ revoking ++ start config (.setAiActorStatus agentKey .suspended) :: steps 4 4

/-- Request 5 presents the token. -/
def late : List (server).Action := start config (.currentActor agentToken) :: steps 5 4

theorem sessions_end_agent : EndsWithKey (after ended) ((after ended).run late) ∧
    EndsWithActor (after ended) ((after ended).run late) := by
  have htime : InsertsInTime ((after ended).run late).trace := by decide +kernel
  have hnames : ∀ t ∈ (after ended).threads, namesActor t = true := by decide +kernel
  exact sessions_end (after_reachable ended) (fun _ _ _ _ => htime.not_slips)
    fun _ _ hdeact => ⟨named_of_all hnames hdeact, htime.not_late⟩

end Sample

end SoulAuth
