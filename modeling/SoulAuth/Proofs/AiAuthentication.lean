import SoulAuth.Proofs.AiActors
import SoulAuth.Proofs.Tables

/-! # What an authentication of an AI actor rests on

A session of an AI actor rests on a challenge that was issued for this
actor, spent once and in time, and on a signature of the payload that names
the issuer, the actor and the challenge.
-/

namespace SoulAuth

open Framework Framework.System

/-! ## The payload -/

/-- What stands before a separator, and what after it. -/
theorem append_cons_inj {d : Char} {s s' t t' : Str} (hs : d ∉ s) (hs' : d ∉ s')
    (h : s ++ d :: t = s' ++ d :: t') : s = s' ∧ t = t' := by
  have hsplit := congrArg (Str.splitOnce d) h
  rw [Str.splitOnce_append hs, Str.splitOnce_append hs'] at hsplit
  exact Prod.mk.inj (Option.some.inj hsplit)

theorem trimEndMatches_eq_self {d : Char} {s : Str} (hs : s.getLast? ≠ some d) :
    Str.trimEndMatches d s = s := by
  apply List.rdropWhile_eq_self_iff.mpr
  intro hne hlast
  apply hs
  rw [List.getLast?_eq_some_getLast hne]
  exact congrArg some (by simpa using hlast)

/-- The payload names the issuer, the actor and the nonce. -/
theorem canonicalPayload_inj {issuer actorId nonce issuer' actorId' nonce' : Str}
    (hi : '\n' ∉ issuer) (hi' : '\n' ∉ issuer') (hslash : issuer.getLast? ≠ some '/')
    (hslash' : issuer'.getLast? ≠ some '/') (ha : '\n' ∉ actorId) (ha' : '\n' ∉ actorId')
    (h : canonicalPayload issuer actorId nonce = canonicalPayload issuer' actorId' nonce') :
    issuer = issuer' ∧ actorId = actorId' ∧ nonce = nonce' := by
  unfold canonicalPayload at h
  rw [trimEndMatches_eq_self hslash, trimEndMatches_eq_self hslash'] at h
  simp only [List.append_assoc, List.cons_append] at h
  have htag := List.append_cancel_left h
  obtain ⟨hissuer, hrest⟩ := append_cons_inj hi hi' (List.cons.inj htag).2
  obtain ⟨hactor, hnonce⟩ := append_cons_inj ha ha' hrest
  exact ⟨hissuer, hactor, hnonce⟩

section

variable [Platform]

/-! ## The challenge -/

/-- Before the point of the trace a challenge with this nonce was issued for
    the actor, by a request for a challenge. -/
def ChallengeIssued (c : (server).Conf) (tr : List (Nat × Entry machine))
    (nonce actorKey : Str) (expiresAt : Timestamp) : Prop :=
  ∃ k e x cfg requested, (k, e) ∈ tr ∧ c.reqOf k = some ⟨cfg, .issueChallenge requested⟩ ∧
    e.stmt = .db (.ai (.createChallenge x)) ∧ x ∈ e.after.db.ai.challenges ∧
    x.nonce = nonce ∧ x.actorIdentityId = actorKey ∧ x.expiresAt = expiresAt

/-- The request has spent the challenge that it presents: one issued for
    this actor, not expired by the clock that the request read, and in no
    state until then consumed. -/
def ChallengeSpent (c : (server).Conf) (i : Nat) (proof : AiActorProof) : Prop :=
  ∃ tr₁ e tr₂ t expiresAt, c.trace = tr₁ ++ (i, e) :: tr₂ ∧
    Answered (.ai (.consumeChallenge proof.nonce proof.actorKey t)) 1 e ∧
    (∃ e' ∈ entriesOf (S := server) i tr₁, SawTime t e') ∧ t < expiresAt ∧
    ChallengeIssued c tr₁ proof.nonce proof.actorKey expiresAt ∧
    ∀ z ∈ tr₁ ++ [(i, e)], ∀ y ∈ z.2.before.db.ai.challenges,
      y.nonce = proof.nonce → y.consumed = false

/-- The actor was an AI actor and active when it was checked. -/
def ActorChecked (h : List (Entry machine)) (actorKey : Str) : Prop :=
  ∃ a, Heard h (.identity (.actor (.find actorKey))) (some a) ∧ a.key = actorKey ∧
    a.actorKind = .aiActor ∧ a.status = .active

/-- The signature is one of the payload, under a key of the actor that was
    active when the keys were read. -/
def SignatureVerified (cfg : Config) (h : List (Entry machine)) (proof : AiActorProof) : Prop :=
  ∃ keys key, Heard h (.ai (.listCredentials proof.actorKey)) keys ∧ key ∈ keys ∧
    key.actorIdentityId = proof.actorKey ∧ key.status = .active ∧
    key.algorithm = allowedAlgorithm ∧ Platform.ed25519Verify key.publicKey
      (canonicalPayload cfg.appUrl (actorAddress proof.actorKey) proof.nonce)
      proof.signature = true

section

variable {now : Timestamp} {c : (server).Conf} {i : Nat} {cfg : Config} {proof : AiActorProof}

/-- The request that created a challenge, and the actor it is for. -/
theorem challenge_issued {w : World} (hc : Reachable w c) {k : Nat} {e : Entry machine}
    (hm : (k, e) ∈ c.trace) {x : AiActorChallenge}
    (hs : e.stmt = .db (.ai (.createChallenge x))) :
    (∃ cfg requested, c.reqOf k = some ⟨cfg, .issueChallenge requested⟩) ∧
      ∃ e' ∈ entriesOf (S := server) k c.trace, ∃ a key, a.key = x.actorIdentityId ∧
        Answered (.identity (.actor (.find key))) (some a) e' := by
  obtain ⟨tr₁, tr₂, htr⟩ := List.append_of_mem hm
  obtain ⟨⟨cfg, ep⟩, hr, hai⟩ := (aiConduct_holds hc).entries tr₁ k e tr₂ htr
  change AiConducted ⟨cfg, ep⟩ _ e at hai
  unfold AiConducted at hai
  rw [hs] at hai
  obtain ⟨actorKey, a, hep, hfound, -, hactor⟩ := hai.actor
  obtain ⟨e', he', ha⟩ := hfound.found
  exact ⟨⟨cfg, actorKey, by rw [hr, show ep = _ from hep]⟩, e', entriesOf_take htr he', a, _,
    hactor.symm, ha⟩

/-- A spent challenge names the actor by its plain key. -/
theorem plain_of_issued (hc : Reachable (World.fresh now) c) {nonce actorKey : Str}
    {expiresAt : Timestamp} (h : ChallengeIssued c c.trace nonce actorKey expiresAt) :
    IsPlainKey actorKey := by
  obtain ⟨k, e, x, -, -, hm, -, hs, -, -, rfl, -⟩ := h
  obtain ⟨-, e', he', a, key, hkey, ha⟩ := challenge_issued hc hm hs
  obtain ⟨tr₁, tr₂, htr⟩ := List.append_of_mem (mem_entriesOf.mp he')
  obtain ⟨c₁, hc₁, -, hstate⟩ := hc.before htr
  have hplain := plainRoots_holds hc₁
  rw [hstate] at hplain
  exact hkey ▸ hplain a (KeyedTable.mem_of_rowAt ha.rootAt)

/-- The statement that consumed the challenge found it fresh. -/
theorem challenge_spent (hc : Reachable (World.fresh now) c) {t : Timestamp}
    {tr₁ tr₂ : List (Nat × Entry machine)} {e : Entry machine}
    (htr : c.trace = tr₁ ++ (i, e) :: tr₂)
    (he : Answered (.ai (.consumeChallenge proof.nonce proof.actorKey t)) 1 e)
    (hsaw : ∃ e' ∈ entriesOf (S := server) i tr₁, SawTime t e') :
    ChallengeSpent c i proof := by
  have hone : e.before.db.ai.challenges.countP
      (AiActorChallenge.isClaimable proof.nonce proof.actorKey t) = 1 := by
    have hreply := he.reply
    simp only [DbStmt.exec, AiActorStmt.exec, Except.ok.injEq] at hreply
    exact hreply
  obtain ⟨x, hx, hclaim⟩ := List.countP_pos_iff.mp (hone ▸ Nat.one_pos)
  obtain ⟨⟨⟨hnonce, hopen⟩, hexp⟩, hactor⟩ : ((x.nonce = proof.nonce ∧ x.consumed = false) ∧
      t < x.expiresAt) ∧ x.actorIdentityId = proof.actorKey := by
    simpa [AiActorChallenge.isClaimable] using hclaim
  have hall := hc.steps
  rw [htr] at hall
  have hsteps := hall.split_entry.1
  obtain ⟨k, e₀, y, hmem, hs, hy, hynonce, hyactor, hyexp⟩ := challenge_origin hsteps x hx
  have hmem' : (k, e₀) ∈ c.trace := by
    rw [htr]
    exact List.mem_append_left _ hmem
  obtain ⟨⟨cfg', requested, hreq⟩, -⟩ := challenge_issued hc hmem' hs
  refine ⟨tr₁, e, tr₂, t, x.expiresAt, htr, he, hsaw, hexp, ?_, ?_⟩
  · exact ⟨k, e₀, y, cfg', requested, hmem, hreq, hs, hy, hynonce.trans hnonce,
      hyactor.trans hactor, hyexp⟩
  · intro z hz v hv hvnonce
    rcases List.mem_append.mp hz with hz | hz
    · exact unconsumed_before hsteps hx hopen z hz v hv (hvnonce.trans hnonce.symm)
    · obtain rfl := List.mem_singleton.mp hz
      obtain rfl := List.inj_on_of_nodup_map (nonces_nodup hsteps) hv hx
        (hvnonce.trans hnonce.symm)
      exact hopen

theorem ChallengeSpent.plain (hc : Reachable (World.fresh now) c)
    (h : ChallengeSpent c i proof) : IsPlainKey proof.actorKey := by
  obtain ⟨tr₁, e, tr₂, t, expiresAt, htr, -, -, -, hissued, -⟩ := h
  obtain ⟨k, e₀, x, cfg, requested, hmem, hrest⟩ := hissued
  have hall : ChallengeIssued c c.trace proof.nonce proof.actorKey expiresAt := by
    refine ⟨k, e₀, x, cfg, requested, ?_, hrest⟩
    rw [htr]
    exact List.mem_append_left _ hmem
  exact plain_of_issued hc hall

/-- **Authentication of AI actors.** A request that has been answered with a
    session spent a fresh challenge of this actor, found the actor active,
    and presented a signature under a key of it that was active. Different
    payloads are signed for different issuers, actors and challenges. -/
theorem aiAuthentication_sound (hc : Reachable (World.fresh now) c) :
    (∀ i cfg proof token, c.reqOf i = some ⟨cfg, .authenticateAiActor proof⟩ →
      c.Returned i (.ok (.aiSession token)) →
      ChallengeSpent c i proof ∧
      ActorChecked (entriesOf (S := server) i c.trace) proof.actorKey ∧
      SignatureVerified cfg (entriesOf (S := server) i c.trace) proof) ∧
    ∀ issuer actorId nonce issuer' actorId' nonce' : Str,
      ('\n' ∉ issuer ∧ '\n' ∉ actorId ∧ '\n' ∉ nonce ∧ issuer.getLast? ≠ some '/') →
      ('\n' ∉ issuer' ∧ '\n' ∉ actorId' ∧ '\n' ∉ nonce' ∧ issuer'.getLast? ≠ some '/') →
      (issuer, actorId, nonce) ≠ (issuer', actorId', nonce') →
      canonicalPayload issuer actorId nonce ≠ canonicalPayload issuer' actorId' nonce' := by
  constructor
  · intro i cfg proof token hreq hret
    obtain ⟨r, hr, hout⟩ := (aiConduct_holds hc).returned hret
    cases hreq.symm.trans hr
    obtain ⟨a, key, -, hproved, -, -⟩ := hout proof rfl
    -- the challenge was spent at one place of the trace
    obtain ⟨t, h₁, e, h₂, hh, hsaw, hconsumed⟩ := hproved.consumed
    obtain ⟨tr₁, tr₂, htr, rfl, -⟩ := entriesOf_split hh
    have hspent := challenge_spent hc htr hconsumed hsaw
    have hplain := hspent.plain hc
    have hkey : idArgumentKey (actorAddress proof.actorKey) = proof.actorKey :=
      hplain.idArgumentKey_address (by decide)
    refine ⟨hspent, ⟨a, hkey ▸ hproved.actor.found, hproved.actor.key_eq hplain,
      hproved.actor.kind, hproved.active⟩, ?_⟩
    obtain ⟨keys, hlisted, hkeymem⟩ := hproved.listed
    obtain ⟨hactive, halgorithm⟩ : key.status = .active ∧ key.algorithm = allowedAlgorithm := by
      simpa [AiActorCredential.canAuthenticate] using hproved.usable
    refine ⟨keys, key, hlisted, hkeymem, ?_, hactive, halgorithm, hproved.verified⟩
    obtain ⟨e', -, he'⟩ := hlisted
    have hreply := he'.reply
    simp only [DbStmt.exec, AiActorStmt.exec, Except.ok.injEq] at hreply
    rw [← hreply, List.mem_insertionSort] at hkeymem
    simpa using (List.mem_filter.mp hkeymem).2
  · intro issuer actorId nonce issuer' actorId' nonce' h h' hne heq
    obtain ⟨hi, ha, -, hslash⟩ := h
    obtain ⟨hi', ha', -, hslash'⟩ := h'
    obtain ⟨rfl, rfl, rfl⟩ := canonicalPayload_inj hi hi' hslash hslash' ha ha' heq
    exact hne rfl

end

end

namespace Sample

/-- Request 1 issues a challenge to it. -/
def agentNonce : Str := numbered 't' 3

def challenged : List (server).Action :=
  enrolled ++ start config (.issueChallenge agentKey) :: steps 1 5

/-- The answer to the challenge. -/
def agentProof : AiActorProof where
  actorKey := agentKey
  nonce := agentNonce
  algorithm := allowedAlgorithm
  signature := agentPublicKey ++ canonicalPayload config.appUrl (actorAddress agentKey) agentNonce

/-- The token of the session that it opens. -/
def agentToken : Claims where
  sub := agentKey
  exp := 3600
  iat := 0
  sessionId := some (numbered 'u' 5)
  subjectType := some .agent

/-- Request 2 authenticates the actor. -/
def authenticated : List (server).Action :=
  challenged ++ start config (.authenticateAiActor agentProof) :: steps 2 9

theorem agent_authenticated :
    (after authenticated).Returned 2 (.ok (.aiSession agentToken)) :=
  Conf.returned_of_outcome (by decide +kernel)

theorem aiAuthentication_sound_agent : ChallengeSpent (after authenticated) 2 agentProof ∧
    ActorChecked (entriesOf (S := server) 2 (after authenticated).trace) agentKey ∧
    SignatureVerified config (entriesOf (S := server) 2 (after authenticated).trace) agentProof :=
  (aiAuthentication_sound (after_reachable authenticated)).1 2 config agentProof agentToken
    (by decide +kernel) agent_authenticated

end Sample

end SoulAuth
