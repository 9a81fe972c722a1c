import SoulAuth.Proofs.ConductSystem

/-! # The conduct of requests on AI actors

What the requests that concern AI actors have done before they issue a
statement that matters, and what they have done when they return. The other
requests issue none of these statements.
-/

namespace SoulAuth

open Framework Framework.System

variable [Platform]

/-! ## The rule -/

/-- The identity root of an AI actor, as a request found it. -/
structure FoundAi (h : List (Entry machine)) (actorKey : Str) (a : ActorIdentity) : Prop where
  found : Heard h (.identity (.actor (.find (idArgumentKey (actorAddress actorKey))))) (some a)
  kind : a.actorKind = .aiActor

/-- A new status of an identity root: of an AI actor that was not retired
    when it was read, or of the root of a user. -/
inductive SetsStatus (r : Call) (h : List (Entry machine)) (key : Str) (status : ActorStatus) :
    Prop
  | actor (actorKey : Str) (a : ActorIdentity)
      (endpoint : r.endpoint = .setAiActorStatus actorKey status) (found : FoundAi h actorKey a)
      (kept : a.status ≠ .retired) (key : key = a.key)
  | account (userId actorKey userKey : Str) (accountStatus : AccountStatus) (u : User)
      (a : ActorIdentity) (endpoint : r.endpoint = .updateAccountStatus userId accountStatus)
      (user : Heard h (.identity (.user (.findById userKey))) (some u))
      (linked : u.subjectId = some actorKey)
      (found : Heard h (.identity (.actor (.find (idArgumentKey (actorAddress actorKey)))))
        (some a))
      (key : key = a.key) (status : status = accountStatus.actorStatus)

/-- A new challenge: for the AI actor that was found under the key of the
    request, and active. -/
structure Challenges (r : Call) (h : List (Entry machine)) (x : AiActorChallenge) : Prop where
  actor : ∃ actorKey a, r.endpoint = .issueChallenge actorKey ∧ FoundAi h actorKey a ∧
    a.status = .active ∧ x.actorIdentityId = a.key
  time : ∃ e ∈ h, SawTime x.issuedAt e
  expiry : x.expiresAt = x.issuedAt + challengeTtlSeconds
  fresh : x.consumed = false

/-- A new key of an actor: its record key is the request's own, and the
    request adds no other. -/
structure AddsKey (h : List (Entry machine)) (x : AiActorCredential) : Prop where
  keyDrawn : x.key ∈ uuidsOf h
  once : .writeAiCredential ∉ effectsOf h

/-- What a proof has passed when its session is created: the challenge was
    consumed, the actor was active, and one of its keys verified the
    signature. -/
structure Proved (cfg : Config) (proof : AiActorProof) (h : List (Entry machine))
    (a : ActorIdentity) (key : AiActorCredential) : Prop where
  consumed : ∃ now h₁ e h₂, h = h₁ ++ e :: h₂ ∧ (∃ e' ∈ h₁, SawTime now e') ∧
    Answered (.ai (.consumeChallenge proof.nonce proof.actorKey now)) 1 e
  actor : FoundAi h proof.actorKey a
  active : a.status = .active
  listed : ∃ keys, Heard h (.ai (.listCredentials proof.actorKey)) keys ∧ key ∈ keys
  usable : key.canAuthenticate = true
  verified : Platform.ed25519Verify key.publicKey
    (canonicalPayload cfg.appUrl (actorAddress proof.actorKey) proof.nonce) proof.signature = true

/-- A new session of an AI actor. -/
structure OpensAi (cfg : Config) (proof : AiActorProof) (h : List (Entry machine))
    (s : Session) : Prop where
  proved : ∃ a key, Proved cfg proof h a key ∧ s.userId = a.key ∧
    s.credentialRefs = [aiCredentialRef key.key]

/-- What holds of a statement that a request on AI actors issues. -/
def AiConducted (r : Call) (h : List (Entry machine)) (e : Entry machine) : Prop :=
  match e.stmt with
  | .db (.identity (.actor (.setStatus key status _))) => SetsStatus r h key status
  | .db (.ai (.createChallenge x)) => Challenges r h x
  | .db (.ai (.createCredential x)) => AddsKey h x
  | .db (.session (.create s)) =>
    ∀ proof, r.endpoint = .authenticateAiActor proof → OpensAi r.cfg proof h s
  | _ => True

/-- A key of an actor was revoked, and after that the sessions that it
    established were deleted. -/
def RevokedKey (h : List (Entry machine)) (actorKey key : Str) : Prop :=
  ∃ now h₁ e₁ h₂ e₂ h₃, h = h₁ ++ e₁ :: (h₂ ++ e₂ :: h₃) ∧
    Answered (.ai (.revokeCredential key actorKey now)) true e₁ ∧
    Answered (.session (.deleteByCredential actorKey (aiCredentialRef key))) () e₂

/-- The session behind a token was found live. -/
def FoundLive (h : List (Entry machine)) (token : Claims) : Prop :=
  ∃ now, Heard h (.session (.isActive (hashBearer token) now)) true

/-- What holds of the outcome of such a request. -/
def AiConcluded (r : Call) (h : List (Entry machine)) : Except Failure Reply → Prop
  | .ok (.aiSession token) => ∀ proof, r.endpoint = .authenticateAiActor proof →
    ∃ a key s, Proved r.cfg proof h a key ∧ Heard h (.session (.create s)) () ∧
      s.tokenHash = hashBearer token
  | .ok .ok =>
    (∀ actorKey key, r.endpoint = .revokeAiCredential actorKey key →
      RevokedKey h actorKey key) ∧
    ∀ actorKey status, r.endpoint = .setAiActorStatus actorKey status → status ≠ .active →
      ∃ a, FoundAi h actorKey a ∧ Heard h (.session (.deleteByActor actorKey)) ()
  | .ok (.actor _) => ∀ token, r.endpoint = .currentActor token → FoundLive h token
  | .ok (.introspected _ _) => ∀ token, r.endpoint = .introspect token → FoundLive h token
  | _ => True

def aiConduct : System.Rule server where
  assumes := fun _ => True
  entry := AiConducted
  outcome := AiConcluded

/-! ## Following the programs -/

section

variable {r : Call} {h : List (Entry machine)} {ε α β : Type}

/-- The effects of statements that the rule says nothing of. -/
theorem aiConducted_of_effect {e : Entry machine} (h₁ : e.stmt.effect ≠ some .setActorStatus)
    (h₂ : e.stmt.effect ≠ some .createChallenge) (h₃ : e.stmt.effect ≠ some .writeAiCredential)
    (h₄ : e.stmt.effect = some .createSession →
      ∀ proof, r.endpoint ≠ .authenticateAiActor proof) : AiConducted r h e := by
  obtain ⟨ctx, s, w⟩ := e
  unfold AiConducted
  split
  · next hs =>
    cases hs
    exact absurd rfl h₁
  · next hs =>
    cases hs
    exact absurd rfl h₂
  · next hs =>
    cases hs
    exact absurd rfl h₃
  · next hs =>
    cases hs
    exact fun proof hep => absurd hep (h₄ rfl proof)
  · trivial

/-- A statement that changes nothing, or nothing that the rule speaks of. -/
theorem aiConducted_of_within {e : Entry machine} {L : List Effect} (he : e.stmt.Within L)
    (h₁ : .setActorStatus ∉ L) (h₂ : .createChallenge ∉ L) (h₃ : .writeAiCredential ∉ L)
    (h₄ : .createSession ∉ L) : AiConducted r h e :=
  aiConducted_of_effect (fun heff => h₁ (he _ heff)) (fun heff => h₂ (he _ heff))
    (fun heff => h₃ (he _ heff)) fun heff => absurd (he _ heff) h₄

/-- A program under the rule of one request. -/
abbrev AiFollows {ε α : Type} (r : Call) (Q : List (Entry machine) → Except ε α → Prop)
    (h : List (Entry machine)) (p : Req ε α) : Prop :=
  p.Meets (fun _ => True) (AiConducted r) Q h

/-- A part of a program without the statements of the rule. -/
theorem aiSkip_bind {p : Req ε α} {f : α → Req ε β} {Q : List (Entry machine) → Except ε β → Prop}
    {L : List Effect} (hp : Within L p) (h₁ : .setActorStatus ∉ L) (h₂ : .createChallenge ∉ L)
    (h₃ : .writeAiCredential ∉ L) (h₄ : .createSession ∉ L)
    (hok : ∀ t a, AiFollows r Q (h ++ t) (f a)) (herr : ∀ t x, Q (h ++ t) (.error x)) :
    AiFollows r Q h (p >>= f) :=
  meets_skip_bind hp (fun _ _ _ he => aiConducted_of_within he h₁ h₂ h₃ h₄)
    (fun t a _ => hok t a) fun t x _ => herr t x

/-- Such a program at the end of another one. -/
theorem aiSkip {p : Req ε α} {Q : List (Entry machine) → Except ε α → Prop} {L : List Effect}
    (hp : Within L p) (h₁ : .setActorStatus ∉ L) (h₂ : .createChallenge ∉ L)
    (h₃ : .writeAiCredential ∉ L) (h₄ : .createSession ∉ L) (hQ : ∀ t x, Q (h ++ t) x) :
    AiFollows r Q h p :=
  hp.meets (fun _ _ _ he => aiConducted_of_within he h₁ h₂ h₃ h₄) fun t x _ => hQ t x

theorem FoundAi.mono {actorKey : Str} {a : ActorIdentity} (hf : FoundAi h actorKey a)
    (t : List (Entry machine)) : FoundAi (h ++ t) actorKey a :=
  ⟨hf.found.mono t, hf.kind⟩

theorem requireAiActor_finds {actorKey : Str} :
    AiFollows r (Ends fun h' a => FoundAi h' actorKey a) h (requireAiActor actorKey) := by
  apply meets_query_bind
  · intro ctx w _
    trivial
  · intro e found _ he
    apply meets_orThrow_bind
    · intro a ha
      cases ha
      apply meets_ensure_bind
      · intro hkind
        exact ⟨he.heard, hkind⟩
      · intro _
        trivial
    · intro _
      trivial
  · intro e x _
    trivial

/-! ### Statuses -/

theorem setAiActorStatus_follows {cfg : Config} {actorKey : Str} {status : ActorStatus} :
    AiFollows ⟨cfg, .setAiActorStatus actorKey status⟩ (Ends fun h' _ => status ≠ .active →
      ∃ a, FoundAi h' actorKey a ∧ Heard h' (.session (.deleteByActor actorKey)) ()) h
      (setAiActorStatus actorKey status) := by
  apply meets_query_bind (fun _ _ _ => trivial) _ fun _ _ _ => trivial
  intro e₁ found _ he₁
  apply meets_orThrow_bind _ fun _ => trivial
  intro a ha
  cases ha
  apply meets_ensure_bind _ fun _ => trivial
  intro hkind
  have hfound : FoundAi (h ++ [e₁]) actorKey a := ⟨he₁.heard, hkind⟩
  apply meets_ensure_bind _ fun _ => trivial
  intro hkept
  -- the write and what comes after it
  have hset : AiFollows ⟨cfg, .setAiActorStatus actorKey status⟩
      (Ends fun h' _ => FoundAi h' actorKey a) (h ++ [e₁]) (setStatus a status) := by
    apply meets_getNow_bind (fun _ _ _ => trivial)
    intro e₂ now _ he₂
    apply meets_query
    · intro ctx w _
      exact .actor actorKey a rfl (hfound.mono [e₂]) hkept rfl
    · intro e₃ _ _ he₃
      exact (hfound.mono [e₂]).mono [e₃]
    · intro e₃ x _
      trivial
  apply Prog.Meets.bind hset _ fun _ _ _ => trivial
  intro t _ hfound'
  split
  · apply meets_query (fun _ _ _ => trivial) _ fun _ _ _ => trivial
    intro e₄ _ _ he₄ _
    exact ⟨a, hfound'.mono [e₄], he₄.heard⟩
  · next hactive =>
    intro hne
    exact absurd hne hactive

theorem syncActorStatus_follows {cfg : Config} {userId actorKey userKey : Str}
    {status : AccountStatus} {u : User}
    (hu : Heard h (.identity (.user (.findById userKey))) (some u))
    (hlinked : u.subjectId = some actorKey) :
    AiFollows ⟨cfg, .updateAccountStatus userId status⟩ (fun _ _ => True) h
      (syncActorStatus actorKey status) := by
  have hrevoke : ∀ h', AiFollows ⟨cfg, .updateAccountStatus userId status⟩ (fun _ _ => True) h'
      (if status = .deleted then revokePassword actorKey else return () : Req AuthError Unit) := by
    intro h'
    split
    · exact aiSkip (revokePassword_within (L := [.writeCredential]) (by simp)) (by decide)
        (by decide) (by decide) (by decide) fun _ _ => trivial
    · trivial
  have hfind : AiFollows (ε := AuthError) ⟨cfg, .updateAccountStatus userId status⟩
      (fun h' found => Heard h' (.identity (.user (.findById userKey))) (some u) ∧
        ∀ a, found = .ok (some a) →
          Heard h' (.identity (.actor (.find (idArgumentKey (actorAddress actorKey))))) (some a))
      h (findActorById actorKey) := by
    apply meets_query
    · intro ctx w _
      trivial
    · intro e found _ he
      refine ⟨hu.mono [e], ?_⟩
      intro a ha
      cases ha
      exact he.heard
    · intro e x _
      exact ⟨hu.mono [e], fun _ ha => nomatch ha⟩
  apply Prog.Meets.bind (P := fun h' (found : Except AuthError _) => ∃ r, found = .ok r ∧
    Heard h' (.identity (.user (.findById userKey))) (some u) ∧
      ∀ a, r = .ok (some a) →
        Heard h' (.identity (.actor (.find (idArgumentKey (actorAddress actorKey))))) (some a))
    _ _ fun _ _ _ => trivial
  · exact Prog.Meets.attempt hfind fun t r hr => ⟨r, rfl, hr⟩
  · rintro t found ⟨r, hr, hu', hfound⟩
    obtain rfl : found = r := Except.ok.inj hr
    split
    · next a =>
      apply Prog.Meets.bind (P := fun _ _ => True) _ (fun _ _ _ => hrevoke _) fun _ _ _ => trivial
      apply meets_getNow_bind (fun _ _ _ => trivial)
      intro e now _ he
      apply meets_query (fun _ _ _ => ?_) (fun _ _ _ _ => trivial) fun _ _ _ => trivial
      exact .account userId actorKey userKey status u a rfl (hu'.mono [e]) hlinked
        ((hfound a rfl).mono [e]) rfl rfl
    · exact hrevoke _

theorem updateUserAccountStatus_follows {cfg : Config} {userId : Str} {status : AccountStatus} :
    AiFollows ⟨cfg, .updateAccountStatus userId status⟩ (fun _ _ => True) h
      (updateUserAccountStatus userId status) := by
  have hupdate : AiFollows ⟨cfg, .updateAccountStatus userId status⟩ (fun _ _ => True) h
      (updateAccountStatus userId status) := by
    apply meets_orThrow_bind _ fun _ => trivial
    intro key _
    apply meets_query_bind (fun _ _ _ => trivial) _ fun _ _ _ => trivial
    intro e₁ found _ he₁
    apply meets_orThrow_bind _ fun _ => trivial
    intro u hu
    cases hu
    apply meets_getNow_bind (fun _ _ _ => trivial)
    intro e₂ now _ he₂
    apply meets_query_bind (fun _ _ _ => trivial) _ fun _ _ _ => trivial
    intro e₃ _ _ he₃
    split
    · next actorKey hlinked =>
      exact syncActorStatus_follows ((he₁.heard.mono [e₂]).mono [e₃]) hlinked
    · trivial
  apply Prog.Meets.bind hupdate _ fun _ _ _ => trivial
  intro t _ _
  split
  · trivial
  · apply aiSkip_bind (L := [.deleteSession]) (.swallow (deleteSessionsByUserId_within (by simp)))
      (by decide) (by decide) (by decide) (by decide) _ fun _ _ => trivial
    intro t' _
    exact aiSkip (L := [.deleteAccess, .deleteRefresh])
      (.swallow (revokeAllTokensForUser_within (by simp) (by simp))) (by decide) (by decide)
      (by decide) (by decide) fun _ _ => trivial

/-! ### Challenges, sessions and keys -/

theorem issueChallenge_challenges {cfg : Config} {actorKey : Str} :
    AiFollows ⟨cfg, .issueChallenge actorKey⟩ (fun _ _ => True) h
      (issueChallenge cfg actorKey) := by
  apply Prog.Meets.bind (Prog.Meets.mapError (P := Ends fun h' a => FoundAi h' actorKey a)
    (Q := Ends fun h' a => FoundAi h' actorKey a) requireAiActor_finds
    (fun _ _ ha => ha) fun _ _ _ => trivial) _ fun _ _ _ => trivial
  intro t₁ a hfound
  apply meets_ensure_bind _ fun _ => trivial
  intro hactive
  apply meets_newSecureToken_bind (fun _ _ _ => trivial)
  intro e₂ nonce _ he₂ _
  apply meets_getNow_bind (fun _ _ _ => trivial)
  intro e₃ now _ he₃
  apply meets_newUuid_bind (fun _ _ _ => trivial)
  intro e₄ key _ he₄ _
  refine meets_query_bind ?_ (fun _ _ _ _ => trivial) fun _ _ _ => trivial
  intro ctx w _
  constructor
  · exact ⟨actorKey, a, rfl, ((hfound.mono [e₂]).mono [e₃]).mono [e₄],
      by simpa [ActorIdentity.canAuthenticate] using hactive, rfl⟩
  · exact ⟨e₃, by simp, he₃⟩
  · rfl
  · rfl

theorem Proved.mono {cfg : Config} {proof : AiActorProof} {a : ActorIdentity}
    {key : AiActorCredential} (hp : Proved cfg proof h a key) (t : List (Entry machine)) :
    Proved cfg proof (h ++ t) a key where
  consumed := by
    obtain ⟨now, h₁, e, h₂, rfl, hsaw, hc⟩ := hp.consumed
    exact ⟨now, h₁, e, h₂ ++ t, by simp, hsaw, hc⟩
  actor := hp.actor.mono t
  active := hp.active
  listed := by
    obtain ⟨keys, hl, hmem⟩ := hp.listed
    exact ⟨keys, hl.mono t, hmem⟩
  usable := hp.usable
  verified := hp.verified

theorem issueAiSession_opens {cfg : Config} {proof : AiActorProof} {a : ActorIdentity}
    {key : AiActorCredential} (hp : Proved cfg proof h a key) :
    AiFollows ⟨cfg, .authenticateAiActor proof⟩ (Ends fun h' token =>
      ∃ a key s, Proved cfg proof h' a key ∧ Heard h' (.session (.create s)) () ∧
        s.tokenHash = hashBearer token) h (issueAiSession cfg a key) := by
  apply meets_getNow_bind (fun _ _ _ => trivial)
  intro e₁ now _ he₁
  apply meets_newUuid_bind (fun _ _ _ => trivial)
  intro e₂ sessionKey _ he₂ _
  have hp' := (hp.mono [e₁]).mono [e₂]
  apply meets_query_bind
  · intro ctx w _ proof' hep
    cases hep
    exact ⟨a, key, hp', rfl, rfl⟩
  · intro e₃ _ _ he₃
    exact ⟨a, key, _, hp'.mono [e₃], he₃.heard, rfl⟩
  · intro e₃ x _
    trivial

theorem authenticateAiActor_opens {cfg : Config} {proof : AiActorProof} :
    AiFollows ⟨cfg, .authenticateAiActor proof⟩ (Ends fun h' token =>
      ∃ a key s, Proved cfg proof h' a key ∧ Heard h' (.session (.create s)) () ∧
        s.tokenHash = hashBearer token) h (authenticateAiActor cfg proof) := by
  apply meets_ensure_bind _ fun _ => trivial
  intro _
  apply meets_ofExcept_bind _ fun _ _ => trivial
  intro _ _
  apply meets_getNow_bind (fun _ _ _ => trivial)
  intro e₁ now _ he₁
  apply meets_query_bind (fun _ _ _ => trivial) _ fun _ _ _ => trivial
  intro e₂ consumed _ he₂
  apply meets_ensure_bind _ fun _ => trivial
  intro hone
  obtain rfl : consumed = 1 := hone
  have hconsumed : ∃ now h₁ e h₂, h ++ [e₁] ++ [e₂] = h₁ ++ e :: h₂ ∧
      (∃ e' ∈ h₁, SawTime now e') ∧
      Answered (.ai (.consumeChallenge proof.nonce proof.actorKey now)) 1 e :=
    ⟨now, h ++ [e₁], e₂, [], rfl, ⟨e₁, by simp, he₁⟩, he₂⟩
  generalize h ++ [e₁] ++ [e₂] = h₂ at hconsumed
  apply Prog.Meets.bind (Prog.Meets.mapError (P := Ends fun h' a => FoundAi h' proof.actorKey a)
    (Q := Ends fun h' a => FoundAi h' proof.actorKey a) requireAiActor_finds
    (fun _ _ ha => ha) fun _ _ _ => trivial) _ fun _ _ _ => trivial
  intro t₃ a hfound
  apply meets_ensure_bind _ fun _ => trivial
  intro hactive
  apply meets_query_bind (fun _ _ _ => trivial) _ fun _ _ _ => trivial
  intro e₄ keys _ he₄
  apply meets_orThrow_bind _ fun _ => trivial
  intro key hmatched
  -- the first key that may be used and verifies the signature
  have hmem := List.mem_filter.mp (List.mem_of_find?_eq_some hmatched)
  have hproved : Proved cfg proof (h₂ ++ t₃ ++ [e₄]) a key := by
    constructor
    · obtain ⟨now, h₁, e, h₃, rfl, hsaw, hc⟩ := hconsumed
      exact ⟨now, h₁, e, h₃ ++ (t₃ ++ [e₄]), by simp, hsaw, hc⟩
    · exact hfound.mono [e₄]
    · simpa [ActorIdentity.canAuthenticate] using hactive
    · exact ⟨keys, he₄.heard, hmem.1⟩
    · exact hmem.2
    · have hverified := List.find?_some hmatched
      exact hverified
  apply meets_getNow_bind (fun _ _ _ => trivial)
  intro e₅ touchedAt _ he₅
  apply Prog.Meets.bind (P := fun _ _ => True) _ _ fun _ _ _ => trivial
  · -- the last use of the key is noted, or not
    apply Prog.meets_swallow.mpr
    exact meets_query (fun _ _ _ => trivial) (fun _ _ _ _ => trivial) fun _ _ _ => trivial
  · intro t₆ _ _
    exact issueAiSession_opens ((hproved.mono [e₅]).mono t₆)

theorem revokeAiCredential_revokes {actorKey key : Str} :
    AiFollows r (Ends fun h' _ => RevokedKey h' actorKey key) h
      (revokeAiCredential actorKey key) := by
  apply meets_getNow_bind (fun _ _ _ => trivial)
  intro e₁ now _ he₁
  apply meets_query_bind (fun _ _ _ => trivial) _ fun _ _ _ => trivial
  intro e₂ updated _ he₂
  apply meets_ensure_bind _ fun _ => trivial
  intro hupdated
  obtain rfl : updated = true := hupdated
  apply meets_query (fun _ _ _ => trivial) _ fun _ _ _ => trivial
  intro e₃ _ _ he₃
  exact ⟨now, h ++ [e₁], e₂, [], e₃, [], by simp, he₂, he₃⟩

theorem addCredentialFor_adds {actorKey publicKey label : Str}
    (hnone : .writeAiCredential ∉ effectsOf h) :
    AiFollows r (fun _ _ => True) h (addCredentialFor actorKey publicKey label) := by
  apply meets_getNow_bind (fun _ _ _ => trivial)
  intro e₁ now _ he₁
  apply meets_newUuid_bind (fun _ _ _ => trivial)
  intro e₂ key _ he₂ hv₂
  have hquery : AiFollows (ε := AuthError) r (fun _ _ => True) (h ++ [e₁] ++ [e₂])
      (query (.ai (.createCredential
        { key := key, actorIdentityId := actorKey, publicKey := publicKey,
          algorithm := allowedAlgorithm, label := label, status := .active, createdAt := now,
          revokedAt := none, lastUsedAt := none }))) := by
    apply meets_query _ (fun _ _ _ _ => trivial) fun _ _ _ => trivial
    intro ctx w _
    constructor
    · rw [uuidsOf_snoc hv₂]
      simp
    · rw [effectsOf_snoc (by rw [he₂]; rfl), effectsOf_snoc (by rw [he₁.1]; rfl)]
      exact hnone
  have hmapped := Prog.Meets.mapError (g := translateKeyViolation) (Q := fun _ _ => True) hquery
    (fun _ _ _ => trivial) fun _ _ _ => trivial
  exact Prog.Meets.bind hmapped (fun _ _ _ => trivial) fun _ _ _ => trivial

/-- The parts of a request before it adds a key add none themselves. -/
theorem none_added {L : List Effect} {t : List (Entry machine)} (ht : ∀ e ∈ t, e.stmt.Within L)
    (hL : .writeAiCredential ∉ L) (hnone : .writeAiCredential ∉ effectsOf h) :
    .writeAiCredential ∉ effectsOf (h ++ t) := by
  intro hmem
  rw [effectsOf_append] at hmem
  rcases List.mem_append.mp hmem with hmem | hmem
  · exact hnone hmem
  · exact hL (effectsOf_within ht hmem)

theorem registerAiActor_adds {publicKey label : Str} :
    AiFollows r (fun _ _ => True) [] (registerAiActor publicKey label) := by
  apply meets_ofExcept_bind _ fun _ _ => trivial
  intro _ _
  apply meets_skip_bind (createAiActor_within (L := [.createActor]) (by simp)) _ _
    fun _ _ _ => trivial
  · intro t e _ he
    exact aiConducted_of_within he (by decide) (by decide) (by decide) (by decide)
  · intro t actor ht
    have hnone := none_added (h := []) ht (by decide) List.not_mem_nil
    have hadds : AiFollows r (fun _ _ => True) ([] ++ t)
        (addCredentialFor actor.key publicKey label) := addCredentialFor_adds hnone
    exact Prog.Meets.bind hadds (fun _ _ _ => trivial) fun _ _ _ => trivial

theorem addAiCredential_adds {actorKey publicKey label : Str} :
    AiFollows r (fun _ _ => True) [] (addAiCredential actorKey publicKey label) := by
  apply meets_ofExcept_bind _ fun _ _ => trivial
  intro _ _
  apply meets_skip_bind (requireAiActor_within (L := [])) _ _ fun _ _ _ => trivial
  · intro t e _ he
    exact aiConducted_of_within he (by decide) (by decide) (by decide) (by decide)
  · intro t actor ht
    exact addCredentialFor_adds (none_added (h := []) ht (by decide) List.not_mem_nil)

/-! ### Tokens presented -/

theorem FoundLive.mono {token : Claims} (hf : FoundLive h token) (t : List (Entry machine)) :
    FoundLive (h ++ t) token := by
  obtain ⟨now, hlive⟩ := hf
  exact ⟨now, hlive.mono t⟩

theorem decodeAndVerifyToken_finds {token : Claims} :
    AiFollows r (Ends fun h' _ => FoundLive h' token) h (decodeAndVerifyToken token) := by
  apply meets_getNow_bind (fun _ _ _ => trivial)
  intro e₁ now₁ _ he₁
  apply meets_ensure_bind _ fun _ => trivial
  intro _
  apply meets_getNow_bind (fun _ _ _ => trivial)
  intro e₂ now _ he₂
  apply meets_query_bind (fun _ _ _ => trivial) _ fun _ _ _ => trivial
  intro e₃ active _ he₃
  apply Prog.meets_ensure.mpr
  constructor
  · intro hactive
    obtain rfl : active = true := hactive
    exact ⟨now, he₃.heard⟩
  · intro _
    trivial

/-- What follows the look-up of the session reads only. -/
theorem verified_bind {token : Claims} {f : Unit → Req AuthError α} (hf : ∀ u, Within [] (f u)) :
    AiFollows r (Ends fun h' _ => FoundLive h' token) h (decodeAndVerifyToken token >>= f) := by
  apply Prog.Meets.bind decodeAndVerifyToken_finds _ fun _ _ _ => trivial
  intro t _ hlive
  apply Prog.Only.meets (hf ())
  · intro t' e _ he
    exact aiConducted_of_within he (by decide) (by decide) (by decide) (by decide)
  · intro t' x _
    exact ends_of_forall fun _ => hlive.mono t'

theorem authedActor_finds {token : Claims} :
    AiFollows r (Ends fun h' _ => FoundLive h' token) h (authedActor token) :=
  verified_bind fun _ => .bind within_ensure fun _ => .bind findActorById_within fun _ =>
    .bind within_orThrow fun _ => .bind within_ensure fun _ => within_pure

theorem authedSession_finds {token : Claims} :
    AiFollows r (Ends fun h' _ => FoundLive h' token) h (authedSession token) := by
  apply verified_bind
  intro _
  apply Within.bind authenticableActor_within
  intro gate
  have hrest : Within [] (do
      let rows : Option Session ← query (.session (.findByToken (hashBearer token)))
      let session ← Prog.orThrow .invalidToken rows
      return (gate.actor, session) : Req AuthError (ActorIdentity × Session)) :=
    .bind (within_read rfl) fun _ => .bind within_orThrow fun _ => within_pure
  split
  · apply Within.bind loadUserFromActor_within
    intro _
    exact .bind within_ofExcept fun _ => hrest
  · exact hrest

end

/-! ## The rule is met -/

/-- The endpoints that the rule speaks of. -/
def Endpoint.isAi : Endpoint → Bool
  | .updateAccountStatus _ _ | .registerAiActor _ _ | .addAiCredential _ _ _
  | .setAiActorStatus _ _ | .issueChallenge _ | .authenticateAiActor _
  | .revokeAiCredential _ _ | .introspect _ | .currentActor _ => true
  | _ => false

omit [Platform] in
theorem effects_of_not_ai {ep : Endpoint} (hep : ep.isAi = false) :
    .setActorStatus ∉ ep.effects ∧ .createChallenge ∉ ep.effects ∧
      .writeAiCredential ∉ ep.effects := by
  cases ep <;> simp_all [Endpoint.isAi, Endpoint.effects]

theorem respond_aiFollows {r : Call} {α : Type} {f : α → Reply} {p : Req AuthError α}
    {P : List (Entry machine) → α → Prop} (hp : AiFollows r (Ends P) [] p)
    (hf : ∀ h a, P h a → AiConcluded r h (.ok (f a))) :
    AiFollows r (AiConcluded r) [] (respond f p) :=
  Prog.meets_bind.mpr (Prog.Meets.mapError hp (fun _ _ ha => hf _ _ ha) fun _ _ _ => trivial)

theorem aiConduct_met : aiConduct.Met := by
  intro ⟨cfg, endpoint⟩
  show AiFollows ⟨cfg, endpoint⟩ (AiConcluded ⟨cfg, endpoint⟩) [] (endpoint.program cfg)
  by_cases hai : endpoint.isAi = true
  · cases endpoint with
    | updateAccountStatus userId status =>
      apply respond_aiFollows (P := fun _ _ => True)
      · exact updateUserAccountStatus_follows.weaken (fun _ hw => hw) (fun _ _ _ he => he)
          fun _ _ _ => ends_of_forall fun _ => trivial
      · intro h _ _
        constructor
        · exact fun _ _ hep => nomatch hep
        · exact fun _ _ hep => nomatch hep
    | registerAiActor publicKey label =>
      apply respond_aiFollows (P := fun _ _ => True)
      · exact registerAiActor_adds.weaken (fun _ hw => hw) (fun _ _ _ he => he)
          fun _ _ _ => ends_of_forall fun _ => trivial
      · intro h _ _
        trivial
    | addAiCredential actorKey publicKey label =>
      apply respond_aiFollows (P := fun _ _ => True)
      · exact addAiCredential_adds.weaken (fun _ hw => hw) (fun _ _ _ he => he)
          fun _ _ _ => ends_of_forall fun _ => trivial
      · intro h _ _
        trivial
    | setAiActorStatus actorKey status =>
      apply respond_aiFollows setAiActorStatus_follows
      intro h _ hended
      constructor
      · exact fun _ _ hep => nomatch hep
      · intro _ _ hep
        cases hep
        exact hended
    | issueChallenge actorKey =>
      apply respond_aiFollows (P := fun _ _ => True)
      · exact issueChallenge_challenges.weaken (fun _ hw => hw) (fun _ _ _ he => he)
          fun _ _ _ => ends_of_forall fun _ => trivial
      · intro h _ _
        trivial
    | authenticateAiActor proof =>
      apply respond_aiFollows authenticateAiActor_opens
      intro h token hopened _ hep
      cases hep
      exact hopened
    | revokeAiCredential actorKey key =>
      apply respond_aiFollows revokeAiCredential_revokes
      intro h _ hrevoked
      constructor
      · intro _ _ hep
        cases hep
        exact hrevoked
      · exact fun _ _ hep => nomatch hep
    | introspect token =>
      apply respond_aiFollows authedSession_finds
      intro h _ hlive _ hep
      cases hep
      exact hlive
    | currentActor token =>
      apply respond_aiFollows authedActor_finds
      intro h _ hlive _ hep
      cases hep
      exact hlive
    | _ => cases hai
  · have hnot : endpoint.isAi = false := Bool.not_eq_true _ ▸ hai
    obtain ⟨h₁, h₂, h₃⟩ := effects_of_not_ai hnot
    have hother : ∀ ep : Endpoint, ep.isAi = true → endpoint ≠ ep := by
      intro ep hep heq
      rw [heq, hep] at hnot
      cases hnot
    apply Prog.Only.meets (Call.within ⟨cfg, endpoint⟩)
    · intro t e _ he
      apply aiConducted_of_effect
      · exact fun heff => h₁ (he _ heff)
      · exact fun heff => h₂ (he _ heff)
      · exact fun heff => h₃ (he _ heff)
      · exact fun _ proof => hother _ rfl
    · intro t x _
      rcases x with x | reply
      · trivial
      · cases reply with
        | aiSession token => exact fun _ hep => absurd hep (hother _ rfl)
        | ok =>
          exact ⟨fun _ _ hep => absurd hep (hother _ rfl),
            fun _ _ hep => absurd hep (hother _ rfl)⟩
        | actor a => exact fun _ hep => absurd hep (hother _ rfl)
        | introspected a s => exact fun _ hep => absurd hep (hother _ rfl)
        | _ => trivial

theorem aiConduct_holds {w : World} {c : (server).Conf} (hc : Reachable w c) : aiConduct.Inv c :=
  hc.rule aiConduct_met fun _ => trivial

end SoulAuth
