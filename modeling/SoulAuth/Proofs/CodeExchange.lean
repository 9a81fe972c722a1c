import SoulAuth.Proofs.Tables

/-! # The soundness of the code exchange

A token response to the code grant rests on the code that an authorization
request saved for the same client and redirect URI, however the client was
changed in between.
-/

namespace SoulAuth

open Framework Framework.System

variable [Platform]

/-- A code was issued to a client for a redirect URI: an authorization
    request naming both saved it. -/
def IssuedTo (c : (server).Conf) (code clientId redirectUri : Str)
    (saved : OidcAuthorizationCode) : Prop :=
  ∃ j e cfg request credentials key, (j, e) ∈ c.trace ∧
    c.reqOf j = some ⟨cfg, .authorize request credentials⟩ ∧
    request.clientId = clientId ∧ request.redirectUri = redirectUri ∧
    e.stmt = .db (.code (.save saved key)) ∧ saved.codeHash = hashBearer code

/-- The stored challenge is answered by a verifier as RFC 7636 wants it. -/
def AnswersChallenge (challenge : Str) (codeVerifier : Option Str) : Prop :=
  ∃ verifier, codeVerifier = some verifier ∧ challenge = Platform.s256 verifier ∧
    43 ≤ Str.byteLen verifier ∧ Str.byteLen verifier ≤ 128 ∧
    ∀ ch ∈ verifier, isVerifierChar ch = true

/-- What a token response to the code grant of request `i` guarantees: of
    the code as it was `saved`, and of the client as the request found it. -/
structure SoundExchange (c : (server).Conf) (i : Nat) (request : TokenRequest)
    (response : TokenResponse) (code redirectUri : Str) (client : OidcClient)
    (saved : OidcAuthorizationCode) : Prop where
  presented : request.code = some code ∧ request.redirectUri = some redirectUri
  issued : IssuedTo c code request.clientIdStr redirectUri saved
  unexpired : ∃ e now, (i, e) ∈ c.trace ∧ SawTime now e ∧ now ≤ saved.expiresAt
  /-- The update that consumed the code found it unused. -/
  unconsumed : ∃ e, (i, e) ∈ c.trace ∧ Answered (.code (.consume (hashBearer code))) 1 e
  currentClient : ∃ e, (i, e) ∈ c.trace ∧ client ∈ e.before.db.clients ∧
    client.clientId = request.clientIdStr ∧ client.isActive = true ∧
    .authorizationCode ∈ client.allowedGrantTypes
  secret : client.clientType = .confidentialClient → ∃ secret,
    request.clientSecret = some secret ∧
      verifyClientSecretHash client.clientSecretHash secret = true
  challenge : ∀ challenge, saved.codeChallenge = some challenge →
    AnswersChallenge challenge request.codeVerifier
  publicClient : client.clientType = .publicClient → ∃ challenge,
    saved.codeChallenge = some challenge
  scope : response.scope = saved.scope

/-! ## The checks of the grant -/

section

variable {client : OidcClient} {request : TokenRequest} {row : OidcAuthorizationCode}
  {redirectUri : Str} {now : Timestamp}

/-- What the checks of the code grant establish. -/
theorem check_ok {u : Unit} (h : row.check client request redirectUri now = .ok u) :
    now ≤ row.expiresAt ∧ row.clientId = request.clientIdStr ∧
      row.redirectUri = redirectUri ∧ row.checkPkce client request.codeVerifier = .ok () := by
  unfold OidcAuthorizationCode.check at h
  split at h
  · cases h
  split at h
  · cases h
  next hexp =>
  split at h
  · cases h
  next hclient =>
  split at h
  · cases h
  next huri =>
  exact ⟨Int.not_lt.mp hexp, by simpa using hclient, by simpa using huri, h⟩

theorem verifyPkceValue_ok {challenge verifier : Str} {method : Option Str}
    (h : verifyPkceValue challenge method verifier = .ok true) :
    AnswersChallenge challenge (some verifier) := by
  unfold verifyPkceValue at h
  split at h
  · cases h
  next hlen =>
  split at h
  next hchars =>
    have hsame : Platform.s256 verifier = challenge := by
      split at h
      · split at h
        · simpa using h
        · cases h
      · cases h
    exact ⟨verifier, rfl, hsame.symm, by omega, by omega, by simpa using hchars⟩
  · cases h

theorem checkPkce_challenge {challenge : Str} {u : Unit} {codeVerifier : Option Str}
    (h : row.checkPkce client codeVerifier = .ok u) (hrow : row.codeChallenge = some challenge) :
    AnswersChallenge challenge codeVerifier := by
  unfold OidcAuthorizationCode.checkPkce at h
  rw [hrow] at h
  simp only at h
  split at h
  · cases h
  · next verifier =>
    split at h
    · next hv => exact verifyPkceValue_ok hv
    · cases h
    · cases h

/-- A public client passes with a stored challenge only. -/
theorem checkPkce_public {u : Unit} {codeVerifier : Option Str}
    (h : row.checkPkce client codeVerifier = .ok u) (hpublic : client.clientType = .publicClient) :
    ∃ challenge, row.codeChallenge = some challenge := by
  unfold OidcAuthorizationCode.checkPkce at h
  split at h
  · rw [hpublic] at h
    cases h
  · next challenge hrow => exact ⟨challenge, hrow⟩

/-- A confidential client is admitted with its secret only. -/
theorem admits_confidential {u : Unit} {presented : Option Str}
    (h : client.admits presented = .ok u) (hconf : client.clientType = .confidentialClient) :
    ∃ secret, presented = some secret ∧
      verifyClientSecretHash client.clientSecretHash secret = true := by
  unfold OidcClient.admits at h
  rw [hconf] at h
  split at h
  · cases h
  · next secret =>
    split at h
    · next hv => exact ⟨secret, rfl, hv⟩
    · cases h
  · contradiction

end

/-! ## Where the code comes from -/

section

variable {now : Timestamp} {c : (server).Conf} {i : Nat}

/-- A code in the table was saved by an authorization request for the
    client and the redirect URI of its row. -/
theorem code_issued (hc : Reachable (World.fresh now) c) {w : World}
    {tr₁ tr₂ : List (Nat × Entry machine)} (htr : c.trace = tr₁ ++ tr₂)
    (hw : Steps (S := server) (World.fresh now) tr₁ w) {row : OidcAuthorizationCode}
    (hrow : row ∈ w.db.codes) :
    ∃ saved, row.IsSaved saved ∧
      IssuedTo c row.codeHash.of row.clientId row.redirectUri saved := by
  -- the entry after which a row like this one is in the table
  have horigin := hw.origin (P := fun w => ∃ r ∈ w.db.codes, row.IsSaved r)
    ⟨row, hrow, rfl, rfl, rfl, rfl, rfl, rfl, rfl⟩
  rcases horigin with ⟨r, hr, -⟩ | ⟨j, e, hm, ⟨r, hr, hsame⟩, hnew⟩
  · cases hr
  · rcases code_before hr with ⟨r₀, hr₀, -, hsame₀⟩ | ⟨saved, key, hs, -, hsaved⟩
    · exact absurd ⟨r₀, hr₀, hsame.trans hsame₀⟩ hnew
    · obtain ⟨tr₃, tr₄, hcut⟩ := List.append_of_mem (show (j, e) ∈ c.trace from
        htr ▸ List.mem_append_left _ hm)
      obtain ⟨⟨cfg, endpoint⟩, hreq, hcond⟩ := conducted_at hc hcut
      unfold Conducted at hcond
      rw [hs] at hcond
      obtain ⟨request, credentials, rfl, hg⟩ := hcond
      have hfrom := hsame.trans hsaved
      refine ⟨saved, hfrom, j, e, cfg, request, credentials, key, hcut ▸ by simp, hreq, ?_, ?_, hs,
        hfrom.codeHash.symm⟩
      · rw [hfrom.clientId, hg.clientId]
      · rw [hfrom.redirectUri, hg.redirectUri]

/-- **Sound exchange.** A token response to the authorization-code grant
    guarantees everything the protocol promises of it, in every run. -/
theorem code_exchange_sound (hc : Reachable (World.fresh now) c) {cfg : Config}
    {request : TokenRequest} {response : TokenResponse}
    (hreq : c.reqOf i = some ⟨cfg, .token request⟩)
    (hgrant : request.grantType = "authorization_code".toList)
    (hret : c.Returned i (.ok (.tokens response))) :
    ∃ code redirectUri client saved,
      SoundExchange c i request response code redirectUri client saved := by
  obtain ⟨r, hr, hout⟩ := (conduct_holds hc).returned hret
  cases hr.symm.trans hreq
  obtain ⟨request', hep, hissued⟩ := hout
  cases hep
  obtain ⟨code, client, row, ha, hwon, hscope⟩ := hissued.redeemed hgrant
  obtain ⟨redirectUri, t, huri, hsaw, hcheck⟩ := ha.checked
  obtain ⟨hexp, hclient, hrowUri, hpkce⟩ := check_ok hcheck
  -- the row that was read is one of the table, with the address of its owner
  obtain ⟨e, hm, hread⟩ := heard_mem ha.rowRead fun _ he => he
  obtain ⟨tr₁, tr₂, htr⟩ := List.append_of_mem hm
  have hreply : (e.before.db.codes.find? fun d => d.codeHash = hashBearer code).map
      (fun d => { d with userId := actorAddress d.userId }) = some row := by
    simpa [DbStmt.exec, CodeStmt.exec] using hread.reply
  obtain ⟨stored, hstored, rfl⟩ := Option.map_eq_some_iff.mp hreply
  have hhash : stored.codeHash = hashBearer code := by
    simpa using List.find?_some hstored
  have hbefore : Steps (S := server) (World.fresh now) tr₁ e.before :=
    (Steps.split_entry (htr ▸ hc.steps)).1
  obtain ⟨saved, hsaved, hissuedTo⟩ :=
    code_issued hc htr hbefore (List.mem_of_find?_eq_some hstored)
  rw [hhash] at hissuedTo
  obtain rfl : stored.redirectUri = redirectUri := hrowUri
  -- the client as it was read
  obtain ⟨e', hm', hclientRead⟩ := heard_mem ha.clientRead fun _ he => he
  have hfound : (e'.before.db.clients.find? fun d =>
      d.clientId = request.clientIdStr && d.isActive) = some client := by
    simpa [DbStmt.exec, ClientStmt.exec] using hclientRead.reply
  have hactive : client.clientId = request.clientIdStr ∧ client.isActive = true := by
    simpa using List.find?_some hfound
  obtain ⟨e'', he'', hsaw⟩ := hsaw
  refine ⟨code, stored.redirectUri, client, saved, ?_⟩
  exact
    { presented := ⟨ha.presented, huri⟩
      issued := (show stored.clientId = request.clientIdStr from hclient) ▸ hissuedTo
      unexpired := ⟨e'', t, mem_entriesOf.mp he'', hsaw, hsaved.expiresAt ▸ hexp⟩
      unconsumed := heard_mem hwon fun _ he => he
      currentClient := ⟨e', hm', List.mem_of_find?_eq_some hfound, hactive.1, hactive.2, ha.allowed⟩
      secret := admits_confidential ha.admitted
      challenge := fun challenge h => checkPkce_challenge hpkce (hsaved.codeChallenge.trans h)
      publicClient := fun h => by
        obtain ⟨challenge, hrow⟩ := checkPkce_public hpkce h
        exact ⟨challenge, hsaved.codeChallenge.symm.trans hrow⟩
      scope := hscope.trans hsaved.scope }

end

end SoulAuth

namespace SoulAuth.Sample

/-- Request 3 of the sample run has exchanged the code of request 2. -/
theorem code_exchange_sound_exchanged : ∃ response code redirectUri client saved,
    SoundExchange (after exchanged) 3 (redemption Sample.code) response code redirectUri client
      saved := by
  obtain ⟨response, hret⟩ := tokens_of_answered (c := after exchanged) (i := 3)
    (by decide +kernel)
  have hreq : (after exchanged).reqOf 3 = some ⟨config, .token (redemption Sample.code)⟩ := by
    decide +kernel
  exact ⟨response, code_exchange_sound (after_reachable _) hreq rfl hret⟩

end SoulAuth.Sample
