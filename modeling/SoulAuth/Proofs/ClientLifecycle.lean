import SoulAuth.Proofs.AuthTimes
import SoulAuth.Proofs.ClientConduct
import SoulAuth.Proofs.CodeExchange

/-! # The life of an OIDC client

A client is created, changed, given new secrets, and disabled, by requests
that run beside each other and beside those that it makes itself. Disabling
it is final. Its secret is the one handed out last, and what an
administrator asks for does not go beyond the limits of the server.
-/

namespace SoulAuth

open Framework Framework.System

section

variable [Platform]

/-! ## Disabled clients -/

/-- The client is stored, and not active. -/
structure Disabled (clientId : Str) (db : Db) : Prop where
  stored : ∃ row ∈ db.clients, row.clientId = clientId
  inactive : ∀ row ∈ db.clients, row.clientId = clientId → row.isActive = false

/-- The entry saves a code or a token for the client. -/
def IssuesFor (clientId : Str) (e : Entry machine) : Prop :=
  match e.stmt with
  | .db (.code (.save row _)) => row.clientId = clientId
  | .db (.accessToken (.save t)) => t.clientId = clientId
  | .db (.refreshToken (.save t)) => t.clientId = clientId
  | _ => False

section

variable {w w' : World} {c : (server).Conf} {clientId : Str} {client : OidcClient}
  {tr : List (Nat × Entry machine)} {i j n : Nat} {e : Entry machine}

/-- What a request reads of an active client. -/
theorem getActive_found (h : Answered (.client (.getActive clientId)) (some client) e) :
    client ∈ e.before.db.clients ∧ client.clientId = clientId ∧ client.isActive = true := by
  have hfound : (e.before.db.clients.find? fun c => c.clientId = clientId && c.isActive) =
      some client := by
    have hreply := h.reply
    simpa [DbStmt.exec, ClientStmt.exec] using hreply
  have hmatches := List.find?_some hfound
  simp only [Bool.and_eq_true, decide_eq_true_eq] at hmatches
  exact ⟨List.mem_of_find?_eq_some hfound, hmatches.1, hmatches.2⟩

/-- Nothing makes a disabled client active: no statement removes it, a new one
    has another identifier, and a change keeps the state of activity. -/
theorem Disabled.after (h : Disabled clientId e.before.db) : Disabled clientId e.after.db := by
  obtain ⟨⟨row₀, hrow₀, hid₀⟩, hinactive⟩ := h
  rcases clients_after e with heq | ⟨s, hs, heq⟩
  · constructor
    · exact ⟨row₀, heq ▸ hrow₀, hid₀⟩
    · intro row hrow
      exact hinactive row (heq ▸ hrow)
  have hmap : ∀ f : OidcClient → OidcClient, (∀ d, (f d).clientId = d.clientId) →
      (∀ d, d.isActive = false → (f d).isActive = false) →
      e.after.db.clients = e.before.db.clients.map f → Disabled clientId e.after.db := by
    intro f hid hkeep hafter
    constructor
    · refine ⟨f row₀, ?_, (hid row₀).trans hid₀⟩
      rw [hafter]
      exact List.mem_map_of_mem hrow₀
    · intro row hrow hrid
      rw [hafter] at hrow
      obtain ⟨d, hd, rfl⟩ := List.mem_map.mp hrow
      exact hkeep d (hinactive d hd ((hid d).symm.trans hrid))
  cases s with
  | getActive k =>
    constructor
    · exact ⟨row₀, heq ▸ hrow₀, hid₀⟩
    · intro row hrow
      rw [heq] at hrow
      exact hinactive row hrow
  | create new =>
    simp only [ClientStmt.exec] at heq
    split at heq
    · constructor
      · exact ⟨row₀, heq ▸ hrow₀, hid₀⟩
      · intro row hrow
        rw [heq] at hrow
        exact hinactive row hrow
    · next hfree =>
      constructor
      · refine ⟨row₀, ?_, hid₀⟩
        rw [heq]
        exact List.mem_append_left _ hrow₀
      · intro row hrow hrid
        rw [heq] at hrow
        rcases List.mem_append.mp hrow with hrow | hrow
        · exact hinactive row hrow hrid
        · -- the unique index has refused a second client of the identifier
          obtain rfl := List.mem_singleton.mp hrow
          refine absurd (List.any_eq_true.mpr ⟨row₀, hrow₀, ?_⟩) hfree
          simp [hid₀, hrid]
  | update new =>
    refine hmap _ ?_ ?_ heq
    · intro d
      split
      · next hd => exact hd.symm
      · rfl
    · intro d hd
      split
      · exact hd
      · exact hd
  | disable k t =>
    refine hmap _ ?_ ?_ heq
    · intro d
      split <;> rfl
    · intro d hd
      split
      · rfl
      · exact hd
  | setSecret k hash t =>
    refine hmap _ ?_ ?_ heq
    · intro d
      split <;> rfl
    · intro d hd
      split
      · exact hd
      · exact hd

theorem Disabled.along (h : Disabled clientId w.db) (hsteps : Steps (S := server) w tr w') :
    Disabled clientId w'.db := by
  apply hsteps.preserves (P := fun w => Disabled clientId w.db) h
  intro i e _ hbefore
  exact hbefore.after

/-- The statement that disables a client. -/
theorem disabled_of_answered {t : Timestamp}
    (h : Answered (.client (.disable clientId t)) true e) : Disabled clientId e.after.db := by
  have hafter : e.after.db.clients = e.before.db.clients.map fun d =>
      if d.clientId = clientId then { d with isActive := false, updatedAt := t } else d := by
    rw [h.after]
    rfl
  have hany : e.before.db.clients.any (fun d => d.clientId = clientId) = true := by
    have hreply := h.reply
    simpa [DbStmt.exec, ClientStmt.exec] using hreply
  obtain ⟨d, hd, hid⟩ := List.any_eq_true.mp hany
  have hid : d.clientId = clientId := by simpa using hid
  constructor
  · refine ⟨_, hafter ▸ List.mem_map_of_mem hd, ?_⟩
    rw [if_pos hid]
    exact hid
  · intro row hrow hrid
    rw [hafter] at hrow
    obtain ⟨d', hd', rfl⟩ := List.mem_map.mp hrow
    split
    · rfl
    · next hne =>
      rw [if_neg hne] at hrid
      exact absurd hrid hne

/-- A request that saves a code or a token for a client has found the client
    active. -/
theorem issues_after_reading (hc : Reachable w c) (hn : c.trace[n]? = some (i, e))
    (h : IssuesFor clientId e) : ∃ m e' client, m < n ∧ c.trace[m]? = some (i, e') ∧
      Answered (.client (.getActive clientId)) (some client) e' := by
  obtain ⟨r, -, hconduct⟩ := conducted_at hc (split_at hn)
  have hread : ∃ client, Heard (entriesOf (S := server) i (c.trace.take n))
      (.client (.getActive clientId)) (some client) := by
    have hredeemed : ∀ {request : TokenRequest} {k userId scope : Str},
        Redeemed request (entriesOf (S := server) i (c.trace.take n)) k userId scope →
        k = clientId → ∃ client, Heard (entriesOf (S := server) i (c.trace.take n))
          (.client (.getActive clientId)) (some client) := by
      intro request k userId scope hr hk
      have hsame : ∀ {client : OidcClient}, Heard (entriesOf (S := server) i (c.trace.take n))
          (.client (.getActive request.clientIdStr)) (some client) →
          client.clientId = clientId → ∃ client, Heard (entriesOf (S := server) i (c.trace.take n))
            (.client (.getActive clientId)) (some client) := by
        intro client hh hid
        obtain ⟨e', he', ha⟩ := hh
        obtain rfl : request.clientIdStr = clientId := (getActive_found ha).2.1.symm.trans hid
        exact ⟨client, e', he', ha⟩
      cases hr with
      | code _ client row accepted won => exact hsame accepted.clientRead hk
      | refresh _ _ client stored accepted won narrowed => exact hsame accepted.clientRead hk
    -- what issues: a code, an access token or a refresh token
    unfold Conducted at hconduct
    unfold IssuesFor at h
    split at h
    · next row key hs =>
      rw [hs] at hconduct
      obtain ⟨request, credentials, -, hg⟩ := hconduct
      obtain ⟨client, hclient, -⟩ := hg.client
      rw [← hg.clientId, h] at hclient
      exact ⟨client, hclient⟩
    · next t hs =>
      rw [hs] at hconduct
      obtain ⟨request, userId, -, -, hr⟩ := hconduct.redeemed
      exact hredeemed hr h
    · next t hs =>
      rw [hs] at hconduct
      obtain ⟨request, userId, -, -, hr⟩ := hconduct.redeemed
      exact hredeemed hr h
    · cases h
  obtain ⟨client, hh⟩ := hread
  obtain ⟨m, e', hm, hat, ha⟩ := heard_before hh
  exact ⟨m, e', client, hm, hat, ha⟩

/-- A request that starts once a client is disabled does not find it. -/
theorem Disabled.unread (hc : Reachable w c) (h : Disabled clientId c.state.db)
    (as : List (server).Action) (hlate : c.threads.length ≤ j) {found : Option OidcClient}
    (hmem : (j, e) ∈ (c.run as).trace) (ha : Answered (.client (.getActive clientId)) found e) :
    found = none := by
  obtain ⟨tr, htrace, -⟩ := c.run_trace as
  rw [htrace] at hmem
  have hnew : (j, e) ∈ tr := by
    rcases List.mem_append.mp hmem with hold | hnew
    · have hknown : j < c.threads.length := (clientRule_holds hc).known _ hold
      omega
    · exact hnew
  obtain ⟨tr₁, tr₂, rfl⟩ := List.append_of_mem hnew
  have hsteps : Steps (S := server) c.state (tr₁ ++ (j, e) :: tr₂) (c.run as).state := by
    obtain ⟨w₁, hs₁, hs₂⟩ := (hc.run as).steps.split htrace
    rwa [hs₁.state_eq hc.steps] at hs₂
  -- no statement in between enables a client
  have hbefore := h.along hsteps.split_entry.1
  cases found with
  | none => rfl
  | some client =>
    obtain ⟨hclient, hid, hactive⟩ := getActive_found ha
    rw [hbefore.inactive client hclient hid] at hactive
    cases hactive

/-- **Disabling is final.** Once `disable_client` has returned, the client is
    disabled for the rest of the run, and the requests that start from then
    on save no code or token for it and answer it no tokens. -/
theorem disabled_client_issued_nothing (hc : Reachable w c) {cfg : Config}
    (hreq : c.reqOf i = some ⟨cfg, .disableClient clientId⟩) (hret : c.Returned i (.ok .ok))
    (as : List (server).Action) :
    Disabled clientId (c.run as).state.db ∧
      (∀ j e, (j, e) ∈ (c.run as).trace → c.threads.length ≤ j → ¬ IssuesFor clientId e) ∧
      ∀ j cfg' request response, c.threads.length ≤ j →
        (c.run as).reqOf j = some ⟨cfg', .token request⟩ → request.clientIdStr = clientId →
        ¬ (c.run as).Returned j (.ok (.tokens response)) := by
  -- the statement that disabled it is in the trace
  obtain ⟨r, hr, hout⟩ := (clientRule_holds hc).returned hret
  cases hr.symm.trans hreq
  obtain ⟨t, hheard⟩ := hout.disabled clientId .ok rfl rfl
  obtain ⟨e₀, hmem₀, ha₀⟩ := heard_mem hheard fun _ he => he
  obtain ⟨tr₁, tr₂, htr⟩ := List.append_of_mem hmem₀
  have hsteps := hc.steps
  rw [htr] at hsteps
  have hdisabled : Disabled clientId c.state.db :=
    (disabled_of_answered ha₀).along hsteps.split_entry.2
  refine ⟨?_, ?_, ?_⟩
  · obtain ⟨tr, htrace, -⟩ := c.run_trace as
    obtain ⟨w₁, hs₁, hs₂⟩ := (hc.run as).steps.split htrace
    rw [hs₁.state_eq hc.steps] at hs₂
    exact hdisabled.along hs₂
  · intro j e hmem hlate hissues
    obtain ⟨n, hn⟩ := List.mem_iff_getElem?.mp hmem
    obtain ⟨m, e', client, -, hat, ha⟩ := issues_after_reading (hc.run as) hn hissues
    cases hdisabled.unread hc as hlate (List.mem_of_getElem? hat) ha
  · intro j cfg' request response hlate hreq' hid hret'
    obtain ⟨r', hr', hout'⟩ := (clientRule_holds (hc.run as)).returned hret'
    cases hr'.symm.trans hreq'
    obtain ⟨client, hclient⟩ := hout'.authenticated request response rfl rfl
    obtain ⟨e', hmem', ha'⟩ := heard_mem hclient.found fun _ he => he
    rw [hid] at ha'
    cases hdisabled.unread hc as hlate hmem' ha'

end

/-! ## Client secrets -/

/-- The entry stores the hash of a secret of the client: it creates the
    client, or gives it a new secret. -/
def SetsSecret (clientId hash : Str) (e : Entry machine) : Prop :=
  (∃ row, Executes (.client (.create row)) e ∧ row.clientId = clientId ∧
    row.clientSecretHash = hash ∧ ∀ d ∈ e.before.db.clients, d.clientId ≠ clientId) ∨
  ∃ t, Executes (.client (.setSecret clientId hash t)) e

/-- The newest secret of a client before a place of the trace: request `j` has
    drawn it and stored its hash, and hands it out if it succeeds. -/
structure NewestSecret (c : (server).Conf) (clientId : Str) (n : Nat) (j : Nat) (secret : Str)
    (salt : Nat) : Prop where
  stored : ∃ m e, m < n ∧ c.trace[m]? = some (j, e) ∧
    secret ∈ tokensOf (entriesOf (S := server) j (c.trace.take m)) ∧
    SetsSecret clientId (Platform.argon2Hash salt secret) e ∧
    ∀ k i e' hash, m < k → k < n → c.trace[k]? = some (i, e') → ¬ SetsSecret clientId hash e'
  answered : ∀ reply, c.Returned j (.ok reply) →
    reply = .clientCreated clientId secret ∨ reply = .clientSecret secret

/-- What request `i` had in hand when it was given tokens: the newest secret of
    the client at the place where it read it, or none, if it is a public one. -/
structure OpenedWith (c : (server).Conf) (i : Nat) (request : TokenRequest) (n : Nat)
    (client : OidcClient) (j : Nat) (secret : Str) (salt : Nat) : Prop where
  read : ∃ e, c.trace[n]? = some (i, e) ∧
    Answered (.client (.getActive request.clientIdStr)) (some client) e
  newest : NewestSecret c request.clientIdStr n j secret salt
  presented : client.clientType = .confidentialClient → request.clientSecret.isSome = true
  verified : ∀ x, request.clientSecret = some x →
    verifyClientSecretHash (Platform.argon2Hash salt secret) x = true

/-- The hashes that are stored for a client. -/
def secretHashes (clientId : Str) (clients : List OidcClient) : List Str :=
  (clients.filter fun d => d.clientId = clientId).map OidcClient.clientSecretHash

section

variable {w : World} {now : Timestamp} {c : (server).Conf} {clientId hash : Str}
  {i j n : Nat} {e : Entry machine}

omit [Platform] in
/-- A change of rows that keeps identifiers and the hashes of one client. -/
theorem secretHashes_map {f : OidcClient → OidcClient} {clients : List OidcClient}
    (hid : ∀ d, (f d).clientId = d.clientId)
    (hhash : ∀ d, d.clientId = clientId → (f d).clientSecretHash = d.clientSecretHash) :
    secretHashes clientId (clients.map f) = secretHashes clientId clients := by
  unfold secretHashes
  rw [List.filter_map, List.map_map]
  have hsame : (fun d : OidcClient => decide (d.clientId = clientId)) ∘ f =
      fun d => decide (d.clientId = clientId) := by
    funext d
    simp [hid]
  rw [hsame]
  apply List.map_congr_left
  intro d hd
  exact hhash d (by simpa using (List.mem_filter.mp hd).2)

/-- Only the statements that set the secret of a client change its hash. -/
theorem secretHashes_after (h : ∀ hash, ¬ SetsSecret clientId hash e) :
    secretHashes clientId e.after.db.clients = secretHashes clientId e.before.db.clients := by
  rcases db_executed e with ⟨s, hs⟩ | ⟨-, heq⟩
  · rw [hs.after]
    cases s with
    | client s =>
      cases s with
      | getActive => rfl
      | create row =>
        simp only [DbStmt.exec, ClientStmt.exec]
        split
        · rfl
        · next hfree =>
          have hother : row.clientId ≠ clientId := by
            intro hid
            refine h row.clientSecretHash (.inl ⟨row, hs, hid, rfl, fun d hd hdid => hfree ?_⟩)
            exact List.any_eq_true.mpr ⟨d, hd, by simp [hdid, hid]⟩
          simp [secretHashes, List.filter_append, hother]
      | update row =>
        apply secretHashes_map
        · intro d
          split
          · next hd => exact hd.symm
          · rfl
        · intro d _
          split <;> rfl
      | disable k t =>
        apply secretHashes_map
        · intro d
          split <;> rfl
        · intro d _
          split <;> rfl
      | setSecret k hash t =>
        have hk : k ≠ clientId := by
          intro hk
          subst hk
          exact h hash (.inr ⟨t, hs⟩)
        apply secretHashes_map
        · intro d
          split <;> rfl
        · intro d hd
          rw [if_neg fun hdk => hk (hdk.symm.trans hd)]
    | _ => rfl
  · rw [heq]

/-- After such a statement the client has the hash that it stores. -/
theorem secretHashes_of_setsSecret (h : SetsSecret clientId hash e) :
    ∀ x ∈ secretHashes clientId e.after.db.clients, x = hash := by
  intro x hx
  unfold secretHashes at hx
  obtain ⟨d, hd, rfl⟩ := List.mem_map.mp hx
  obtain ⟨hmem, hid⟩ := List.mem_filter.mp hd
  have hid : d.clientId = clientId := by simpa using hid
  rcases h with ⟨row, hs, hrow, rfl, hfree⟩ | ⟨t, hs⟩
  · rw [hs.after] at hmem
    simp only [DbStmt.exec, ClientStmt.exec] at hmem
    split at hmem
    · exact absurd hid (hfree d hmem)
    · rcases List.mem_append.mp hmem with hmem | hmem
      · exact absurd hid (hfree d hmem)
      · rw [List.mem_singleton.mp hmem]
  · rw [hs.after] at hmem
    obtain ⟨d', hd', rfl⟩ := List.mem_map.mp hmem
    by_cases hk : d'.clientId = clientId
    · rw [if_pos hk]
    · rw [if_neg hk] at hid
      exact absurd hid hk

/-- The secret whose hash is stored has been drawn by the request, and is what
    the request hands out. -/
theorem setsSecret_drawn (hc : Reachable w c) (hn : c.trace[n]? = some (j, e))
    (h : SetsSecret clientId hash e) : ∃ secret salt,
      secret ∈ tokensOf (entriesOf (S := server) j (c.trace.take n)) ∧
      hash = Platform.argon2Hash salt secret ∧ ∀ reply, c.Returned j (.ok reply) →
        reply = .clientCreated clientId secret ∨ reply = .clientSecret secret := by
  obtain ⟨⟨cfg, endpoint⟩, hreq, hconduct⟩ := (clientRule_holds hc).entries_at hn
  have hgrows : ∃ t, entriesOf (S := server) j c.trace =
      entriesOf (S := server) j (c.trace.take n) ++ t := by
    refine ⟨entriesOf (S := server) j (c.trace.drop n), ?_⟩
    rw [← entriesOf_append, List.take_append_drop]
  obtain ⟨t, hgrows⟩ := hgrows
  have hconduct : ClientConducted ⟨cfg, endpoint⟩ (entriesOf (S := server) j (c.trace.take n)) e :=
    hconduct
  unfold ClientConducted at hconduct
  -- a creation draws the identifier first and then the secret, a rotation only a secret
  rcases h with ⟨row, hs, hid, rfl, -⟩ | ⟨t₀, hs⟩
  · rw [hs.stmt] at hconduct
    obtain ⟨request, createdBy, secret, salt, now, hep, htokens, hrow⟩ := hconduct
    refine ⟨secret, salt, by simp [htokens], congrArg OidcClient.clientSecretHash hrow,
      fun reply hret => .inl ?_⟩
    obtain ⟨r, hr, hout⟩ := (clientRule_holds hc).returned hret
    cases hr.symm.trans hreq
    obtain ⟨k, s, hreply, hall⟩ := hout.created request createdBy reply hep rfl
    rw [hgrows, tokensOf_append, htokens] at hall
    simp only [List.cons_append, List.nil_append, List.cons.injEq] at hall
    rw [hreply, ← hall.1, ← hall.2.1, hid]
  · rw [hs.stmt] at hconduct
    obtain ⟨secret, salt, hep, htokens, rfl⟩ := hconduct
    refine ⟨secret, salt, by simp [htokens], rfl, fun reply hret => .inr ?_⟩
    obtain ⟨r, hr, hout⟩ := (clientRule_holds hc).returned hret
    cases hr.symm.trans hreq
    obtain ⟨s, hreply, hall⟩ := hout.rotated clientId reply hep rfl
    rw [hgrows, tokensOf_append, htokens] at hall
    simp only [List.cons_append, List.nil_append, List.cons.injEq] at hall
    rw [hreply, ← hall.1]

theorem admits_presented {client : OidcClient} {presented : Option Str} {x : Str}
    (h : client.admits presented = .ok ()) (hx : presented = some x) :
    verifyClientSecretHash client.clientSecretHash x = true := by
  subst hx
  unfold OidcClient.admits at h
  split at h
  · contradiction
  · next secret heq =>
    obtain rfl := Option.some.inj heq
    split at h
    · next hv => exact hv
    · cases h
  · contradiction

/-- **The newest secret opens.** A client gets tokens only with the secret that
    was handed out last before the request read the client; without any if it
    is a public one. -/
theorem newest_secret_opens (hc : Reachable (World.fresh now) c) {cfg : Config}
    {request : TokenRequest} {response : TokenResponse}
    (hreq : c.reqOf i = some ⟨cfg, .token request⟩)
    (hret : c.Returned i (.ok (.tokens response))) :
    ∃ n client j secret salt, OpenedWith c i request n client j secret salt := by
  obtain ⟨r, hr, hout⟩ := (clientRule_holds hc).returned hret
  cases hr.symm.trans hreq
  obtain ⟨client, hauth⟩ := hout.authenticated request response rfl rfl
  obtain ⟨e, hmem, ha⟩ := heard_mem hauth.found fun _ he => he
  obtain ⟨n, hn⟩ := List.mem_iff_getElem?.mp hmem
  obtain ⟨hstored, hid, -⟩ := getActive_found ha
  have hhash : client.clientSecretHash ∈
      secretHashes request.clientIdStr e.before.db.clients :=
    List.mem_map_of_mem (List.mem_filter.mpr ⟨hstored, by simpa using hid⟩)
  -- the last statement that set the secret of the client
  rcases (steps_before hc hn).settled
      (fun w => secretHashes request.clientIdStr w.db.clients)
      (fun e => ∃ hash, SetsSecret request.clientIdStr hash e)
      (fun _ _ _ hnot => secretHashes_after fun hash hset => hnot ⟨hash, hset⟩) with
    ⟨-, hnone⟩ | ⟨m, j, e', hm, ⟨hash, hset⟩, hlast, hvalue⟩
  · rw [hnone] at hhash
    cases hhash
  have hlt : m < n := by
    obtain ⟨hlt, -⟩ := List.getElem?_eq_some_iff.mp hm
    rw [List.length_take] at hlt
    omega
  have hm' : c.trace[m]? = some (j, e') := by
    rwa [List.getElem?_take_of_lt hlt] at hm
  obtain ⟨secret, salt, hdrawn, rfl, hanswered⟩ := setsSecret_drawn hc hm' hset
  rw [hvalue] at hhash
  have hsame := secretHashes_of_setsSecret hset _ hhash
  refine ⟨n, client, j, secret, salt, ⟨e, hn, ha⟩,
    ⟨⟨m, e', hlt, hm', hdrawn, hset, ?_⟩, hanswered⟩, ?_, ?_⟩
  · intro k i' e'' hash' hmk hkn hk hset'
    have hle := hlast k i' e'' (by rwa [List.getElem?_take_of_lt hkn]) ⟨hash', hset'⟩
    omega
  · intro hconf
    obtain ⟨x, hx, -⟩ := admits_confidential hauth.admitted hconf
    rw [hx]
    rfl
  · intro x hx
    rw [← hsame]
    exact admits_presented hauth.admitted hx

end

/-! ## The limits of the server -/

/-- What the server does not let an administrator choose: an ID token lives
    five minutes at most, and a public client uses PKCE. -/
structure OidcClient.WithinLimits (client : OidcClient) : Prop where
  lifetime_pos : 0 < client.idTokenLifetime
  lifetime_le : client.idTokenLifetime ≤ maxIdTokenLifetimeSecs
  pkce : client.clientType = .publicClient → client.requirePkce = true

section

variable {now : Timestamp} {c : (server).Conf} {client : OidcClient} {clientId : Str} {i n : Nat}
  {e : Entry machine}

omit [Platform] in
theorem clampIdTokenLifetime_pos (requested : Int) : 0 < clampIdTokenLifetime requested := by
  unfold clampIdTokenLifetime maxIdTokenLifetimeSecs
  split <;> omega

omit [Platform] in
theorem clampIdTokenLifetime_le (requested : Int) :
    clampIdTokenLifetime requested ≤ maxIdTokenLifetimeSecs := by
  unfold clampIdTokenLifetime
  split
  · exact Int.le_refl _
  · exact Int.min_le_right _ _

omit [Platform] in
theorem resolveRequirePkce_public {clientType : ClientType} (h : clientType = .publicClient)
    (requested : Option Bool) : resolveRequirePkce clientType requested = true := by
  rw [h]
  rfl

/-- The limits hold of every row that a statement on clients leaves. -/
theorem clientsWithinLimits (hc : Reachable (World.fresh now) c) :
    ∀ client ∈ c.state.db.clients, client.WithinLimits := by
  apply hc.steps.preserves (P := fun w => ∀ client ∈ w.db.clients, client.WithinLimits)
    fun _ h => absurd h List.not_mem_nil
  intro i e hmem hbefore client hclient
  rcases clients_after e with heq | ⟨s, hs, heq⟩
  · exact hbefore client (heq ▸ hclient)
  obtain ⟨tr₁, tr₂, htr⟩ := List.append_of_mem hmem
  obtain ⟨r, -, hconduct⟩ := (clientRule_holds hc).entries tr₁ i e tr₂ htr
  have hconduct : ClientConducted r (entriesOf (S := server) i tr₁) e := hconduct
  unfold ClientConducted at hconduct
  rw [hs] at hconduct
  rw [heq] at hclient
  cases s with
  | getActive => exact hbefore client hclient
  | create row =>
    simp only [ClientStmt.exec] at hclient
    split at hclient
    · exact hbefore client hclient
    · rcases List.mem_append.mp hclient with hclient | hclient
      · exact hbefore client hclient
      · obtain rfl := List.mem_singleton.mp hclient
        obtain ⟨request, createdBy, secret, salt, t, -, -, hrow⟩ := hconduct
        rw [hrow]
        exact ⟨clampIdTokenLifetime_pos _, clampIdTokenLifetime_le _,
          fun h => resolveRequirePkce_public h _⟩
  | update row =>
    obtain ⟨d, hd, rfl⟩ := List.mem_map.mp hclient
    split
    · obtain ⟨request, old, t, -, rfl⟩ := hconduct
      exact ⟨clampIdTokenLifetime_pos _, clampIdTokenLifetime_le _,
        fun h => resolveRequirePkce_public h _⟩
    · exact hbefore d hd
  | disable | setSecret =>
    obtain ⟨d, hd, rfl⟩ := List.mem_map.mp hclient
    have hlimits := hbefore d hd
    split
    · exact ⟨hlimits.lifetime_pos, hlimits.lifetime_le, hlimits.pkce⟩
    · exact hlimits

/-- A client that is read is within the limits. -/
theorem getActive_withinLimits (hc : Reachable (World.fresh now) c) (hmem : (i, e) ∈ c.trace)
    (ha : Answered (.client (.getActive clientId)) (some client) e) : client.WithinLimits := by
  obtain ⟨tr₁, tr₂, htr⟩ := List.append_of_mem hmem
  obtain ⟨c₁, hc₁, -, hstate⟩ := hc.before htr
  apply clientsWithinLimits hc₁
  rw [hstate]
  exact (getActive_found ha).1

/-- **ID tokens are short-lived.** Whatever lifetimes the clients have been
    given, an ID token expires after at most five minutes. -/
theorem id_tokens_short_lived (hc : Reachable (World.fresh now) c) {hint : IdTokenClaims}
    (hsigned : SignedBy c i hint) :
    hint.iat < hint.exp ∧ hint.exp ≤ hint.iat + maxIdTokenLifetimeSecs := by
  obtain ⟨response, hret, hid⟩ := hsigned
  obtain ⟨r, hr, request, hep, -⟩ := (conduct_holds hc).returned hret
  obtain ⟨r', hr', hout⟩ := (clientRule_holds hc).returned hret
  cases hr.symm.trans hr'
  obtain ⟨client, hauth⟩ := hout.authenticated request response hep rfl
  obtain ⟨e, hmem, ha⟩ := heard_mem hauth.found fun _ he => he
  have hlimits := getActive_withinLimits hc hmem ha
  obtain ⟨-, hexp⟩ := hauth.idToken hint hid
  rw [hexp]
  constructor
  · exact Int.lt_add_of_pos_right _ hlimits.lifetime_pos
  · exact Int.add_le_add_left hlimits.lifetime_le _

omit [Platform] in
/-- What a client that requires PKCE permits has a challenge. -/
theorem permits_challenge {request : AuthorizeRequest} (h : client.permits request = .ok ())
    (hpkce : client.requirePkce = true) :
    ∃ challenge, request.codeChallenge = some challenge := by
  unfold OidcClient.permits at h
  simp only [bind, Except.bind, throw, throwThe, MonadExceptOf.throw] at h
  split at h
  · cases h
  split at h
  · cases h
  split at h
  · cases h
  split at h
  · cases h
  split at h
  · cases h
  next hchallenge =>
    cases hrequest : request.codeChallenge with
    | some challenge => exact ⟨challenge, rfl⟩
    | none => exact absurd ⟨hpkce, hrequest⟩ hchallenge

/-- The code was saved for a request of the client, with a challenge if the
    client was a public one then. -/
structure IssuedBound (c : (server).Conf) (clientId code : Str) (saved : OidcAuthorizationCode) :
    Prop where
  codeHash : saved.codeHash = hashBearer code
  clientId : saved.clientId = clientId
  saved : ∃ (n j m : Nat) (e e' : Entry machine) (key : Str) (client : OidcClient),
    c.trace[n]? = some (j, e) ∧ e.stmt = .db (.code (.save saved key)) ∧ m < n ∧
    c.trace[m]? = some (j, e') ∧
    Answered (.client (.getActive saved.clientId)) (some client) e' ∧
    (client.clientType = .publicClient → ∃ challenge, saved.codeChallenge = some challenge)

/-- A code that has been saved is bound. -/
theorem issuedBound_of_issuedTo (hc : Reachable (World.fresh now) c) {code redirectUri : Str}
    {saved : OidcAuthorizationCode} (h : IssuedTo c code clientId redirectUri saved) :
    IssuedBound c clientId code saved := by
  obtain ⟨j, e, cfg, request, credentials, key, hmem, hreq, hid, -, hs, hcode⟩ := h
  obtain ⟨n, hn⟩ := List.mem_iff_getElem?.mp hmem
  obtain ⟨r, hr, hconduct⟩ := conducted_at hc (split_at hn)
  cases hr.symm.trans hreq
  unfold Conducted at hconduct
  rw [hs] at hconduct
  obtain ⟨request', credentials', hep, hg⟩ := hconduct
  cases hep
  obtain ⟨client, hheard, hpermits, -⟩ := hg.client
  obtain ⟨m, e', hm, hat, ha⟩ := heard_before hheard
  rw [← hg.clientId] at ha
  refine ⟨hcode, hg.clientId.trans hid, n, j, m, e, e', key, client, hn, hs, hm, hat, ha,
    fun hpublic => ?_⟩
  have hlimits := getActive_withinLimits hc (List.mem_of_getElem? hat) ha
  rw [hg.codeChallenge]
  exact permits_challenge hpermits (hlimits.pkce hpublic)

/-- **Codes of public clients are bound.** A code that was issued to a public
    client is exchanged only for a verifier whose digest is the challenge that
    it was issued with, whatever has become of the client since. -/
theorem public_codes_bound (hc : Reachable (World.fresh now) c) {cfg : Config}
    {request : TokenRequest} {response : TokenResponse}
    (hreq : c.reqOf i = some ⟨cfg, .token request⟩)
    (hgrant : request.grantType = "authorization_code".toList)
    (hret : c.Returned i (.ok (.tokens response))) :
    ∃ code saved, request.code = some code ∧ IssuedBound c request.clientIdStr code saved ∧
      ∀ challenge, saved.codeChallenge = some challenge →
        AnswersChallenge challenge request.codeVerifier := by
  obtain ⟨r, hr, hout⟩ := (conduct_holds hc).returned hret
  cases hr.symm.trans hreq
  obtain ⟨request', hep, hissued⟩ := hout
  cases hep
  obtain ⟨code, client, row, ha, -, -⟩ := hissued.redeemed hgrant
  obtain ⟨redirectUri, t, -, -, hcheck⟩ := ha.checked
  obtain ⟨-, hclient, -, hpkce⟩ := check_ok hcheck
  -- the row that was read is one of the table, with the address of its owner
  obtain ⟨e, hm, hread⟩ := heard_mem ha.rowRead fun _ he => he
  obtain ⟨tr₁, tr₂, htr⟩ := List.append_of_mem hm
  have hreply : (e.before.db.codes.find? fun d => d.codeHash = hashBearer code).map
      (fun d => { d with userId := actorAddress d.userId }) = some row := by
    simpa [DbStmt.exec, CodeStmt.exec] using hread.reply
  obtain ⟨stored, hstored, rfl⟩ := Option.map_eq_some_iff.mp hreply
  have hhash : stored.codeHash = hashBearer code := by
    simpa using List.find?_some hstored
  have hbefore : Steps (S := server) (World.fresh now) tr₁ e.before :=
    (Steps.split_entry (htr ▸ hc.steps)).1
  obtain ⟨saved, hsaved, hissuedTo⟩ :=
    code_issued hc htr hbefore (List.mem_of_find?_eq_some hstored)
  have hid : stored.clientId = request.clientIdStr := hclient
  rw [hhash, hid] at hissuedTo
  refine ⟨code, saved, ha.presented, issuedBound_of_issuedTo hc hissuedTo, fun challenge h => ?_⟩
  exact checkPkce_challenge hpkce (hsaved.codeChallenge.trans h)

end

end

end SoulAuth

namespace SoulAuth.Sample

open Framework Framework.System

/-- The client is disabled by request 4, after the exchange. -/
def clientDisabled : List (server).Action :=
  exchanged ++ start config (.disableClient clientId) :: steps 4 2

/-- Request 5 presents the refresh token of the exchange after that. -/
def refreshedDisabled : List (server).Action :=
  start config (refresh (numbered 't' 13)) :: steps 5 12

/-- Request 4 has disabled the client, and request 5 is given no tokens. -/
theorem disabled_client_issued_nothing_app :
    Disabled clientId (after (clientDisabled ++ refreshedDisabled)).state.db ∧
      ∀ response, ¬ (after (clientDisabled ++ refreshedDisabled)).Returned 5
        (.ok (.tokens response)) := by
  have hreq : (after clientDisabled).reqOf 4 = some ⟨config, .disableClient clientId⟩ := by
    decide +kernel
  have hret : (after clientDisabled).Returned 4 (.ok .ok) :=
    Conf.returned_of_outcome (by decide +kernel)
  have hmore : after (clientDisabled ++ refreshedDisabled) =
      (after clientDisabled).run refreshedDisabled := Conf.run_append _ _ _
  have hrefresh : (after (clientDisabled ++ refreshedDisabled)).reqOf 5 =
      some ⟨config, .token (rotation (numbered 't' 13))⟩ := by
    decide +kernel
  obtain ⟨hdisabled, -, hnone⟩ :=
    disabled_client_issued_nothing (after_reachable clientDisabled) hreq hret refreshedDisabled
  rw [← hmore] at hdisabled hnone
  refine ⟨hdisabled, fun response => hnone 5 _ _ response ?_ hrefresh rfl⟩
  decide +kernel

/-- The client gets a new secret by request 3, before its code is redeemed
    with it by request 4. -/
def secretRotated : List (server).Action :=
  authorized ++ start config (.regenerateClientSecret clientId) :: steps 3 4

def newSecret : Str := numbered 't' 12

def redeemedRotated : List (server).Action :=
  secretRotated ++
    start config (.token { redemption code with clientSecret := some newSecret }) :: steps 4 18

theorem newest_secret_opens_rotated : ∃ n client j secret salt,
    OpenedWith (after redeemedRotated) 4 { redemption code with clientSecret := some newSecret } n
      client j secret salt := by
  obtain ⟨response, hret⟩ := tokens_of_answered (c := after redeemedRotated) (i := 4)
    (by decide +kernel)
  have hreq : (after redeemedRotated).reqOf 4 =
      some ⟨config, .token { redemption code with clientSecret := some newSecret }⟩ := by
    decide +kernel
  exact newest_secret_opens (after_reachable _) hreq hret

/-- The ID token of the exchange. -/
theorem id_tokens_short_lived_exchanged : ∃ hint, SignedBy (after exchanged) 3 hint ∧
    hint.iat < hint.exp ∧ hint.exp ≤ hint.iat + maxIdTokenLifetimeSecs := by
  have hsome : (idTokenOf (after exchanged) 3).isSome = true := by decide +kernel
  obtain ⟨hint, hid⟩ := Option.isSome_iff_exists.mp hsome
  exact ⟨hint, signedBy_of hid, id_tokens_short_lived (after_reachable _) (signedBy_of hid)⟩

theorem public_codes_bound_exchanged : ∃ code' saved,
    (redemption code).code = some code' ∧
      IssuedBound (after exchanged) (redemption code).clientIdStr code' saved ∧
      ∀ challenge, saved.codeChallenge = some challenge →
        AnswersChallenge challenge (redemption code).codeVerifier := by
  obtain ⟨response, hret⟩ := tokens_of_answered (c := after exchanged) (i := 3)
    (by decide +kernel)
  have hreq : (after exchanged).reqOf 3 = some ⟨config, .token (redemption code)⟩ := by
    decide +kernel
  exact public_codes_bound (after_reachable _) hreq rfl hret

end SoulAuth.Sample
