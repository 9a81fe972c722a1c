import SoulAuth.Proofs.CodeExchange
import SoulAuth.Proofs.SingleUse
import SoulAuth.Utils.Words

/-! # The scopes that are granted

An authorization code carries words that the client may have. From there on
scopes only shrink: a refresh grants words of the token that it redeems, and
the token it hands out carries the words it granted.
-/

namespace SoulAuth

open Framework Framework.System

/-- The words of a scope. -/
abbrev scopeWords (scope : Str) : List Str := Str.splitWhitespace scope

/-! ## Codes -/

/-- The words that a request names. -/
def requestedWords (requested : Option Str) : List Str := scopeWords (requested.getD [])

/-- What a request for a scope may be answered with. -/
structure ScopeGranted (client : OidcClient) (requested : Option Str) (scope : Str) : Prop where
  nodup : (scopeWords scope).Nodup
  allowed : ∀ word ∈ scopeWords scope, word ∈ client.allowedScopes
  exact : requestedWords requested ≠ [] →
    ∀ word, word ∈ scopeWords scope ↔ word ∈ requestedWords requested

theorem grantScopes_ok {allowed granted words result : List Str}
    (h : grantScopes allowed granted words = .ok result) (hnodup : granted.Nodup)
    (hgranted : ∀ word ∈ granted, word ∈ allowed) :
    result.Nodup ∧ (∀ word ∈ result, word ∈ allowed) ∧
      ∀ word, word ∈ result ↔ word ∈ granted ∨ word ∈ words := by
  induction words generalizing granted with
  | nil =>
    cases h
    exact ⟨hnodup, hgranted, by simp⟩
  | cons scope words ih =>
    rw [grantScopes] at h
    split at h
    · next hallowed =>
      by_cases hmem : scope ∈ granted
      · rw [if_pos hmem] at h
        obtain ⟨hnd, hall, hiff⟩ := ih h hnodup hgranted
        refine ⟨hnd, hall, fun word => ?_⟩
        rw [hiff, List.mem_cons]
        constructor
        · intro hor
          exact hor.imp_right .inr
        · intro hor
          rcases hor with hg | rfl | hw
          · exact .inl hg
          · exact .inl hmem
          · exact .inr hw
      · rw [if_neg hmem] at h
        have hnodup' : (granted ++ [scope]).Nodup := by
          apply List.nodup_append.mpr
          refine ⟨hnodup, by simp, ?_⟩
          intro a ha b hb heq
          rw [List.mem_singleton.mp hb] at heq
          exact hmem (heq ▸ ha)
        have hgranted' : ∀ word ∈ granted ++ [scope], word ∈ allowed := by
          intro word hword
          rcases List.mem_append.mp hword with hword | hword
          · exact hgranted word hword
          · cases List.mem_singleton.mp hword
            exact hallowed
        obtain ⟨hnd, hall, hiff⟩ := ih h hnodup' hgranted'
        refine ⟨hnd, hall, fun word => ?_⟩
        rw [hiff, List.mem_append, List.mem_singleton, List.mem_cons, or_assoc]
    · cases h

/-- What the words of a request are answered with. -/
theorem grantScopes_words {client : OidcClient} {text : Str} {result : List Str}
    (h : grantScopes client.allowedScopes [] (scopeWords text) = .ok result) :
    let scope := [' '].intercalate result
    (scopeWords scope).Nodup ∧ (∀ word ∈ scopeWords scope, word ∈ client.allowedScopes) ∧
      ∀ word, word ∈ scopeWords scope ↔ word ∈ scopeWords text := by
  obtain ⟨hnodup, hall, hiff⟩ := grantScopes_ok h List.nodup_nil (by simp)
  have hmem : ∀ word, word ∈ result ↔ word ∈ scopeWords text := by
    intro word
    rw [hiff]
    simp
  have hread : scopeWords ([' '].intercalate result) = result :=
    Str.splitWhitespace_intercalate fun word hword => Str.isWord_of_mem ((hmem word).mp hword)
  dsimp only
  rw [hread]
  exact ⟨hnodup, hall, hmem⟩

/-- **What `resolve_scope` grants.** For every client and every request it is
    what the client may have and the request names, unless the request is
    blank and the client may not have `openid`. -/
theorem resolveScope_granted_iff (client : OidcClient) (requested : Option Str) :
    (∀ scope, resolveScope client requested = .ok scope → ScopeGranted client requested scope) ↔
      requested = none ∨ requestedWords requested ≠ [] ∨
        "openid".toList ∈ client.allowedScopes := by
  by_cases hblank : Str.trim (requested.getD "openid".toList) = []
  · -- `openid` is granted without a look at the client
    have hok : resolveScope client requested = .ok "openid".toList := by
      unfold resolveScope
      rw [if_pos hblank]
    obtain ⟨text, rfl⟩ : ∃ text, requested = some text := by
      cases requested with
      | none => exact absurd hblank (by decide)
      | some text => exact ⟨text, rfl⟩
    have hnone : requestedWords (some text) = [] := Str.splitWhitespace_eq_nil_iff.mpr hblank
    constructor
    · intro h
      have hallowed := (h _ hok).allowed "openid".toList (by decide)
      exact .inr (.inr hallowed)
    · intro h scope hscope
      cases hok.symm.trans hscope
      refine ⟨by decide, ?_, fun hne => absurd hnone hne⟩
      intro word hword
      rcases h with h | h | h
      · cases h
      · exact absurd hnone h
      · obtain rfl : word = "openid".toList := by
          have hwords : scopeWords "openid".toList = ["openid".toList] := by decide
          rw [hwords] at hword
          exact List.mem_singleton.mp hword
        exact h
  · have hgranted : ∀ scope, resolveScope client requested = .ok scope →
        ScopeGranted client requested scope := by
      intro scope hscope
      unfold resolveScope at hscope
      rw [if_neg hblank] at hscope
      rcases hgrant : grantScopes client.allowedScopes []
        (scopeWords (Str.trim (requested.getD "openid".toList))) with x | result
      · rw [hgrant] at hscope
        cases hscope
      · rw [hgrant] at hscope
        cases hscope
        obtain ⟨hnodup, hall, hiff⟩ := grantScopes_words hgrant
        refine ⟨hnodup, hall, ?_⟩
        intro hne word
        cases requested with
        | none => exact absurd rfl hne
        | some text =>
          rw [hiff]
          show word ∈ scopeWords (Str.trim text) ↔ word ∈ scopeWords text
          rw [scopeWords, Str.splitWhitespace_trim]
    constructor
    · intro _
      cases requested with
      | none => exact .inl rfl
      | some text =>
        refine .inr (.inl fun hnil => hblank ?_)
        exact Str.splitWhitespace_eq_nil_iff.mp hnil
    · intro _
      exact hgranted

/-! ## Tokens -/

variable [Platform]

/-- Request number `i` saves the code. -/
def SavesCode (c : (server).Conf) (i : Nat) (row : OidcAuthorizationCode) : Prop :=
  ∃ e key, (i, e) ∈ c.trace ∧ e.stmt = .db (.code (.save row key))

/-- Request number `i` saves the refresh token. -/
def SavesRefresh (c : (server).Conf) (i : Nat) (t : OidcRefreshToken) : Prop :=
  ∃ e, (i, e) ∈ c.trace ∧ e.stmt = .db (.refreshToken (.save t))

/-- Request number `i` saves the access token. -/
def SavesAccess (c : (server).Conf) (i : Nat) (t : OidcAccessToken) : Prop :=
  ∃ e, (i, e) ∈ c.trace ∧ e.stmt = .db (.accessToken (.save t))

/-- Request number `i` saves an access token or a refresh token for the scope. -/
def IssuesScope (c : (server).Conf) (i : Nat) (scope : Str) : Prop :=
  (∃ t, SavesAccess c i t ∧ t.scope = scope) ∨ ∃ t, SavesRefresh c i t ∧ t.scope = scope

/-- Request number `j` presents a refresh token that request number `i` saves. -/
def Rotates (c : (server).Conf) (i j : Nat) : Prop :=
  ∃ t token, SavesRefresh c i t ∧ t.tokenHash = hashBearer token ∧ PresentsRefresh c j token

/-- Request number `j` stands at the end of a chain of refreshes, of any
    length, that starts with the tokens of request number `i`. -/
abbrev Descends (c : (server).Conf) : Nat → Nat → Prop := Relation.ReflTransGen (Rotates c)

/-! ### What is stored -/

section

variable {now : Timestamp} {c : (server).Conf} {i j k : Nat} {scope : Str}

/-- A code is saved at one place of the trace. -/
theorem savesCode_unique (hc : Reachable (World.fresh now) c) {row row' : OidcAuthorizationCode}
    (h : SavesCode c i row) (h' : SavesCode c j row') (hhash : row.codeHash = row'.codeHash) :
    row = row' := by
  have hissues : ∀ {i : Nat} {row : OidcAuthorizationCode}, SavesCode c i row →
      ∃ n e key, IssuesAt tokenOf c .saveCode row.codeHash.of n i e ∧
        e.stmt = .db (.code (.save row key)) := by
    intro i row hsave
    obtain ⟨e, key, hm, hs⟩ := hsave
    obtain ⟨n, hn⟩ := List.getElem?_of_mem hm
    obtain ⟨r, -, hcond⟩ := conducted_at hc (split_at hn)
    unfold Conducted at hcond
    rw [hs] at hcond
    obtain ⟨request, credentials, -, hg⟩ := hcond
    obtain ⟨code, hcode, heq⟩ := hg.drawn
    refine ⟨n, e, key, ⟨hn, by rw [hs]; rfl, ?_, hg.once⟩, hs⟩
    rw [heq]
    exact hcode
  obtain ⟨n, e, key, hat, hs⟩ := hissues h
  obtain ⟨m, e', key', hat', hs'⟩ := hissues h'
  rw [← hhash] at hat'
  obtain rfl : n = m := hat.unique isDraw_token hc hat'
  cases hat.place.symm.trans hat'.place
  cases hs.symm.trans hs'
  rfl

/-- A refresh token is saved at one place of the trace. -/
theorem savesRefresh_unique (hc : Reachable (World.fresh now) c) {t t' : OidcRefreshToken}
    (h : SavesRefresh c i t) (h' : SavesRefresh c j t') (hhash : t.tokenHash = t'.tokenHash) :
    i = j ∧ t = t' := by
  have hissues : ∀ {i : Nat} {t : OidcRefreshToken}, SavesRefresh c i t →
      ∃ n e, IssuesAt tokenOf c .saveRefresh t.tokenHash.of n i e ∧
        e.stmt = .db (.refreshToken (.save t)) := by
    intro i t hsave
    obtain ⟨e, hm, hs⟩ := hsave
    obtain ⟨n, hn⟩ := List.getElem?_of_mem hm
    obtain ⟨r, -, hcond⟩ := conducted_at hc (split_at hn)
    unfold Conducted at hcond
    rw [hs] at hcond
    obtain ⟨token, htoken, heq⟩ := hcond.drawn
    refine ⟨n, e, ⟨hn, by rw [hs]; rfl, ?_, hcond.once⟩, hs⟩
    rw [heq]
    exact htoken
  obtain ⟨n, e, hat, hs⟩ := hissues h
  obtain ⟨m, e', hat', hs'⟩ := hissues h'
  rw [← hhash] at hat'
  obtain rfl : n = m := hat.unique isDraw_token hc hat'
  cases hat.place.symm.trans hat'.place
  cases hs.symm.trans hs'
  exact ⟨rfl, rfl⟩

/-- A code that was read has been saved. -/
theorem code_saved (hc : Reachable (World.fresh now) c) {e : Entry machine} (hm : (i, e) ∈ c.trace)
    {h : Hashed Str} {row : OidcAuthorizationCode}
    (hread : Answered (.code (.get h)) (some row) e) :
    ∃ k saved, SavesCode c k saved ∧ saved.codeHash = h ∧ saved.scope = row.scope := by
  have hreply : (e.before.db.codes.find? fun d => d.codeHash = h).map
      (fun d => { d with userId := actorAddress d.userId }) = some row := by
    simpa [DbStmt.exec, CodeStmt.exec] using hread.reply
  obtain ⟨stored, hstored, rfl⟩ := Option.map_eq_some_iff.mp hreply
  have hhash : stored.codeHash = h := by simpa using List.find?_some hstored
  obtain ⟨tr₁, tr₂, htr⟩ := List.append_of_mem hm
  obtain ⟨saved, hsaved, k, e', _, _, _, key, hm', -, -, -, hs, -⟩ := code_issued hc htr
    (Steps.split_entry (htr ▸ hc.steps)).1 (List.mem_of_find?_eq_some hstored)
  refine ⟨k, saved, ⟨e', key, hm', hs⟩, ?_, hsaved.scope.symm⟩
  rw [← hsaved.codeHash, hhash]

/-- A refresh token that was read has been saved. -/
theorem refresh_saved (hc : Reachable (World.fresh now) c) {e : Entry machine}
    (hm : (i, e) ∈ c.trace) {h : Hashed Str} {stored : OidcRefreshToken}
    (hread : Answered (.refreshToken (.get h)) (some stored) e) :
    ∃ k saved, SavesRefresh c k saved ∧ saved.tokenHash = h ∧ saved.scope = stored.scope := by
  have hreply : (e.before.db.refreshTokens.find? fun d => d.tokenHash = h).map
      (fun d => { d with userId := actorAddress d.userId }) = some stored := by
    simpa [DbStmt.exec, RefreshTokenStmt.exec] using hread.reply
  obtain ⟨row, hrow, rfl⟩ := Option.map_eq_some_iff.mp hreply
  have hhash : row.tokenHash = h := by simpa using List.find?_some hrow
  obtain ⟨n, hn⟩ := List.getElem?_of_mem hm
  -- the entry after which a row like this one is in the table
  have horigin := (steps_before hc hn).origin
    (P := fun w => ∃ r ∈ w.db.refreshTokens, r.tokenHash = row.tokenHash ∧ r.scope = row.scope)
    ⟨row, List.mem_of_find?_eq_some hrow, rfl, rfl⟩
  rcases horigin with ⟨r, hr, -⟩ | ⟨k, e', hm', ⟨r, hr, hsame, hscope⟩, hnew⟩
  · cases hr
  · rcases refresh_before hr with ⟨r₀, hr₀, heq⟩ | hs
    · rw [heq] at hsame hscope
      exact absurd ⟨r₀, hr₀, hsame, hscope⟩ hnew
    · exact ⟨k, r, ⟨e', List.mem_of_mem_take hm', hs⟩, hsame.trans hhash, hscope⟩

/-! ### What is issued -/

/-- The request that issues a scope has redeemed something for it. -/
theorem issuesScope_redeemed (hc : Reachable (World.fresh now) c) (h : IssuesScope c i scope) :
    ∃ cfg request clientId userId, c.reqOf i = some ⟨cfg, .token request⟩ ∧
      Redeemed request (entriesOf (S := server) i c.trace) clientId userId scope := by
  rcases h with ⟨t, ⟨e, hm, hs⟩, rfl⟩ | ⟨t, ⟨e, hm, hs⟩, rfl⟩ <;>
  · obtain ⟨tr₁, tr₂, htr⟩ := List.append_of_mem hm
    obtain ⟨⟨cfg, endpoint⟩, hr, hcond⟩ := conducted_at hc htr
    unfold Conducted at hcond
    rw [hs] at hcond
    obtain ⟨request, userId, hep, -, hred⟩ := hcond.redeemed
    obtain rfl : endpoint = .token request := hep
    rw [htr, entriesOf_append]
    exact ⟨cfg, request, _, userId, hr, hred.mono _⟩

/-- What is issued for a code has the scope of the code. -/
theorem issuesScope_code (hc : Reachable (World.fresh now) c) (h : IssuesScope c i scope)
    {code : Str} (hp : PresentsCode c i code) {row : OidcAuthorizationCode}
    (hrow : SavesCode c k row) (hhash : row.codeHash = hashBearer code) : scope = row.scope := by
  obtain ⟨cfg, request, hreq, hgrant, hcode⟩ := hp
  obtain ⟨cfg', request', clientId, userId, hreq', hred⟩ := issuesScope_redeemed hc h
  cases hreq.symm.trans hreq'
  cases hred with
  | code code' client read ha hwon =>
    obtain rfl : code' = code := Option.some.inj (ha.presented.symm.trans hcode)
    obtain ⟨e, hm, hread⟩ := heard_mem ha.rowRead fun _ he => he
    obtain ⟨k', saved, hsaved, hhash', hscope⟩ := code_saved hc hm hread
    rw [savesCode_unique hc hrow hsaved (hhash.trans hhash'.symm)]
    exact hscope.symm
  | refresh token scope client stored ha hwon hnarrow =>
    exact absurd (ha.grant.symm.trans hgrant) (by decide)

/-- What is issued for a refresh token has the scope that the request narrows
    the scope of the token to. -/
theorem issuesScope_refresh (hc : Reachable (World.fresh now) c) (h : IssuesScope c i scope)
    {token : Str} (hp : PresentsRefresh c i token) {t : OidcRefreshToken}
    (ht : SavesRefresh c k t) (hhash : t.tokenHash = hashBearer token) :
    ∃ cfg request, c.reqOf i = some ⟨cfg, .token request⟩ ∧
      refreshedScope t request.scope = .ok scope := by
  obtain ⟨cfg, request, hreq, hgrant, htoken⟩ := hp
  obtain ⟨cfg', request', clientId, userId, hreq', hred⟩ := issuesScope_redeemed hc h
  cases hreq.symm.trans hreq'
  cases hred with
  | code code client read ha hwon => exact absurd (ha.grant.symm.trans hgrant) (by decide)
  | refresh token' scope client stored ha hwon hnarrow =>
    obtain rfl : token' = token := Option.some.inj (ha.presented.symm.trans htoken)
    obtain ⟨e, hm, hread⟩ := heard_mem ha.storedRead fun _ he => he
    obtain ⟨k', saved, hsaved, hhash', hscope⟩ := refresh_saved hc hm hread
    obtain ⟨-, rfl⟩ := savesRefresh_unique hc ht hsaved (hhash.trans hhash'.symm)
    refine ⟨cfg, request, hreq, ?_⟩
    unfold refreshedScope at hnarrow ⊢
    rwa [hscope]

omit [Platform] in
/-- A refreshed scope is a part of the one before. -/
theorem refreshedScope_subset {t : OidcRefreshToken} {requested : Option Str}
    (h : refreshedScope t requested = .ok scope) : scopeWords scope ⊆ scopeWords t.scope := by
  unfold refreshedScope at h
  cases requested with
  | none =>
    cases h
    exact fun word hword => hword
  | some requested =>
    dsimp only at h
    split at h
    · next hall =>
      cases h
      intro word hword
      simpa using List.all_eq_true.mp hall word hword
    · cases h

/-- A request issues one scope. -/
theorem issuesScope_unique (hc : Reachable (World.fresh now) c) {scope' : Str}
    (h : IssuesScope c i scope) (h' : IssuesScope c i scope') : scope = scope' := by
  obtain ⟨cfg, request, clientId, userId, hreq, hred⟩ := issuesScope_redeemed hc h
  cases hred with
  | code code client read ha hwon =>
    obtain ⟨e, hm, hread⟩ := heard_mem ha.rowRead fun _ he => he
    obtain ⟨k, saved, hsaved, hhash, hscope⟩ := code_saved hc hm hread
    rw [← hscope]
    exact (issuesScope_code hc h' ⟨cfg, request, hreq, ha.grant, ha.presented⟩ hsaved hhash).symm
  | refresh token scope client stored ha hwon hnarrow =>
    obtain ⟨e, hm, hread⟩ := heard_mem ha.storedRead fun _ he => he
    obtain ⟨k, saved, hsaved, hhash, hscope⟩ := refresh_saved hc hm hread
    have hp : PresentsRefresh c i token := ⟨cfg, request, hreq, ha.grant, ha.presented⟩
    obtain ⟨_, _, hreq₁, hok⟩ := issuesScope_refresh hc h hp hsaved hhash
    obtain ⟨_, _, hreq₂, hok'⟩ := issuesScope_refresh hc h' hp hsaved hhash
    cases hreq.symm.trans hreq₁
    cases hreq.symm.trans hreq₂
    exact Except.ok.inj (hok.symm.trans hok')

/-! ### Chains of refreshes -/

/-- One refresh issues words of what was issued before it. -/
theorem Rotates.shrinks (hc : Reachable (World.fresh now) c) (h : Rotates c i j)
    (hj : IssuesScope c j scope) :
    ∃ scope₀, IssuesScope c i scope₀ ∧ scopeWords scope ⊆ scopeWords scope₀ := by
  obtain ⟨t, token, ht, hhash, hp⟩ := h
  obtain ⟨_, _, -, hok⟩ := issuesScope_refresh hc hj hp ht hhash
  exact ⟨t.scope, .inr ⟨t, ht, rfl⟩, refreshedScope_subset hok⟩

/-- A chain of refreshes issues words of what was issued at its start. -/
theorem Descends.shrinks (hc : Reachable (World.fresh now) c) (h : Descends c i j)
    (hj : IssuesScope c j scope) :
    ∃ scope₀, IssuesScope c i scope₀ ∧ scopeWords scope ⊆ scopeWords scope₀ := by
  induction h generalizing scope with
  | refl => exact ⟨scope, hj, fun _ hword => hword⟩
  | tail _ hlast ih =>
    obtain ⟨scope₁, hissued, hsub⟩ := hlast.shrinks hc hj
    obtain ⟨scope₀, hfirst, hsub₀⟩ := ih hissued
    exact ⟨scope₀, hfirst, fun _ hword => hsub₀ (hsub hword)⟩

/-- **Scopes shrink.** In every run, under every interleaving: what a chain
    of refreshes issues has words of the code that the chain starts with, and
    words of whatever was issued earlier in the chain. -/
theorem scopes_shrink (hc : Reachable (World.fresh now) c) :
    (∀ k row code i j scope, SavesCode c k row → row.codeHash = hashBearer code →
      PresentsCode c i code → Descends c i j → IssuesScope c j scope →
        scopeWords scope ⊆ scopeWords row.scope) ∧
    ∀ i j scope₀ scope, Descends c i j → IssuesScope c i scope₀ → IssuesScope c j scope →
      scopeWords scope ⊆ scopeWords scope₀ := by
  constructor
  · intro k row code i j scope hrow hhash hp hchain hissued
    obtain ⟨scope₀, hfirst, hsub⟩ := hchain.shrinks hc hissued
    rwa [issuesScope_code hc hfirst hp hrow hhash] at hsub
  · intro i j scope₀ scope hchain hfirst hissued
    obtain ⟨scope₁, hfirst', hsub⟩ := hchain.shrinks hc hissued
    rwa [issuesScope_unique hc hfirst' hfirst] at hsub

end

end SoulAuth

namespace SoulAuth.Sample

open Framework Framework.System

/-- A client that may not have `openid`. -/
def profileClient : OidcClient where
  clientId := clientId
  clientSecretHash := []
  clientName := "app".toList
  clientType := .publicClient
  redirectUris := ["https://app.example/cb".toList]
  postLogoutRedirectUris := []
  allowedScopes := ["profile".toList]
  allowedGrantTypes := [.authorizationCode]
  allowedResponseTypes := [.code]
  requirePkce := true
  accessTokenLifetime := 3600
  refreshTokenLifetime := 86400
  idTokenLifetime := 3600
  isActive := true
  createdAt := 0
  updatedAt := 0
  createdBy := "admin".toList

/-- A blank request is granted `openid` all the same. -/
theorem resolveScope_blank : ¬ ∀ (client : OidcClient) (requested : Option Str) (scope : Str),
    resolveScope client requested = .ok scope → ScopeGranted client requested scope := by
  intro hall
  have hgranted := hall profileClient (some " ".toList) "openid".toList (by decide)
  exact absurd (hgranted.allowed "openid".toList (by decide)) (by decide)

/-- Requests 4 and 5 refresh the tokens of request 3, the first of them with a
    blank scope. -/
def refreshedTwice : List (server).Action :=
  exchanged ++
    start config (.token { rotation (numbered 't' 13) with scope := some " ".toList }) ::
      steps 4 20 ++
    start config (refresh (numbered 't' 15)) :: steps 5 20

/-- The token of an entry that saves a refresh token, and its scope. -/
def refreshSaved (x : Nat × Entry machine) : Option (Nat × Str × Str) :=
  match x.2.stmt with
  | .db (.refreshToken (.save t)) => some (x.1, t.tokenHash.of, t.scope)
  | _ => none

theorem savesRefresh_of {c : (server).Conf} {i : Nat} {token scope : Str}
    (h : (i, token, scope) ∈ c.trace.filterMap refreshSaved) :
    ∃ t, SavesRefresh c i t ∧ t.tokenHash = hashBearer token ∧ t.scope = scope := by
  obtain ⟨⟨j, e⟩, hm, he⟩ := List.mem_filterMap.mp h
  unfold refreshSaved at he
  split at he
  · next t hs =>
    cases he
    exact ⟨t, ⟨e, hm, hs⟩, rfl, rfl⟩
  · cases he

/-- What request 5 issues is no more than the blank scope of request 4. -/
theorem scopes_shrink_refreshed : ∃ scope, IssuesScope (after refreshedTwice) 5 scope ∧
    scopeWords scope ⊆ scopeWords " ".toList := by
  have hsaved : (after refreshedTwice).trace.filterMap refreshSaved =
      [(3, numbered 't' 13, "openid".toList), (4, numbered 't' 15, " ".toList),
        (5, numbered 't' 17, " ".toList)] := by decide +kernel
  obtain ⟨t, ht, hhash, hscope⟩ := savesRefresh_of
    (show (4, numbered 't' 15, " ".toList) ∈ (after refreshedTwice).trace.filterMap refreshSaved by
      rw [hsaved]
      simp)
  obtain ⟨t', ht', -, hscope'⟩ := savesRefresh_of
    (show (5, numbered 't' 17, " ".toList) ∈ (after refreshedTwice).trace.filterMap refreshSaved by
      rw [hsaved]
      simp)
  have hrotates : Rotates (after refreshedTwice) 4 5 :=
    ⟨t, numbered 't' 15, ht, hhash, config, rotation (numbered 't' 15), by decide +kernel, rfl, rfl⟩
  have hissued : IssuesScope (after refreshedTwice) 5 " ".toList := .inr ⟨t', ht', hscope'⟩
  exact ⟨_, hissued, (scopes_shrink (after_reachable _)).2 4 5 " ".toList " ".toList
    (.single hrotates) (.inr ⟨t, ht, hscope⟩) hissued⟩

end SoulAuth.Sample
