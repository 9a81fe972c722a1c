import SoulAuth.Proofs.ConductSystem

/-! # The conduct of requests that sign ID tokens

The session that an ID token names is chosen when a code is issued, and is
handed on: by the code to the first refresh token, by a refresh token to
the next one, and by either to the ID tokens signed with them.
-/

namespace SoulAuth

open Framework Framework.System

variable [Platform]

/-! ## The rule -/

/-- The request has read a code or a refresh token: of this account, with
    this reference to a session. -/
inductive Presented (h : List (Entry machine)) : (userId : Str) → (ref : Option Str) → Prop
  | code (codeHash : Hashed Str) (row : OidcAuthorizationCode)
      (read : Heard h (.code (.get codeHash)) (some row)) : Presented h row.userId row.authSessionRef
  | refresh (tokenHash : Hashed Str) (stored : OidcRefreshToken)
      (read : Heard h (.refreshToken (.get tokenHash)) (some stored)) :
      Presented h stored.userId stored.authSessionRef

/-- A new refresh token hands on what was presented. -/
def HandsOn (h : List (Entry machine)) (t : OidcRefreshToken) : Prop :=
  ∃ userId, Presented h userId t.authSessionRef ∧ t.userId = normalizeActorId userId

/-- For which account and which session a request may sign an ID token: for
    the ones that were presented. -/
def MaySign (h : List (Entry machine)) (hint : IdTokenClaims) : Prop :=
  ∃ userId ref, Presented h userId (some ref) ∧ hint.sid = Str.trim ref ∧
    ∃ u x, Heard h (.identity (.user (.findByActorOrId (ownerKey userId)))) (some u) ∧
      UserPassed h u.key x ∧ hint.sub = x.subjectKey

/-- The entry reads the time of the session, which is then the time of the
    token unless the read fails. -/
structure Times (e : Entry machine) (hint : IdTokenClaims) : Prop where
  stmt : e.stmt = .db (.session (.authenticatedAt hint.sid))
  time : ∀ t, Answered (.session (.authenticatedAt hint.sid)) (some t) e → hint.authTime = t

/-- What a request has done when it signs an ID token. Its last statement
    reads the session. -/
def SignsToken (h : List (Entry machine)) (hint : IdTokenClaims) : Prop :=
  ∃ h₁ e, h = h₁ ++ [e] ∧ MaySign h₁ hint ∧ Times e hint

/-- What holds of a statement of the rule. -/
def IdTokenConducted (h : List (Entry machine)) (e : Entry machine) : Prop :=
  match e.stmt with
  | .db (.refreshToken (.save t)) => HandsOn h t
  | .db (.session (.create s)) => s.authenticatedAt.isSome = true
  | _ => True

/-- What holds of the outcome of a request. -/
structure IdTokenConcluded (c : Call) (h : List (Entry machine)) (r : Except Failure Reply) :
    Prop where
  signs : ∀ request response hint, c.endpoint = .token request → r = .ok (.tokens response) →
    response.idToken = some hint → SignsToken h hint
  opened : ∀ token ip issued, c.endpoint = .verifyEmail token ip → r = .ok (.session issued) →
    ∃ u, SessionOpened u h issued

def idTokenRule : System.Rule server where
  assumes := fun _ => True
  entry := fun _ => IdTokenConducted
  outcome := IdTokenConcluded

/-! ## Every session keeps its time -/

section

variable {ε α β : Type}

/-- A statement that creates no session without the time of its
    authentication, and saves no refresh token. -/
def Stmt.Dates (s : Stmt) : Prop :=
  (∀ row, s = .db (.session (.create row)) → row.authenticatedAt.isSome = true) ∧
    s.effect ≠ some .saveRefresh

theorem dates_of_within {L : List Effect} {p : Req ε α} (hp : Within L p)
    (hL : .createSession ∉ L ∧ .saveRefresh ∉ L) : Prog.Only Stmt.Dates p := by
  apply Prog.Only.mono hp
  intro s hs
  constructor
  · intro row hrow
    subst hrow
    exact absurd (hs .createSession rfl) hL.1
  · intro hsave
    exact hL.2 (hs _ hsave)

theorem createSession_dates {cfg : Config} {u : User} {methods : List AuthenticationMethod}
    {refs : List Str} : Prog.Only Stmt.Dates (createSession cfg u methods refs) := by
  apply Prog.Only.bind (dates_of_within within_getNow (L := []) (by decide))
  intro now
  apply Prog.Only.bind (dates_of_within within_newUuid (L := []) (by decide))
  intro key
  apply Prog.Only.bind Prog.only_orThrow
  intro actorKey
  apply Prog.Only.bind _ fun _ => dates_of_within (.bind hasPassword_within fun _ => within_pure)
    (L := []) (by decide)
  constructor
  · constructor
    · intro row hrow
      cases hrow
      rfl
    · nofun
  · intro r
    cases r <;> trivial

theorem register_dates {cfg : Config} {req : CreateUserRequest} {ip : Str} :
    Prog.Only Stmt.Dates (register cfg req ip) := by
  have hskip : ∀ {α : Type} {p : Req AuthError α}, Within [.createHuman, .updateUser] p →
      Prog.Only Stmt.Dates p := fun hp => dates_of_within hp (by decide)
  apply Prog.Only.bind (hskip within_ofExcept)
  intro email
  apply Prog.Only.bind (hskip within_ofExcept)
  intro _
  apply Prog.Only.bind Prog.only_orThrow
  intro submitted
  apply Prog.Only.bind (hskip within_ofExcept)
  intro username
  apply Prog.Only.bind (hskip findUserByEmail_within)
  intro existing
  apply Prog.Only.bind Prog.only_ensure
  intro _
  apply Prog.Only.bind (hskip ensureUsernameAvailable_within)
  intro normalized
  apply Prog.Only.bind (hskip within_hashPassword)
  intro hash
  apply Prog.Only.bind (hskip within_getNow)
  intro now
  apply Prog.Only.bind (hskip drawVerificationToken_within)
  intro verification
  apply Prog.Only.bind (hskip (.mapError (createHumanAggregate_within (by simp))))
  intro keys
  apply Prog.Only.bind (hskip findUserById_within)
  intro found
  apply Prog.Only.bind Prog.only_orThrow
  intro created
  split
  · trivial
  · apply Prog.Only.bind (hskip (touchLastLogin_within (by simp)))
    intro created
    apply Prog.Only.bind (hskip passwordRefOf_within)
    intro ref
    exact .bind createSession_dates fun _ => trivial

theorem login_dates {cfg : Config} {email password ip : Str} :
    Prog.Only Stmt.Dates (login cfg email password ip) := by
  have hskip : ∀ {α : Type} {p : Req AuthError α}, Within [.updateUser] p →
      Prog.Only Stmt.Dates p := fun hp => dates_of_within hp (by decide)
  have hverified : ∀ u credential, Prog.Only Stmt.Dates (loginVerified cfg u credential ip) := by
    intro u credential
    apply Prog.Only.bind Prog.only_ensure
    intro _
    apply Prog.Only.bind (hskip authenticableActorOfUser_within)
    intro actor
    apply Prog.Only.bind (hskip within_ofExcept)
    intro _
    apply Prog.Only.bind Prog.only_ensure
    intro _
    apply Prog.Only.bind (hskip enabledMethod_within)
    intro method
    split
    · exact hskip (.bind createMfaChallengeToken_within fun _ => within_pure)
    · apply Prog.Only.bind (hskip (touchLastLogin_within (by simp)))
      intro u'
      exact .bind createSession_dates fun _ => trivial
  apply Prog.Only.bind (hskip within_ofExcept)
  intro email
  apply Prog.Only.bind (hskip findUserByEmail_within)
  intro found
  apply Prog.Only.bind (hskip probeActor_within)
  intro actorKey
  apply Prog.Only.bind (hskip activePassword_within)
  intro stored
  split
  · apply Prog.Only.bind Prog.only_orThrow
    intro hash
    exact .bind (hskip within_verifyPassword) fun _ => hverified _ _
  · exact hskip (.bind (.swallow within_verifyPassword) fun _ => within_throw)

theorem mfaLoginVerify_dates {cfg : Config} {challenge : MfaChallengeClaims}
    {factor : SecondFactor} {ip : Str} :
    Prog.Only Stmt.Dates (mfaLoginVerify cfg challenge factor ip) := by
  have hskip : ∀ {α : Type} {p : Req AuthError α},
      Within [.writeLockout, .writeMfa, .updateUser] p → Prog.Only Stmt.Dates p :=
    fun hp => dates_of_within hp (by decide)
  have hverify : Within [.writeLockout, .writeMfa, .updateUser]
      (verifySecondFactor cfg challenge.sub factor) := by
    cases factor with
    | totp code => exact .bind (verifyTotp_within (by simp)) fun _ => within_pure
    | backupCode code => exact .bind (useBackupCode_within (by simp)) fun _ => within_pure
    | none => exact within_throw
  apply Prog.Only.bind (hskip (.bind within_getNow fun _ => within_ensure))
  intro _
  apply Prog.Only.bind (hskip (ensureNotLockedOut_within (by simp)))
  intro _
  apply Prog.Only.bind (hskip (.mapError hverify))
  intro verified
  apply Prog.Only.bind Prog.only_ensure
  intro _
  apply Prog.Only.bind (hskip findUserById_within)
  intro found
  apply Prog.Only.bind Prog.only_orThrow
  intro user
  apply Prog.Only.bind (hskip authenticableActorOfUser_within)
  intro actor
  apply Prog.Only.bind (hskip within_ofExcept)
  intro _
  apply Prog.Only.bind (hskip (touchLastLogin_within (by simp)))
  intro user
  exact .bind (hskip passwordRefOf_within) fun _ => createSession_dates

theorem handleOauthCallback_dates {cfg : Config} {info : OAuthUserInfo} {ip : Str} :
    Prog.Only Stmt.Dates (handleOauthCallback cfg info ip) := by
  have hskip : ∀ {α : Type} {p : Req AuthError α}, Within [.createHuman, .updateUser] p →
      Prog.Only Stmt.Dates p := fun hp => dates_of_within hp (by decide)
  apply Prog.Only.bind (hskip (findOrCreateOauthUser_within (by simp)))
  intro user
  apply Prog.Only.bind (hskip authenticableActorOfUser_within)
  intro actor
  exact .bind (hskip (touchLastLogin_within (by simp))) fun _ => createSession_dates

theorem verifyEmail_dates {cfg : Config} {token ip : Str} :
    Prog.Only Stmt.Dates (verifyEmail cfg token ip) := by
  have hskip : ∀ {α : Type} {p : Req AuthError α}, Within [.claimVerification, .updateUser] p →
      Prog.Only Stmt.Dates p := fun hp => dates_of_within hp (by decide)
  apply Prog.Only.bind (hskip within_getNow)
  intro now
  apply Prog.Only.bind (hskip (within_write rfl (by simp)))
  intro claimed
  split
  · apply Prog.Only.bind (hskip findUserById_within)
    intro found
    apply Prog.Only.bind Prog.only_orThrow
    intro user
    exact .bind (hskip (touchLastLogin_within (by simp))) fun _ => createSession_dates
  · trivial

theorem authenticateAiActor_dates {cfg : Config} {proof : AiActorProof} :
    Prog.Only Stmt.Dates (authenticateAiActor cfg proof) := by
  have hskip : ∀ {α : Type} {p : Req AuthError α},
      Within [.consumeChallenge, .writeAiCredential] p → Prog.Only Stmt.Dates p :=
    fun hp => dates_of_within hp (by decide)
  apply Prog.Only.bind Prog.only_ensure
  intro _
  apply Prog.Only.bind (hskip within_ofExcept)
  intro _
  apply Prog.Only.bind (hskip within_getNow)
  intro now
  apply Prog.Only.bind (hskip (within_write rfl (by simp)))
  intro consumed
  apply Prog.Only.bind Prog.only_ensure
  intro _
  apply Prog.Only.bind (hskip (.mapError requireAiActor_within))
  intro actor
  apply Prog.Only.bind Prog.only_ensure
  intro _
  apply Prog.Only.bind (hskip (within_read rfl))
  intro credentials
  apply Prog.Only.bind Prog.only_orThrow
  intro credential
  apply Prog.Only.bind (hskip within_getNow)
  intro touchedAt
  apply Prog.Only.bind (hskip (.swallow (within_write rfl (by simp))))
  intro _
  apply Prog.Only.bind (hskip within_getNow)
  intro now
  apply Prog.Only.bind (hskip within_newUuid)
  intro key
  apply Prog.Only.bind _ fun _ => Prog.only_done
  constructor
  · constructor
    · intro row hrow
      cases hrow
      rfl
    · nofun
  · intro r
    cases r <;> trivial

end

/-! ## Following the token endpoint -/

section

variable {c : Call} {h : List (Entry machine)} {ε α β : Type} {cfg : Config}
  {client : OidcClient} {userId scope : Str} {nonce : Option Str} {ref : Option Str} {u : User}

/-- A program under the rule of ID tokens. -/
abbrev IdTokenFollows {ε α : Type} (Q : List (Entry machine) → Except ε α → Prop)
    (h : List (Entry machine)) (p : Req ε α) : Prop :=
  p.Meets (fun _ => True) (fun h' e => IdTokenConducted h' e) Q h

theorem idTokenConducted_of_dates {e : Entry machine} (he : e.stmt.Dates) :
    IdTokenConducted h e := by
  obtain ⟨ctx, s, w⟩ := e
  unfold IdTokenConducted
  split
  · next hs =>
    cases hs
    exact absurd rfl he.2
  · next hs => exact he.1 _ hs
  · trivial

/-- A part of a program without the statements of the rule. -/
theorem idTokenSkip_bind {p : Req ε α} {f : α → Req ε β}
    {Q : List (Entry machine) → Except ε β → Prop} {L : List Effect} (hp : Within L p)
    (hL : .createSession ∉ L ∧ .saveRefresh ∉ L)
    (hok : ∀ t a, IdTokenFollows Q (h ++ t) (f a)) (herr : ∀ t x, Q (h ++ t) (.error x)) :
    IdTokenFollows Q h (p >>= f) :=
  meets_skip_bind (dates_of_within hp hL) (fun _ _ _ he => idTokenConducted_of_dates he)
    (fun t a _ => hok t a) fun t x _ => herr t x

theorem Presented.mono (hp : Presented h userId ref) (t : List (Entry machine)) :
    Presented (h ++ t) userId ref := by
  cases hp with
  | code codeHash row read => exact .code codeHash row (read.mono t)
  | refresh tokenHash stored read => exact .refresh tokenHash stored (read.mono t)

/-- The gate of the subject, which reads only. -/
theorem stableSubjectOfUser_passed (c : Call) {user : User} :
    IdTokenFollows (Ends fun h' subject => ∃ x, UserPassed h' user.key x ∧ subject = x.subjectKey)
      h (stableSubjectOfUser user) := by
  have hdates : Prog.Only Stmt.Dates (stableSubjectOfUser user) :=
    dates_of_within (.bind (.mapError authenticableActorOfUser_within) fun _ => within_pure)
      (L := []) (by decide)
  have hpassed : Ending (fun h' subject => ∃ x, UserPassed h' user.key x ∧
      subject = x.subjectKey) h (stableSubjectOfUser user) := by
    apply Prog.Meets.bind (P := Ends fun h' a => UserPassed h' user.key a.actor)
    · apply ending_mapError
      apply ending_of_follows (c := c)
      exact ends_mono authenticableActorOfUser_follows fun t a ha => ha.1
    · intro t a ha
      exact ⟨a.actor, ha, rfl⟩
    · intro t x _
      trivial
  apply (hpassed.only hdates).weaken (fun _ hw => hw)
  · intro t e _ he
    exact idTokenConducted_of_dates he.2
  · intro t r hr
    exact hr

/-- The time of a session is read by one entry, whatever its outcome. -/
def ReadsTime (h : List (Entry machine)) (sid : Str) (h' : List (Entry machine))
    (found : Except OidcError (Option Timestamp)) : Prop :=
  ∃ e, h' = h ++ [e] ∧ e.stmt = .db (.session (.authenticatedAt sid)) ∧
    ∀ t, Answered (.session (.authenticatedAt sid)) (some t) e → found = .ok (some t)

theorem authenticatedAtOfSession_reads {sid : Str} :
    IdTokenFollows (ReadsTime h sid) h (authenticatedAtOfSession sid) := by
  unfold authenticatedAtOfSession
  rw [← Prog.bind_pure' (query _)]
  apply meets_query_failing_bind (fun _ _ _ => trivial)
  · intro e found _ he
    refine ⟨e, rfl, he.stmt, fun t ht => ?_⟩
    cases he.reply.symm.trans ht.reply
    rfl
  · intro e x hs hnone
    exact ⟨e, rfl, hs, fun t ht => absurd ht (hnone _)⟩

theorem generateIdToken_signs (hp : Presented h userId ref)
    (hu : Heard h (.identity (.user (.findByActorOrId (ownerKey userId)))) (some u)) :
    IdTokenFollows (Ends SignsToken) h (generateIdToken cfg client u nonce ref scope) := by
  apply meets_orThrow_bind _ fun _ => trivial
  intro sid hsid
  obtain ⟨hsid, -⟩ := Option.filter_eq_some_iff.mp hsid
  obtain ⟨session, rfl, rfl⟩ := Option.map_eq_some_iff.mp hsid
  apply idTokenSkip_bind within_getNow (L := []) (by decide) _ fun _ _ => trivial
  intro t₁ now
  apply (stableSubjectOfUser_passed ⟨cfg, .cleanupOidcArtifacts⟩).bind
  · intro t₂ subject hsubject
    obtain ⟨x, hpassed, rfl⟩ := hsubject
    have hp₂ := (hp.mono t₁).mono t₂
    have hu₂ := (hu.mono t₁).mono t₂
    generalize h ++ t₁ ++ t₂ = h₂ at hp₂ hu₂ hpassed
    -- the time of the session is read last; its failure is no failure of the request
    have hread : IdTokenFollows (fun h' (r : Except OidcError _) =>
        ∃ found, r = .ok found ∧ ReadsTime h₂ (Str.trim session) h' found) h₂
        (authenticatedAtOfSession (Str.trim session)).attempt :=
      authenticatedAtOfSession_reads.attempt fun _ found hf => ⟨found, rfl, hf⟩
    apply hread.bind
    · intro t₃ found hfound
      obtain ⟨found', hsame, e, heq, hs, ht⟩ := hfound
      obtain rfl : found = found' := Except.ok.inj hsame
      rw [heq]
      refine ⟨h₂, e, rfl, ⟨userId, session, hp₂, rfl, u, x, hu₂, hpassed, rfl⟩, hs,
        fun t hanswered => ?_⟩
      rw [ht t hanswered]
      rfl
    · intro t₃ x' hx
      obtain ⟨found, hsame, -⟩ := hx
      cases hsame
  · intro t₂ x _
    trivial

/-- What holds of the response of a token request. -/
def SignsAll (h : List (Entry machine)) (response : TokenResponse) : Prop :=
  ∀ hint, response.idToken = some hint → SignsToken h hint

theorem generateTokens_signs (hp : Presented h userId ref) :
    IdTokenFollows (Ends SignsAll) h (generateTokens cfg client userId scope nonce ref) := by
  apply idTokenSkip_bind within_getNow (L := []) (by decide) _ fun _ _ => trivial
  intro t₁ now
  have hload : IdTokenFollows (Ends fun h' u =>
      Heard h' (.identity (.user (.findByActorOrId (ownerKey userId)))) (some u)) (h ++ t₁)
      (withContext "refusing to issue tokens" (loadActiveUser userId)) := by
    apply Prog.Meets.mapError (P := Ends fun h' u =>
      Heard h' (.identity (.user (.findByActorOrId (ownerKey userId)))) (some u)) _
      (fun _ _ hu => hu) fun _ _ _ => trivial
    unfold loadActiveUser getUserById
    rw [Prog.bind_assoc']
    apply meets_query_bind (fun _ _ _ => trivial) _ fun _ _ _ => trivial
    intro e found _ he
    apply meets_orThrow_bind _ fun _ => trivial
    intro u hu
    subst hu
    apply idTokenSkip_bind (.mapError authenticableActorOfUser_within) (L := []) (by decide) _
      fun _ _ => trivial
    intro t₂ _
    apply meets_ofExcept_bind _ fun _ _ => trivial
    intro _ _
    exact he.heard.mono t₂
  apply hload.bind _ fun _ _ _ => trivial
  intro t₂ u hu
  have hp₂ := (hp.mono t₁).mono t₂
  generalize h ++ t₁ ++ t₂ = h₂ at hp₂ hu
  apply idTokenSkip_bind within_newSecureToken (L := []) (by decide) _ fun _ _ => trivial
  intro t₃ accessToken
  apply idTokenSkip_bind (.mapError (within_write rfl (List.mem_singleton_self _)))
    (L := [.saveAccess]) (by decide) _ fun _ _ => trivial
  intro t₄ _
  have hp₄ := (hp₂.mono t₃).mono t₄
  have hu₄ := (hu.mono t₃).mono t₄
  generalize h₂ ++ t₃ ++ t₄ = h₄ at hp₄ hu₄
  have hrefresh : IdTokenFollows (fun _ _ => True) h₄
      (issueRefreshToken client userId scope accessToken ref now) := by
    unfold issueRefreshToken
    split
    · apply idTokenSkip_bind within_newSecureToken (L := []) (by decide) _ fun _ _ => trivial
      intro t₅ token
      have hsave : IdTokenFollows (fun _ _ => True) (h₄ ++ t₅)
          (saveRefreshToken
            { tokenHash := hashBearer token, clientId := client.clientId, userId := userId,
              accessTokenHash := hashBearer accessToken, scope := scope, authSessionRef := ref,
              used := false, expiresAt := now + client.refreshTokenLifetime, createdAt := now }) := by
        apply meets_query _ (fun _ _ _ _ => trivial) fun _ _ _ => trivial
        intro ctx w _
        exact ⟨userId, hp₄.mono t₅, rfl⟩
      apply Prog.Meets.bind (P := fun _ _ => True) _ _ fun _ _ _ => trivial
      · exact Prog.Meets.mapError hsave (fun _ _ _ => trivial) fun _ _ _ => trivial
      · intro _ _ _
        trivial
    · trivial
  apply hrefresh.bind _ fun _ _ _ => trivial
  intro t₅ refreshToken _
  have hp₅ := hp₄.mono t₅
  have hu₅ := hu₄.mono t₅
  generalize h₄ ++ t₅ = h₅ at hp₅ hu₅
  have hid : IdTokenFollows (Ends fun h' idToken =>
      ∀ hint, idToken = some hint → SignsToken h' hint) h₅
      (issueIdToken cfg client u nonce ref scope) := by
    unfold issueIdToken
    split
    · apply (generateIdToken_signs hp₅ hu₅).bind _ fun _ _ _ => trivial
      intro t₆ claims hclaims hint heq
      cases heq
      exact hclaims
    · nofun
  apply hid.bind _ fun _ _ _ => trivial
  intro t₆ idToken hidToken
  exact hidToken

theorem handleAuthorizationCodeGrant_signs {request : TokenRequest} :
    IdTokenFollows (Ends SignsAll) [] (handleAuthorizationCodeGrant cfg request) := by
  apply meets_orThrow_bind _ fun _ => trivial
  intro code _
  apply meets_orThrow_bind _ fun _ => trivial
  intro redirectUri _
  apply idTokenSkip_bind authenticateClient_within (L := []) (by decide) _ fun _ _ => trivial
  intro t₁ client
  apply meets_ensure_bind _ fun _ => trivial
  intro _
  have hread : IdTokenFollows (Ends fun h' (row : OidcAuthorizationCode) =>
      Presented h' row.userId row.authSessionRef) ([] ++ t₁)
      (withContext "get authorization code failed" (getAuthorizationCode code)) := by
    apply Prog.Meets.mapError (P := Ends fun h' (row : OidcAuthorizationCode) =>
      Presented h' row.userId row.authSessionRef) _ (fun _ _ hr => hr) fun _ _ _ => trivial
    apply meets_query_bind (fun _ _ _ => trivial) _ fun _ _ _ => trivial
    intro e found _ he
    cases found with
    | none => trivial
    | some row => exact .code _ row he.heard
  apply hread.bind _ fun _ _ _ => trivial
  intro t₂ row hrow
  apply idTokenSkip_bind within_getNow (L := []) (by decide) _ fun _ _ => trivial
  intro t₃ now
  apply meets_ofExcept_bind _ fun _ _ => trivial
  intro _ _
  apply idTokenSkip_bind (L := [.consumeCode]) (.mapError (.bind (within_write rfl (by simp))
    fun _ => within_ensure)) (by decide) _ fun _ _ => trivial
  intro t₄ _
  have hp := (hrow.mono t₃).mono t₄
  exact Prog.Meets.mapError (generateTokens_signs hp) (fun _ _ hr => hr) fun _ _ _ => trivial

theorem handleRefreshTokenGrant_signs {request : TokenRequest} :
    IdTokenFollows (Ends SignsAll) [] (handleRefreshTokenGrant cfg request) := by
  apply meets_orThrow_bind _ fun _ => trivial
  intro token _
  apply idTokenSkip_bind authenticateClient_within (L := []) (by decide) _ fun _ _ => trivial
  intro t₁ client
  apply meets_ensure_bind _ fun _ => trivial
  intro _
  unfold getRefreshToken
  rw [Prog.bind_assoc']
  apply meets_query_bind (fun _ _ _ => trivial) _ fun _ _ _ => trivial
  intro e found _ he
  apply meets_orThrow_bind _ fun _ => trivial
  intro stored hstored
  subst hstored
  have hp : Presented ([] ++ t₁ ++ [e]) stored.userId stored.authSessionRef :=
    .refresh _ stored he.heard
  apply meets_ensure_bind _ fun _ => trivial
  intro _
  apply idTokenSkip_bind within_getNow (L := []) (by decide) _ fun _ _ => trivial
  intro t₂ now
  apply meets_ensure_bind _ fun _ => trivial
  intro _
  split
  · apply idTokenSkip_bind (revokeClientTokensForUser_within (L := [.deleteAccess, .deleteRefresh])
      (by simp) (by simp)) (by decide) _ fun _ _ => trivial
    intro t₃ _
    trivial
  · apply idTokenSkip_bind (L := [.consumeRefresh]) (.bind (within_write rfl (by simp))
      fun _ => within_pure) (by decide) _ fun _ _ => trivial
    intro t₃ consumed
    apply meets_ensure_bind _ fun _ => trivial
    intro _
    apply idTokenSkip_bind (L := [.deleteAccess]) (within_write rfl (by simp)) (by decide) _
      fun _ _ => trivial
    intro t₄ _
    apply meets_ofExcept_bind _ fun _ _ => trivial
    intro scope _
    exact generateTokens_signs (((hp.mono t₂).mono t₃).mono t₄)

/-! ## Every request -/

/-- A request that signs no ID token and verifies no email address. -/
theorem idTokenConcluded_of_other {r : Except Failure Reply}
    (htoken : ∀ request, c.endpoint ≠ .token request)
    (hverify : ∀ token ip, c.endpoint ≠ .verifyEmail token ip) : IdTokenConcluded c h r := by
  constructor
  · intro request response hint hep
    exact absurd hep (htoken request)
  · intro token ip issued hep
    exact absurd hep (hverify token ip)

theorem idTokenRule_met : idTokenRule.Met := by
  intro c
  obtain ⟨cfg, endpoint⟩ := c
  show IdTokenFollows (IdTokenConcluded ⟨cfg, endpoint⟩) [] (endpoint.program cfg)
  have hother : (∀ request, endpoint ≠ .token request) →
      (∀ token ip, endpoint ≠ .verifyEmail token ip) →
      Prog.Only Stmt.Dates (endpoint.program cfg) →
      IdTokenFollows (IdTokenConcluded ⟨cfg, endpoint⟩) [] (endpoint.program cfg) := by
    intro htoken hverify hdates
    apply hdates.meets (fun _ _ _ he => idTokenConducted_of_dates he)
    intro t r _
    exact idTokenConcluded_of_other htoken hverify
  have hquiet : .createSession ∉ endpoint.effects ∧ .saveRefresh ∉ endpoint.effects →
      Prog.Only Stmt.Dates (endpoint.program cfg) :=
    fun hL => dates_of_within (Call.within ⟨cfg, endpoint⟩) hL
  have hcookie : ∀ {p : Req AuthError IssuedSession}, Prog.Only Stmt.Dates p →
      Prog.Only Stmt.Dates (respondLogin p) := fun hp =>
    .bind (.mapError (.bind hp fun _ => .bind (dates_of_within within_getNow (L := []) (by decide))
      fun _ => trivial)) fun _ => trivial
  cases endpoint with
  | token request =>
    have hsigns : IdTokenFollows (Ends SignsAll) [] (exchangeCodeForTokens cfg request) := by
      unfold exchangeCodeForTokens
      split
      · exact handleAuthorizationCodeGrant_signs
      split
      · exact handleRefreshTokenGrant_signs
      · trivial
    show IdTokenFollows _ [] (respondOidc Reply.tokens (exchangeCodeForTokens cfg request))
    apply Prog.Meets.bind (P := Ends SignsAll)
    · exact Prog.Meets.mapError hsigns (fun _ _ hr => hr) fun _ _ _ => trivial
    · intro t response hresponse
      constructor
      · intro request' response' hint hep hr hhint
        cases hr
        exact hresponse hint hhint
      · intro token ip issued hep
        cases hep
    · intro t x _
      constructor
      · intro request' response hint hep hr
        cases hr
      · intro token ip issued hep
        cases hep
  | verifyEmail token ip =>
    have hopened : Ending (fun h' issued => ∃ u, SessionOpened u h' issued) []
        (verifyEmail cfg token ip) := ending_of_follows verifyEmail_follows
    have hfollows : IdTokenFollows (Ends fun h' issued => ∃ u, SessionOpened u h' issued) []
        (verifyEmail cfg token ip) := by
      apply (hopened.only verifyEmail_dates).weaken (fun _ hw => hw)
      · intro t e _ he
        exact idTokenConducted_of_dates he.2
      · intro t r hr
        exact hr
    show IdTokenFollows _ [] (respond Reply.session (verifyEmail cfg token ip))
    apply Prog.Meets.bind (P := Ends fun h' issued => ∃ u, SessionOpened u h' issued)
    · exact Prog.Meets.mapError hfollows (fun _ _ hr => hr) fun _ _ _ => trivial
    · intro t issued hissued
      constructor
      · intro request response hint hep
        cases hep
      · intro token' ip' issued' hep hr
        cases hr
        exact hissued
    · intro t x _
      constructor
      · intro request response hint hep
        cases hep
      · intro token' ip' issued hep hr
        cases hr
  | register req ip =>
    exact hother (by simp) (by simp) (.bind (.mapError register_dates) fun _ => trivial)
  | login email password ip =>
    apply hother (by simp) (by simp)
    apply Prog.Only.bind (.mapError _) fun _ => Prog.only_done
    apply Prog.Only.bind (.bind (dates_of_within (ensureNotLockedOut_within
      (L := [.writeLockout]) (by simp)) (by decide)) fun _ => .mapError login_dates)
    intro outcome
    split
    · exact .bind (.bind (dates_of_within within_getNow (L := []) (by decide)) fun _ => trivial)
        fun _ => trivial
    · trivial
  | mfaLoginVerify challenge factor ip =>
    exact hother (by simp) (by simp) (hcookie mfaLoginVerify_dates)
  | oauthCallback info ip =>
    exact hother (by simp) (by simp) (hcookie handleOauthCallback_dates)
  | authenticateAiActor proof =>
    exact hother (by simp) (by simp) (.bind (.mapError authenticateAiActor_dates) fun _ => trivial)
  | _ => exact hother (by simp) (by simp) (hquiet (by simp [Endpoint.effects]))

theorem idTokenRule_holds {w : World} {conf : (server).Conf} (hc : Reachable w conf) :
    idTokenRule.Inv conf :=
  hc.rule idTokenRule_met fun _ => trivial

/-- What the rule says of an entry, wherever it stands in the trace. -/
theorem idTokenConducted_at {w : World} {conf : (server).Conf} (hc : Reachable w conf) {i : Nat}
    {e : Entry machine} {tr₁ tr₂ : List (Nat × Entry machine)}
    (htr : conf.trace = tr₁ ++ (i, e) :: tr₂) :
    IdTokenConducted (entriesOf (S := server) i tr₁) e := by
  obtain ⟨r, -, hconduct⟩ := (idTokenRule_holds hc).entries tr₁ i e tr₂ htr
  exact hconduct

end

end SoulAuth
