import SoulAuth.Proofs.AiAuthentication
import SoulAuth.Proofs.Artefacts
import SoulAuth.Proofs.ExternalLogins
import SoulAuth.Proofs.MfaEnrolment

/-! # What a session says of the authentication of its owner

A session row lists the methods by which its owner was authenticated, and
the tokens that are issued for the session repeat the list. This file shows
that the list is true: every method on it has been carried out, for the
owner of the session, by the request that created the row; and that the
password of an account with an enabled second factor is not enough.
-/

namespace SoulAuth

open Framework Framework.System

/-- The method of a second factor. -/
def SecondFactor.method : SecondFactor → Option AuthenticationMethod
  | totp _ => some .totp
  | backupCode _ => some .backupCode
  | none => Option.none

section

variable [Platform]

/-! ## The rule -/

/-- The password was verified against the active credential of this actor. -/
structure PasswordProved (h : List (Entry machine)) (actorKey password : Str) : Prop where
  credential : ∃ credential hash,
    Heard h (.identity (.credential (.findPassword actorKey))) (some credential) ∧
    credential.isUsable = true ∧ credential.secretHash = some hash ∧
    (∃ e ∈ h, e.stmt = .verifyPassword hash password) ∧
    Platform.argon2Verify hash password = true

/-- The actor whose credential a login looks up: the one of the account, or a
    new key, if the account has none. -/
def Probed (h : List (Entry machine)) (u : User) (actorKey : Str) : Prop :=
  u.subjectId = some actorKey ∨ u.subjectId = none ∧ actorKey ∈ uuidsOf h

/-- The account that belongs to the submitted address, with its password
    verified. -/
structure LoginProved (h : List (Entry machine)) (submitted password : Str) (u : User) :
    Prop where
  found : ∃ email, validateEmail submitted = .ok email ∧
    Heard h (.identity (.user (.findByEmail email))) (some u)
  proved : ∃ a, Probed h u a ∧ PasswordProved h a password

/-- The record of the second factor was read, and there was no enabled one. -/
def NoFactor (h : List (Entry machine)) (userId : Str) : Prop :=
  ∃ e ∈ h, e.stmt = .db (.mfa (.get userId)) ∧ e.ctx.fault = none ∧
    ¬ FactorEnabled userId e.before.db.mfa

/-- The account that a registration has created, with the password that was
    submitted. -/
def Registers (h : List (Entry machine)) (password : Str) (u : User) : Prop :=
  ∃ (a : HumanAggregate) (credential : Credential) (hash : Str),
    Heard h (.identity (.createHuman a)) () ∧
    Heard h (.identity (.user (.findById (idArgumentKey (userAddress a.user.key))))) (some u) ∧
    a.credential = some credential ∧ credential.secretHash = some hash ∧
    Platform.argon2Verify hash password = true

/-- How the request has authenticated the owner of the session that it is
    about to create. -/
inductive Attests (c : Call) (h : List (Entry machine)) (s : Session) : Prop
  | registered (req : CreateUserRequest) (ip : Str) (u : User)
      (endpoint : c.endpoint = .register req ip) (methods : s.methods = [.password])
      (owner : u.subjectId = some s.userId) (proved : Registers h req.password u)
  | password (email password ip : Str) (u : User)
      (endpoint : c.endpoint = .login email password ip) (methods : s.methods = [.password])
      (owner : u.subjectId = some s.userId) (proved : LoginProved h email password u)
      (single : NoFactor h u.key)
  | secondFactor (challenge : MfaChallengeClaims) (factor : SecondFactor) (ip : Str)
      (method : AuthenticationMethod) (u : User)
      (endpoint : c.endpoint = .mfaLoginVerify challenge factor ip)
      (methods : s.methods = [.password, method]) (names : factor.method = some method)
      (found : Heard h (.identity (.user (.findById (idArgumentKey challenge.sub)))) (some u))
      (owner : u.subjectId = some s.userId) (proved : FactorVerified h challenge.sub factor)
      (inTime : ∃ now, (∃ e ∈ h, SawTime now e) ∧ ¬ challenge.exp < now - 60)
  | externalIdentity (info : OAuthUserInfo) (ip : Str) (u : User)
      (endpoint : c.endpoint = .oauthCallback info ip)
      (methods : s.methods = [.externalIdentity]) (owner : u.subjectId = some s.userId)
      (proved : Resolves info h u)
  | emailLink (token ip key : Str) (now : Timestamp) (u : User)
      (endpoint : c.endpoint = .verifyEmail token ip) (methods : s.methods = [.emailLink])
      (owner : u.subjectId = some s.userId)
      (claimed : Heard h (.identity (.user (.claimVerification (hashBearer token) now))) [key])
      (found : Heard h (.identity (.user (.findById (idArgumentKey (userAddress key))))) (some u))
  | aiKey (proof : AiActorProof) (endpoint : c.endpoint = .authenticateAiActor proof)
      (methods : s.methods = [.ed25519Key]) (proved : OpensAi c.cfg proof h s)

/-- What holds of a statement of the rule. -/
def MethodsConducted (c : Call) (h : List (Entry machine)) (e : Entry machine) : Prop :=
  match e.stmt with
  | .db (.session (.create s)) => Attests c h s
  | _ => True

/-- A login that ends with a challenge has verified the password of the
    account that the challenge names. -/
def MethodsConcluded (c : Call) (h : List (Entry machine)) (r : Except Failure Reply) : Prop :=
  ∀ challenge method, r = .ok (.mfaRequired challenge method) →
    ∃ email password ip u, c.endpoint = .login email password ip ∧ challenge.sub = u.key ∧
      LoginProved h email password u

def methodsRule : System.Rule server where
  assumes := fun _ => True
  entry := MethodsConducted
  outcome := MethodsConcluded

/-! ## Evidence stays -/

section

variable {c : Call} {h : List (Entry machine)} {ε α β : Type} {cfg : Config} {u : User}

theorem PasswordProved.mono {actorKey password : Str} (hp : PasswordProved h actorKey password)
    (t : List (Entry machine)) : PasswordProved (h ++ t) actorKey password := by
  obtain ⟨credential, hash, hheard, husable, hsecret, ⟨e, he, hstmt⟩, hverify⟩ := hp.credential
  exact ⟨credential, hash, hheard.mono t, husable, hsecret,
    ⟨e, List.mem_append_left t he, hstmt⟩, hverify⟩

theorem Probed.mono {a : Str} (hp : Probed h u a) (t : List (Entry machine)) :
    Probed (h ++ t) u a := by
  rcases hp with ha | ⟨hnone, hdrawn⟩
  · exact .inl ha
  · refine .inr ⟨hnone, ?_⟩
    rw [uuidsOf_append]
    exact List.mem_append_left _ hdrawn

theorem LoginProved.mono {email password : Str} (hp : LoginProved h email password u)
    (t : List (Entry machine)) : LoginProved (h ++ t) email password u := by
  obtain ⟨address, hvalid, hheard⟩ := hp.found
  obtain ⟨a, hprobed, hproved⟩ := hp.proved
  exact ⟨⟨address, hvalid, hheard.mono t⟩, a, hprobed.mono t, hproved.mono t⟩

/-- If the account has an actor, its password was verified. -/
theorem LoginProved.of_subject {email password a : Str} (hp : LoginProved h email password u)
    (ha : u.subjectId = some a) : PasswordProved h a password := by
  obtain ⟨b, hb | ⟨hnone, -⟩, hproved⟩ := hp.proved
  · obtain rfl : a = b := Option.some.inj (ha.symm.trans hb)
    exact hproved
  · cases ha.symm.trans hnone

theorem NoFactor.mono {userId : Str} (hn : NoFactor h userId) (t : List (Entry machine)) :
    NoFactor (h ++ t) userId := by
  obtain ⟨e, he, hrest⟩ := hn
  exact ⟨e, List.mem_append_left t he, hrest⟩

theorem Registers.mono {password : Str} (hr : Registers h password u)
    (t : List (Entry machine)) : Registers (h ++ t) password u := by
  obtain ⟨a, credential, hash, hcreated, hfound, hrest⟩ := hr
  exact ⟨a, credential, hash, hcreated.mono t, hfound.mono t, hrest⟩

/-! ## Following the programs -/

/-- A program under the rule of one request. -/
abbrev MethodsFollow {ε α : Type} (c : Call) (Q : List (Entry machine) → Except ε α → Prop)
    (h : List (Entry machine)) (p : Req ε α) : Prop :=
  p.Meets (fun _ => True) (MethodsConducted c) Q h

theorem methodsConducted_of_effect {e : Entry machine}
    (he : e.stmt.effect ≠ some .createSession) : MethodsConducted c h e := by
  obtain ⟨ctx, s, w⟩ := e
  unfold MethodsConducted
  split
  · next hs =>
    cases hs
    exact absurd rfl he
  · trivial

theorem methodsConducted_of_within {e : Entry machine} {L : List Effect} (he : e.stmt.Within L)
    (hL : .createSession ∉ L) : MethodsConducted c h e :=
  methodsConducted_of_effect fun heff => hL (he _ heff)

theorem methodsConducted_of_read {s : DbStmt} {ctx : Ctx} {w : World}
    (hs : (Stmt.db s).effect = none) : MethodsConducted c h ⟨ctx, .db s, w⟩ := by
  apply methodsConducted_of_effect
  rw [hs]
  simp

/-- A part of a program that creates no session. -/
theorem methodsSkip_bind {p : Req ε α} {f : α → Req ε β} {P : List (Entry machine) → β → Prop}
    {L : List Effect} (hp : Within L p) (hL : .createSession ∉ L)
    (hok : ∀ t a, MethodsFollow c (Ends P) (h ++ t) (f a)) :
    MethodsFollow c (Ends P) h (p >>= f) :=
  meets_skip_bind hp (fun _ _ _ he => methodsConducted_of_within he hL) (fun t a _ => hok t a)
    fun _ _ _ => trivial

/-- Such a part at the end. -/
theorem methodsSkip {p : Req ε α} {L : List Effect} (hp : Within L p) (hL : .createSession ∉ L) :
    MethodsFollow c (Ends fun _ _ => True) h p := by
  apply hp.meets (fun _ _ _ he => methodsConducted_of_within he hL)
  intro t r _
  exact ends_of_forall fun _ => trivial

/-- What a part that creates no session establishes. -/
theorem methodsFollow_of_ending {P : List (Entry machine) → α → Prop} {p : Req ε α}
    {L : List Effect} (hp : Ending P h p) (hw : Within L p) (hL : .createSession ∉ L) :
    MethodsFollow c (Ends P) h p := by
  apply (hp.only hw).weaken (fun _ hI => hI) _ fun _ _ hr => hr
  intro t e _ he
  exact methodsConducted_of_within he.2 hL

/-- The write of a login leaves the account its actor. -/
theorem touchLastLogin_owner {ip : Str} :
    MethodsFollow c (Ends fun _ u' => u'.subjectId = u.subjectId) h (touchLastLogin u ip) := by
  apply methodsSkip_bind within_getNow (L := []) List.not_mem_nil
  intro t now
  apply meets_query _ _ fun _ _ _ => trivial
  · intro ctx w _
    rw [MethodsConducted]
    trivial
  · intro e u' _ he
    have hreply := he.reply
    simp only [DbStmt.exec, IdentityStmt.exec, UserStmt.exec] at hreply
    split at hreply
    · split at hreply
      · cases hreply
      split at hreply
      · cases hreply
      · cases hreply
        rfl
    · cases hreply

/-- The session is created for the actor of the account, with the methods
    that the caller names. -/
theorem createSession_methods {methods : List AuthenticationMethod} {refs : List Str}
    (hs : ∀ t s, s.methods = methods → u.subjectId = some s.userId → Attests c (h ++ t) s) :
    MethodsFollow c (Ends fun _ _ => True) h (createSession cfg u methods refs) := by
  apply methodsSkip_bind within_getNow (L := []) List.not_mem_nil
  intro t₁ now
  apply methodsSkip_bind within_newUuid (L := []) List.not_mem_nil
  intro t₂ key
  apply meets_orThrow_bind _ fun _ => trivial
  intro actorKey hactor
  apply meets_query_bind _ _ fun _ _ _ => trivial
  · intro ctx w _
    show Attests c (h ++ t₁ ++ t₂) _
    rw [List.append_assoc]
    exact hs (t₁ ++ t₂) _ rfl hactor
  · intro e _ _ _
    exact methodsSkip (.bind hasPassword_within fun _ => within_pure) (L := []) List.not_mem_nil

/-- The last steps of every login of a human. -/
theorem touchAndCreate_methods {ip : Str} {methods : List AuthenticationMethod}
    {q : User → Req AuthError α} {g : α → List Str} {k : IssuedSession → Req AuthError β}
    {P : List (Entry machine) → β → Prop} (hq : ∀ u, Within [] (q u))
    (hs : ∀ t s, s.methods = methods → u.subjectId = some s.userId → Attests c (h ++ t) s)
    (hk : ∀ t issued, MethodsFollow c (Ends P) (h ++ t) (k issued)) :
    MethodsFollow c (Ends P) h (touchLastLogin u ip >>= fun u' => q u' >>= fun r =>
      createSession cfg u' methods (g r) >>= k) := by
  apply touchLastLogin_owner.bind _ fun _ _ _ => trivial
  intro t₁ u' howner
  have howner : u'.subjectId = u.subjectId := howner
  apply methodsSkip_bind (hq u') List.not_mem_nil
  intro t₂ r
  have hcreate : MethodsFollow c (Ends fun _ _ => True) (h ++ t₁ ++ t₂)
      (createSession cfg u' methods (g r)) := by
    apply createSession_methods
    intro t s hmethods hactor
    have hlater := hs (t₁ ++ (t₂ ++ t)) s hmethods (howner ▸ hactor)
    simpa only [List.append_assoc] using hlater
  apply hcreate.bind _ fun _ _ _ => trivial
  intro t₃ issued _
  have hrest := hk (t₁ ++ (t₂ ++ t₃)) issued
  simpa only [List.append_assoc] using hrest

/-- The aggregate of a new human is the one that was asked for. -/
theorem createHumanAggregate_made {new : NewHuman} :
    Ending (fun h' keys => ∃ drawn now, keys.2 = drawn.user ∧
      Heard h' (.identity (.createHuman (new.aggregate drawn now))) ()) h
      (createHumanAggregate new) := by
  iterate 7
    apply ending_bind
    intro _ _
  apply meets_query_bind (fun _ _ _ => trivial) _ fun _ _ _ => trivial
  intro e _ _ he
  exact ⟨_, _, rfl, he.heard⟩

/-- A password is hashed to something that it verifies against. -/
theorem hashPassword_verifies {pw : Str} :
    Ending (fun _ hash => Platform.argon2Verify hash pw = true) h
      (hashPassword pw : Req ε Str) := by
  intro ctx w _
  exact ⟨trivial, Platform.argon2Verify_hash w.drawn pw⟩

theorem register_methods {req : CreateUserRequest} {ip : Str} :
    MethodsFollow ⟨cfg, .register req ip⟩ (Ends fun _ _ => True) h (register cfg req ip) := by
  apply methodsSkip_bind within_ofExcept (L := []) List.not_mem_nil
  intro t₁ email
  apply methodsSkip_bind within_ofExcept (L := []) List.not_mem_nil
  intro t₂ _
  apply methodsSkip_bind within_orThrow (L := []) List.not_mem_nil
  intro t₃ submitted
  apply methodsSkip_bind within_ofExcept (L := []) List.not_mem_nil
  intro t₄ username
  apply methodsSkip_bind findUserByEmail_within (L := []) List.not_mem_nil
  intro t₅ existing
  apply methodsSkip_bind within_ensure (L := []) List.not_mem_nil
  intro t₆ _
  apply methodsSkip_bind ensureUsernameAvailable_within (L := []) List.not_mem_nil
  intro t₇ normalized
  generalize h ++ t₁ ++ t₂ ++ t₃ ++ t₄ ++ t₅ ++ t₆ ++ t₇ = h₁
  apply (methodsFollow_of_ending hashPassword_verifies within_hashPassword (L := [])
    List.not_mem_nil).bind _ fun _ _ _ => trivial
  intro t₈ hash hverify
  apply methodsSkip_bind within_getNow (L := []) List.not_mem_nil
  intro t₉ now
  apply methodsSkip_bind drawVerificationToken_within (L := []) List.not_mem_nil
  intro t₁₀ verification
  generalize h₁ ++ t₈ ++ t₉ ++ t₁₀ = h₂
  apply (methodsFollow_of_ending (L := [.createHuman]) (ending_mapError createHumanAggregate_made)
    (.mapError (createHumanAggregate_within (by simp))) (by simp)).bind _ fun _ _ _ => trivial
  intro t₁₁ keys hmade
  obtain ⟨drawn, at', hkeys, hcreated⟩ := hmade
  apply meets_query_bind (fun _ _ _ => methodsConducted_of_read rfl) _ fun _ _ _ => trivial
  intro e found _ he
  apply meets_orThrow_bind _ fun _ => trivial
  intro u hfound
  subst hfound
  have hregisters : Registers (h₂ ++ t₁₁ ++ [e]) req.password u := by
    rw [hkeys] at he
    exact ⟨_, _, hash, hcreated.mono [e], he.heard, rfl, rfl, hverify⟩
  cases verification with
  | some verification => trivial
  | none =>
    apply touchAndCreate_methods fun _ => passwordRefOf_within
    · intro t s hmethods howner
      exact .registered req ip u rfl hmethods howner (hregisters.mono t)
    · intro t issued
      trivial

/-- What the reading of the second factor has found. -/
theorem enabledMethod_reads {userId : Str} :
    Ending (fun h' method => method = none → NoFactor h' userId) h (enabledMethod userId) := by
  have hget : Prog.Meets (fun _ => True) (fun _ _ => True) (fun h' (r : Except AuthError UserMfa) =>
      (∀ m, r = .ok m → m.status ≠ .enabled → NoFactor h' userId) ∧
      (r = .error .userNotFound → NoFactor h' userId)) h (getUserMfa userId) := by
    apply meets_query_bind (fun _ _ _ => trivial)
    · intro e found _ he
      have hrow := he.factor
      have hread : ¬ FactorEnabled userId e.before.db.mfa → NoFactor (h ++ [e]) userId :=
        fun hno => ⟨e, by simp, he.stmt, he.sound, hno⟩
      cases found with
      | none =>
        constructor
        · intro m hm
          cases hm
        · intro _
          apply hread
          simp [FactorEnabled, hrow]
      | some m =>
        constructor
        · intro m' hm hstatus
          cases hm
          apply hread
          simpa [FactorEnabled, hrow] using hstatus
        · intro hm
          cases hm
    · -- a failed statement is no answer
      intro e x _
      constructor
      · intro m hm
        cases hm
      · intro hx
        cases hx
  have hattempt : Ending (fun h' r =>
      (∀ m, r = .ok m → m.status ≠ .enabled → NoFactor h' userId) ∧
      (r = .error .userNotFound → NoFactor h' userId)) h
      ((getUserMfa userId).attempt : Req AuthError (Except AuthError UserMfa)) :=
    hget.attempt fun _ _ hr => hr
  apply hattempt.bind _ fun _ _ _ => trivial
  intro t found hfound
  cases found with
  | ok m =>
    show (if m.status = .enabled then some m.method else none) = none → _
    intro hnone
    apply hfound.1 m rfl
    intro henabled
    rw [if_pos henabled] at hnone
    cases hnone
  | error x =>
    cases x with
    | userNotFound => exact fun _ => hfound.2 rfl
    | _ => trivial

/-- The credential that a login looks up is the one of the account. -/
theorem probeActor_probes :
    Ending (fun h' actorKey => Probed h' u actorKey) h (probeActor (some u)) := by
  simp only [probeActor, Option.bind_some]
  cases hsubject : u.subjectId with
  | some actorKey => exact .inl hsubject
  | none =>
    intro ctx w _
    refine ⟨trivial, .inr ⟨hsubject, ?_⟩⟩
    rw [uuidsOf_append]
    exact List.mem_append_right _ (List.mem_singleton_self _)

/-- A password that passes has been verified. -/
theorem verifyPassword_proves {hash pw : Str} :
    Ending (fun h' _ => (∃ e ∈ h', e.stmt = .verifyPassword hash pw) ∧
      Platform.argon2Verify hash pw = true) h (verifyPassword hash pw) := by
  unfold verifyPassword
  split
  · intro ctx w _
    refine ⟨trivial, Prog.meets_ensure.mpr ⟨fun htrue => ?_, fun _ => trivial⟩⟩
    exact ⟨⟨_, List.mem_append_right h (List.mem_singleton_self _), rfl⟩, htrue⟩
  · trivial

theorem activePassword_finds {actorKey : Str} :
    Ending (fun h' found => ∀ credential, found = some credential →
      Heard h' (.identity (.credential (.findPassword actorKey))) (some credential) ∧
      credential.isUsable = true) h (activePassword actorKey : Req AuthError _) := by
  apply meets_query_bind (fun _ _ _ => trivial) _ fun _ _ _ => trivial
  intro e found _ he credential hcredential
  obtain ⟨rfl, husable⟩ := Option.filter_eq_some_iff.mp hcredential
  exact ⟨he.heard, husable⟩

/-- What a login establishes when it ends with a challenge. -/
def Challenged (submitted password : Str) (h : List (Entry machine)) (outcome : LoginOutcome) :
    Prop :=
  ∀ challenge method, outcome = .mfaRequired challenge method →
    ∃ u, challenge.sub = u.key ∧ LoginProved h submitted password u

theorem loginVerified_methods {submitted password ip : Str} {credential : Credential}
    (hp : LoginProved h submitted password u) :
    MethodsFollow ⟨cfg, .login submitted password ip⟩ (Ends (Challenged submitted password)) h
      (loginVerified cfg u credential ip) := by
  apply methodsSkip_bind within_ensure (L := []) List.not_mem_nil
  intro t₁ _
  apply methodsSkip_bind authenticableActorOfUser_within (L := []) List.not_mem_nil
  intro t₂ actor
  apply methodsSkip_bind within_ofExcept (L := []) List.not_mem_nil
  intro t₃ _
  apply methodsSkip_bind within_ensure (L := []) List.not_mem_nil
  intro t₄ _
  have hp₄ := (((hp.mono t₁).mono t₂).mono t₃).mono t₄
  generalize h ++ t₁ ++ t₂ ++ t₃ ++ t₄ = h₄ at hp₄
  apply (methodsFollow_of_ending enabledMethod_reads enabledMethod_within (L := [])
    List.not_mem_nil).bind _ fun _ _ _ => trivial
  intro t₅ method hmethod
  cases method with
  | some method =>
    -- the challenge names the account whose password was verified
    apply methodsSkip_bind within_getNow (L := []) List.not_mem_nil
    intro t₆ now challenge method' heq
    cases heq
    exact ⟨u, rfl, (hp₄.mono t₅).mono t₆⟩
  | none =>
    have hsingle : NoFactor (h₄ ++ t₅) u.key := hmethod rfl
    apply touchAndCreate_methods (q := fun _ => pure ()) (g := fun _ => _) fun _ => within_pure
    · intro t s hmethods howner
      exact .password submitted password ip u rfl hmethods howner ((hp₄.mono t₅).mono t)
        (hsingle.mono t)
    · intro t issued challenge method' heq
      cases heq

theorem login_methods {submitted password ip : Str} :
    MethodsFollow ⟨cfg, .login submitted password ip⟩ (Ends (Challenged submitted password)) h
      (login cfg submitted password ip) := by
  have hrefuse : ∀ h', MethodsFollow ⟨cfg, .login submitted password ip⟩
      (Ends (Challenged submitted password)) h'
      (spendPasswordVerificationTime >>= fun _ => throw .invalidCredentials) := by
    intro h'
    apply methodsSkip_bind (.swallow within_verifyPassword) (L := []) List.not_mem_nil
    intro t _
    trivial
  apply meets_ofExcept_bind _ fun _ _ => trivial
  intro email hvalid
  have hvalid : validateEmail submitted = .ok email := by
    cases hv : validateEmail submitted with
    | ok address =>
      rw [hv] at hvalid
      cases hvalid
      rfl
    | error x =>
      rw [hv] at hvalid
      cases hvalid
  apply meets_query_bind (fun _ _ _ => methodsConducted_of_read rfl) _ fun _ _ _ => trivial
  intro e found _ he
  cases found with
  | none =>
    apply methodsSkip_bind probeActor_within (L := []) List.not_mem_nil
    intro t₁ actorKey
    apply methodsSkip_bind activePassword_within (L := []) List.not_mem_nil
    intro t₂ stored
    exact hrefuse _
  | some u =>
    apply (methodsFollow_of_ending probeActor_probes probeActor_within (L := [])
      List.not_mem_nil).bind _ fun _ _ _ => trivial
    intro t₁ actorKey hprobed
    apply (methodsFollow_of_ending activePassword_finds activePassword_within (L := [])
      List.not_mem_nil).bind _ fun _ _ _ => trivial
    intro t₂ stored hstored
    cases stored with
    | none => exact hrefuse _
    | some credential =>
      obtain ⟨hheard, husable⟩ := hstored credential rfl
      apply meets_orThrow_bind _ fun _ => trivial
      intro hash hhash
      apply (methodsFollow_of_ending verifyPassword_proves within_verifyPassword (L := [])
        List.not_mem_nil).bind _ fun _ _ _ => trivial
      intro t₃ _ hverified
      apply loginVerified_methods
      constructor
      · exact ⟨email, hvalid, ((he.heard.mono t₁).mono t₂).mono t₃⟩
      · exact ⟨actorKey, (hprobed.mono t₂).mono t₃,
          ⟨credential, hash, hheard.mono t₃, husable, hhash, hverified.1, hverified.2⟩⟩

/-- The method that a second factor is recorded as. -/
theorem verifySecondFactor_method {userId : Str} {factor : SecondFactor} :
    Ending (fun _ verified => factor.method = some verified.2) h
      (verifySecondFactor cfg userId factor) := by
  cases factor with
  | totp code =>
    apply ending_bind
    intro h' ok
    rfl
  | backupCode code =>
    apply ending_bind
    intro h' ok
    rfl
  | none => trivial

theorem mfaLoginVerify_methods {challenge : MfaChallengeClaims} {factor : SecondFactor}
    {ip : Str} :
    MethodsFollow ⟨cfg, .mfaLoginVerify challenge factor ip⟩ (Ends fun _ _ => True) h
      (mfaLoginVerify cfg challenge factor ip) := by
  have hdecode : Ending (fun h' _ => ∃ now, (∃ e ∈ h', SawTime now e) ∧
      ¬ challenge.exp < now - 60) h (decodeMfaChallenge challenge) := by
    apply meets_getNow_bind fun _ _ _ => trivial
    intro e now _ hsaw
    apply Prog.meets_ensure.mpr
    exact ⟨fun hexp => ⟨now, ⟨e, by simp, hsaw⟩, hexp⟩, fun _ => trivial⟩
  apply (methodsFollow_of_ending hdecode (.bind within_getNow fun _ => within_ensure) (L := [])
    List.not_mem_nil).bind _ fun _ _ _ => trivial
  intro t₁ _ htime
  obtain ⟨now, ⟨e, he, hsaw⟩, hexp⟩ := htime
  apply methodsSkip_bind (L := [.writeLockout]) (ensureNotLockedOut_within (by simp)) (by simp)
  intro t₂ _
  have hwithin : Within [.writeMfa] (verifySecondFactor cfg challenge.sub factor) := by
    cases factor with
    | totp code => exact .bind (verifyTotp_within (by simp)) fun _ => within_pure
    | backupCode code => exact .bind (useBackupCode_within (by simp)) fun _ => within_pure
    | none => exact within_throw
  have hverify : Ending (fun h' verified =>
      (verified.1 = true → FactorVerified h' challenge.sub factor) ∧
        factor.method = some verified.2) (h ++ t₁ ++ t₂)
      ((verifySecondFactor cfg challenge.sub factor).mapError mfaVerificationError) := by
    apply ending_mapError
    have hfactor : (Endpoint.mfaLoginVerify challenge factor ip).factor =
        some (challenge.sub, factor) := rfl
    have hverified : Ending (fun h' verified =>
        verified.1 = true → FactorVerified h' challenge.sub factor) (h ++ t₁ ++ t₂)
        (verifySecondFactor cfg challenge.sub factor) :=
      (verifySecondFactor_follows (c := ⟨cfg, .mfaLoginVerify challenge factor ip⟩) hfactor).weaken
        (fun _ hI => hI) (fun _ _ _ _ => trivial) fun _ _ hr => hr
    apply (hverified.and verifySecondFactor_method).weaken (fun _ hI => hI) fun _ _ _ _ => trivial
    intro t r hr
    cases r with
    | ok verified => exact hr
    | error x => trivial
  apply (methodsFollow_of_ending hverify hwithin.mapError (by simp)).bind _ fun _ _ _ => trivial
  intro t₃ verified hverified
  obtain ⟨hproved, hmethod⟩ := hverified
  -- past this point the factor was verified, which stays in the history
  apply meets_ensure_bind _ fun _ => trivial
  intro htrue
  have hproved := hproved htrue
  have hin : e ∈ h ++ t₁ ++ t₂ ++ t₃ :=
    List.mem_append_left t₃ (List.mem_append_left t₂ he)
  generalize h ++ t₁ ++ t₂ ++ t₃ = h₃ at hproved hin
  apply meets_query_bind (fun _ _ _ => methodsConducted_of_read rfl) _ fun _ _ _ => trivial
  intro e₄ found _ he₄
  apply meets_orThrow_bind _ fun _ => trivial
  intro u hfound
  subst hfound
  apply methodsSkip_bind authenticableActorOfUser_within (L := []) List.not_mem_nil
  intro t₅ actor
  apply methodsSkip_bind within_ofExcept (L := []) List.not_mem_nil
  intro t₆ _
  have hcreate : MethodsFollow ⟨cfg, .mfaLoginVerify challenge factor ip⟩ (Ends fun _ _ => True)
      (h₃ ++ [e₄] ++ t₅ ++ t₆) (touchLastLogin u ip >>= fun u' => passwordRefOf u' >>= fun ref =>
        createSession cfg u' [.password, verified.2] ref.toList >>= fun s => .done (.ok s)) := by
    apply touchAndCreate_methods fun _ => passwordRefOf_within
    · intro t s hmethods howner
      exact .secondFactor challenge factor ip verified.2 u rfl hmethods hmethod
        (((he₄.heard.mono t₅).mono t₆).mono t) howner
        ((((hproved.mono [e₄]).mono t₅).mono t₆).mono t)
        ⟨now, ⟨e, by simp [hin], hsaw⟩, hexp⟩
    · intro t issued
      trivial
  simpa only [Prog.bind_pure'] using hcreate

theorem handleOauthCallback_methods {info : OAuthUserInfo} {ip : Str} :
    MethodsFollow ⟨cfg, .oauthCallback info ip⟩ (Ends fun _ _ => True) h
      (handleOauthCallback cfg info ip) := by
  have hwithin : Within [.createHuman] (findOrCreateOauthUser info) :=
    findOrCreateOauthUser_within (by simp)
  apply (methodsFollow_of_ending findOrCreateOauthUser_resolves hwithin (by simp)).bind _
    fun _ _ _ => trivial
  intro t₁ u hresolves
  apply methodsSkip_bind authenticableActorOfUser_within (L := []) List.not_mem_nil
  intro t₂ actor
  have hcreate : MethodsFollow ⟨cfg, .oauthCallback info ip⟩ (Ends fun _ _ => True)
      (h ++ t₁ ++ t₂) (touchLastLogin u ip >>= fun u' => pure () >>= fun _ =>
        createSession cfg u' [.externalIdentity] [] >>= fun s => .done (.ok s)) := by
    apply touchAndCreate_methods (g := fun _ => []) fun _ => within_pure
    · intro t s hmethods howner
      exact .externalIdentity info ip u rfl hmethods howner ((hresolves.mono t₂).mono t)
    · intro t issued
      trivial
  simpa only [Prog.bind_pure', pure_bind] using hcreate

theorem verifyEmail_methods {token ip : Str} :
    MethodsFollow ⟨cfg, .verifyEmail token ip⟩ (Ends fun _ _ => True) h
      (verifyEmail cfg token ip) := by
  apply methodsSkip_bind within_getNow (L := []) List.not_mem_nil
  intro t₁ now
  apply meets_query_bind _ _ fun _ _ _ => trivial
  · intro ctx w _
    rw [MethodsConducted]
    trivial
  intro e₁ claimed _ he₁
  rcases claimed with _ | ⟨key, _ | ⟨key', rest⟩⟩
  · trivial
  · apply meets_query_bind (fun _ _ _ => methodsConducted_of_read rfl) _ fun _ _ _ => trivial
    intro e₂ found _ he₂
    apply meets_orThrow_bind _ fun _ => trivial
    intro u hfound
    subst hfound
    have hcreate : MethodsFollow ⟨cfg, .verifyEmail token ip⟩ (Ends fun _ _ => True)
        (h ++ t₁ ++ [e₁] ++ [e₂]) (touchLastLogin u ip >>= fun u' => pure () >>= fun _ =>
          createSession cfg u' [.emailLink] [] >>= fun s => .done (.ok s)) := by
      apply touchAndCreate_methods (g := fun _ => []) fun _ => within_pure
      · intro t s hmethods howner
        exact .emailLink token ip key now u rfl hmethods howner
          ((he₁.heard.mono [e₂]).mono t) (he₂.heard.mono t)
      · intro t issued
        trivial
    simpa only [Prog.bind_pure', pure_bind] using hcreate
  · trivial

/-- Sessions of AI actors are opened by their keys only. -/
def Stmt.OpensByKey (s : Stmt) : Prop :=
  ∀ row, s = .db (.session (.create row)) → row.methods = [.ed25519Key]

theorem opensByKey_of_within {p : Req ε α} {L : List Effect} (hp : Within L p)
    (hL : .createSession ∉ L) : Prog.Only Stmt.OpensByKey p := by
  apply Prog.Only.mono hp
  intro s hs row hrow
  subst hrow
  exact absurd (hs .createSession rfl) hL

theorem authenticateAiActor_opensByKey {proof : AiActorProof} :
    Prog.Only Stmt.OpensByKey (authenticateAiActor cfg proof) := by
  have hskip : ∀ {α : Type} {p : Req AuthError α},
      Within [.consumeChallenge, .writeAiCredential] p → Prog.Only Stmt.OpensByKey p :=
    fun hp => opensByKey_of_within hp (by simp)
  apply Prog.Only.bind Prog.only_ensure
  intro _
  apply Prog.Only.bind (hskip within_ofExcept)
  intro _
  apply Prog.Only.bind (hskip within_getNow)
  intro now
  apply Prog.Only.bind (hskip (within_write rfl (by simp)))
  intro consumed
  apply Prog.Only.bind Prog.only_ensure
  intro _
  apply Prog.Only.bind (hskip (.mapError requireAiActor_within))
  intro actor
  apply Prog.Only.bind Prog.only_ensure
  intro _
  apply Prog.Only.bind (hskip (within_read rfl))
  intro credentials
  apply Prog.Only.bind Prog.only_orThrow
  intro credential
  apply Prog.Only.bind (hskip within_getNow)
  intro touchedAt
  apply Prog.Only.bind (hskip (.swallow (within_write rfl (by simp))))
  intro _
  apply Prog.Only.bind (hskip within_getNow)
  intro now
  apply Prog.Only.bind (hskip within_newUuid)
  intro key
  apply Prog.Only.bind _ fun _ => Prog.only_done
  constructor
  · intro row hrow
    cases hrow
    rfl
  · intro r
    cases r <;> trivial

theorem authenticateAiActor_methods {proof : AiActorProof} :
    MethodsFollow ⟨cfg, .authenticateAiActor proof⟩ (Ends fun _ _ => True) h
      (authenticateAiActor cfg proof) := by
  apply (authenticateAiActor_opens.only authenticateAiActor_opensByKey).weaken (fun _ hI => hI)
  · intro t e _ he
    obtain ⟨hconduct, hkey⟩ := he
    obtain ⟨ctx, s, w⟩ := e
    unfold MethodsConducted
    split
    · next hs =>
      cases hs
      exact .aiKey proof rfl (hkey _ rfl) (hconduct proof rfl)
    · trivial
  · intro t r _
    exact ends_of_forall fun _ => trivial

/-! ## Every request -/

/-- A response that is not a challenge. -/
def Reply.Plain (r : Reply) : Prop := ∀ challenge method, r ≠ .mfaRequired challenge method

theorem methodsConcluded_of_plain {r : Except Failure Reply} (hr : ∀ a, r = .ok a → a.Plain) :
    MethodsConcluded c h r := by
  intro challenge method heq
  exact absurd rfl (hr _ heq challenge method)

/-- A request that is answered with no challenge. -/
theorem respond_methods {f : α → Reply} {p : Req AuthError α}
    (hp : MethodsFollow c (Ends fun _ _ => True) [] p) (hf : ∀ a, (f a).Plain) :
    MethodsFollow c (MethodsConcluded c) [] (respond f p) := by
  apply Prog.Meets.bind (P := fun _ _ => True)
  · exact hp.mapError (fun _ _ _ => trivial) fun _ _ _ => trivial
  · intro t a _
    apply methodsConcluded_of_plain
    intro reply hreply
    cases hreply
    exact hf a
  · intro t x _
    apply methodsConcluded_of_plain
    intro reply hreply
    cases hreply

/-- The response of a program, whatever it does. -/
abbrev RepliesWith (P : Reply → Prop) (p : Req Failure Reply) : Prop :=
  p.Meets (fun _ => True) (fun _ _ => True) (fun _ r => ∀ a, r = .ok a → P a) []

theorem respond_replies {P : Reply → Prop} {f : α → Reply} {p : Req AuthError α}
    (hf : ∀ a, P (f a)) : RepliesWith P (respond f p) := by
  apply Prog.Meets.bind (P := fun _ _ => True)
  · exact Prog.meets_mapError.mpr Prog.meets_trivial
  · intro t a _ reply hreply
    cases hreply
    exact hf a
  · intro t x _ reply hreply
    cases hreply

theorem respondOidc_replies {P : Reply → Prop} {f : α → Reply} {p : Req OidcError α}
    (hf : ∀ a, P (f a)) : RepliesWith P (respondOidc f p) := by
  apply Prog.Meets.bind (P := fun _ _ => True)
  · exact Prog.meets_mapError.mpr Prog.meets_trivial
  · intro t a _ reply hreply
    cases hreply
    exact hf a
  · intro t x _ reply hreply
    cases hreply

theorem checked_replies {P : Reply → Prop} {check : Except AuthError Unit}
    {p : Req Failure Reply} (hp : RepliesWith P p) : RepliesWith P (checked check p) := by
  apply meets_ofExcept_bind
  · intro _ _
    exact hp
  · intro x _ reply hreply
    cases hreply

/-- A request that creates no session and is answered with no challenge. -/
theorem methodsFollow_of_replies {p : Req Failure Reply} (hp : RepliesWith Reply.Plain p)
    {L : List Effect} (hw : Within L p) (hL : .createSession ∉ L) :
    MethodsFollow c (MethodsConcluded c) [] p := by
  apply (hp.only hw).weaken (fun _ hI => hI)
  · intro t e _ he
    exact methodsConducted_of_within he.2 hL
  · intro t r hr
    exact methodsConcluded_of_plain hr

theorem loginRoute_methods {email password ip : Str} :
    MethodsFollow ⟨cfg, .login email password ip⟩
      (MethodsConcluded ⟨cfg, .login email password ip⟩) []
      (respond id (loginRoute cfg email password ip)) := by
  have hroute : MethodsFollow ⟨cfg, .login email password ip⟩
      (Ends fun h' reply => ∀ challenge method, reply = .mfaRequired challenge method →
        ∃ u, challenge.sub = u.key ∧ LoginProved h' email password u) []
      (loginRoute cfg email password ip) := by
    have hperform : MethodsFollow ⟨cfg, .login email password ip⟩
        (Ends (Challenged email password)) [] (performLogin cfg email password ip) := by
      apply methodsSkip_bind (L := [.writeLockout]) (ensureNotLockedOut_within (by simp))
        (by simp)
      intro t _
      exact login_methods.mapError (fun _ _ hr => hr) fun _ _ _ => trivial
    apply hperform.bind _ fun _ _ _ => trivial
    intro t outcome houtcome
    cases outcome with
    | authenticated issued =>
      apply methodsSkip_bind (.bind within_getNow fun _ => within_pure) (L := [])
        List.not_mem_nil
      intro t' response challenge method hreply
      cases hreply
    | mfaRequired challenge method =>
      intro challenge' method' hreply
      cases hreply
      exact houtcome challenge method rfl
  apply Prog.Meets.bind (P := Ends fun h' reply => ∀ challenge method,
    reply = .mfaRequired challenge method →
      ∃ u, challenge.sub = u.key ∧ LoginProved h' email password u)
  · exact hroute.mapError (fun _ _ hr => hr) fun _ _ _ => trivial
  · intro t reply hreply challenge method heq
    cases heq
    obtain ⟨u, hsub, hproved⟩ := hreply challenge method rfl
    exact ⟨email, password, ip, u, rfl, hsub, hproved⟩
  · intro t x _
    apply methodsConcluded_of_plain
    intro reply hreply
    cases hreply

/-- **Every request keeps to the rule of the methods.** -/
theorem methodsRule_met : methodsRule.Met := by
  intro c
  obtain ⟨cfg, endpoint⟩ := c
  show MethodsFollow ⟨cfg, endpoint⟩ (MethodsConcluded ⟨cfg, endpoint⟩) [] (endpoint.program cfg)
  have hother : .createSession ∉ endpoint.effects →
      RepliesWith Reply.Plain (endpoint.program cfg) →
      MethodsFollow ⟨cfg, endpoint⟩ (MethodsConcluded ⟨cfg, endpoint⟩) []
        (endpoint.program cfg) := by
    intro heffects hplain
    exact methodsFollow_of_replies hplain (Call.within ⟨cfg, endpoint⟩) heffects
  have hcookie : ∀ {c : Call} {p : Req AuthError IssuedSession},
      MethodsFollow c (Ends fun _ _ => True) [] p →
      MethodsFollow c (MethodsConcluded c) [] (respondLogin p) := by
    intro c p hp
    apply respond_methods
    · apply hp.bind _ fun _ _ _ => trivial
      intro t issued _
      exact methodsSkip (.bind within_getNow fun _ => within_pure) (L := []) List.not_mem_nil
    · intro response challenge method heq
      cases heq
  cases endpoint with
  | login email password ip => exact loginRoute_methods
  | register req ip =>
    exact respond_methods register_methods (by simp [Reply.Plain])
  | mfaLoginVerify challenge factor ip => exact hcookie mfaLoginVerify_methods
  | oauthCallback info ip => exact hcookie handleOauthCallback_methods
  | verifyEmail token ip => exact respond_methods verifyEmail_methods (by simp [Reply.Plain])
  | authenticateAiActor proof =>
    exact respond_methods authenticateAiActor_methods (by simp [Reply.Plain])
  | token | cleanupOidcArtifacts | disableClient | regenerateClientSecret =>
    exact hother (by simp [Endpoint.effects]) (respondOidc_replies (by simp [Reply.Plain]))
  | createClient | updateClient =>
    exact hother (by simp [Endpoint.effects])
      (checked_replies (respondOidc_replies (by simp [Reply.Plain])))
  | _ => exact hother (by simp [Endpoint.effects]) (respond_replies (by simp [Reply.Plain]))

theorem methodsRule_holds {w : World} {conf : (server).Conf} (hc : Reachable w conf) :
    methodsRule.Inv conf :=
  hc.rule methodsRule_met fun _ => trivial

end

/-! ## Runs -/

section

variable {now : Timestamp} {c : (server).Conf} {i j n : Nat} {s : Session} {u : User}

/-- What the request had done when it created the session. -/
theorem SessionCreatedAt.authenticated (hc : Reachable (World.fresh now) c)
    (h : SessionCreatedAt c n i s) :
    ∃ r, c.reqOf i = some r ∧ Attests r (entriesOf (S := server) i (c.trace.take n)) s := by
  obtain ⟨e, hat, hs⟩ := h
  obtain ⟨r, hr, hconduct⟩ := (methodsRule_holds hc).entries_at hat
  have hattests : MethodsConducted r (entriesOf (S := server) i (c.trace.take n)) e :=
    hconduct
  rw [MethodsConducted, hs.stmt] at hattests
  exact ⟨r, hr, hattests⟩

/-- **The methods of a session are true.** Every session of a reachable
    state was created by a request that has carried out, for the owner of the
    session, the methods that the row lists. -/
theorem session_methods_true (hc : Reachable (World.fresh now) c) (hs : s ∈ c.state.db.sessions) :
    ∃ n i r, SessionCreatedAt c n i s ∧ c.reqOf i = some r ∧
      Attests r (entriesOf (S := server) i (c.trace.take n)) s := by
  have hsteps : Steps (S := server) (World.fresh now) (c.trace.take c.trace.length) c.state := by
    rw [List.take_length]
    exact hc.steps
  obtain ⟨n, i, -, hcreated, -⟩ := session_since hsteps hs
  obtain ⟨r, hr, hattests⟩ := hcreated.authenticated hc
  exact ⟨n, i, r, hcreated, hr, hattests⟩

/-- A row that a request has looked up was seen. -/
theorem seen_of_heard {i : Nat} {x : UserStmt} {a : (DbStmt.identity (.user x)).Reply}
    {tr₁ tr₂ : List (Nat × Entry machine)} (htr : c.trace = tr₁ ++ tr₂)
    (hh : Heard (entriesOf (S := server) i tr₁) (.identity (.user x)) a)
    (hrow : ∀ e, Answered (.identity (.user x)) a e → u ∈ e.before.db.users) : Seen c u := by
  obtain ⟨e, he, hanswered⟩ := hh
  have hmem : (i, e) ∈ c.trace := by
    rw [htr]
    exact List.mem_append_left tr₂ (mem_entriesOf.mp he)
  exact ⟨i, e, hmem, hrow e hanswered⟩

theorem LoginProved.seen {email password : Str} {tr₁ tr₂ : List (Nat × Entry machine)}
    (htr : c.trace = tr₁ ++ tr₂)
    (hp : LoginProved (entriesOf (S := server) i tr₁) email password u) : Seen c u := by
  obtain ⟨address, -, hheard⟩ := hp.found
  exact seen_of_heard htr hheard fun e he => he.findByEmail

/-- A row that was looked up by its key. -/
theorem seen_of_findById {key : Str} {tr₁ tr₂ : List (Nat × Entry machine)}
    (htr : c.trace = tr₁ ++ tr₂)
    (hh : Heard (entriesOf (S := server) i tr₁) (.identity (.user (.findById key))) (some u)) :
    Seen c u ∧ u.key = key := by
  obtain ⟨e, -, he⟩ := id hh
  exact ⟨seen_of_heard htr hh fun e he => (key_of_findById he).1, (key_of_findById he).2⟩

/-- What stood in the trace of a run stands in the one that continues it. -/
theorem Seen.run (h : Seen c u) (as : List (server).Action) : Seen (c.run as) u := by
  obtain ⟨k, e, hm, hu⟩ := h
  obtain ⟨tr, htr, -⟩ := c.run_trace as
  refine ⟨k, e, ?_, hu⟩
  rw [htr]
  exact List.mem_append_left tr hm

/-- A challenge that a login has issued names an account by its plain key. -/
theorem idArgumentKey_issued (hc : Reachable (World.fresh now) c) {challenge : MfaChallengeClaims}
    {method : MfaMethod} (hissued : c.Returned j (.ok (.mfaRequired challenge method))) :
    idArgumentKey challenge.sub = challenge.sub := by
  obtain ⟨r, -, hout⟩ := (methodsRule_holds hc).returned hissued
  obtain ⟨email, password, ip, u, -, hsub, hproved⟩ := hout challenge method rfl
  have hseen : Seen c u := hproved.seen (List.append_nil _).symm
  obtain ⟨g, -, -, hsubject⟩ := hseen.conceived hc
  rw [hsub]
  exact (hseen.plain hc hsubject).1.idArgumentKey

/-- **Two factors are two factors.** A session that is opened with a
    challenge which a login has issued before is one of the account whose
    password that login has verified, and the request that opens it has used
    up a second factor of the same account. -/
theorem second_factor_after_password (hc : Reachable (World.fresh now) c)
    (as : List (server).Action) {cfg : Config} {challenge : MfaChallengeClaims}
    {factor : SecondFactor} {ip : Str} {method : MfaMethod}
    (hissued : c.Returned j (.ok (.mfaRequired challenge method)))
    (hreq : (c.run as).reqOf i = some ⟨cfg, .mfaLoginVerify challenge factor ip⟩)
    (hcreated : SessionCreatedAt (c.run as) n i s) :
    (∃ (cfg' : Config) (email password ip' : Str) (u : User), c.reqOf j = some ⟨cfg', .login email password ip'⟩ ∧
      u.key = challenge.sub ∧ u.subjectId = some s.userId ∧
      PasswordProved (entriesOf (S := server) j c.trace) s.userId password) ∧
    FactorVerified (entriesOf (S := server) i ((c.run as).trace.take n)) challenge.sub factor ∧
    ∃ m, factor.method = some m ∧ s.methods = [.password, m] := by
  have hc' := hc.run as
  -- the login that issued the challenge
  obtain ⟨r, hr, hout⟩ := (methodsRule_holds hc).returned hissued
  obtain ⟨email, password, ip', u, hlogin, hsub, hproved⟩ := hout challenge method rfl
  have hseen : Seen c u := hproved.seen (List.append_nil _).symm
  -- the request that spends it
  obtain ⟨r', hr', hauth⟩ := hcreated.authenticated hc'
  obtain rfl := Option.some.inj (hreq.symm.trans hr')
  have hfactor : ∃ v, Heard (entriesOf (S := server) i ((c.run as).trace.take n))
      (.identity (.user (.findById (idArgumentKey challenge.sub)))) (some v) ∧
      v.subjectId = some s.userId ∧
      FactorVerified (entriesOf (S := server) i ((c.run as).trace.take n)) challenge.sub factor ∧
      ∃ m, factor.method = some m ∧ s.methods = [.password, m] := by
    cases hauth with
    | secondFactor challenge' factor' ip₁ m v endpoint methods names found owner proved _ =>
      cases endpoint
      exact ⟨v, found, owner, proved, m, names, methods⟩
    | registered req ip₁ v endpoint => cases endpoint
    | password email₁ password₁ ip₁ v endpoint => cases endpoint
    | externalIdentity info ip₁ v endpoint => cases endpoint
    | emailLink token ip₁ key at₁ v endpoint => cases endpoint
    | aiKey proof endpoint => cases endpoint
  obtain ⟨v, hfound, howner, hverified, hmethods⟩ := hfactor
  obtain ⟨hv, hkey⟩ := seen_of_findById (List.take_append_drop n _).symm hfound
  -- both have looked at the same account
  have hsame : v.key = u.key := by
    rw [hkey, idArgumentKey_issued hc hissued, hsub]
  have hsubject : u.subjectId = some s.userId := by
    rw [(hseen.run as).subjectId_eq hc' hv hsame.symm]
    exact howner
  obtain ⟨cfg', endpoint⟩ := r
  obtain rfl : endpoint = .login email password ip' := hlogin
  exact ⟨⟨cfg', email, password, ip', u, hr, hsub.symm, hsubject,
    hproved.of_subject hsubject⟩, hverified, hmethods⟩

/-- A request that has started after a point of the run has all its entries
    after it. -/
theorem place_of_late (hc : Reachable (World.fresh now) c) (as : List (server).Action)
    (hlate : c.threads.length ≤ i) {e : Entry machine} (hm : (i, e) ∈ (c.run as).trace) :
    ∃ k, c.trace.length ≤ k ∧ (c.run as).trace[k]? = some (i, e) := by
  obtain ⟨k, hk⟩ := List.mem_iff_getElem?.mp hm
  refine ⟨k, ?_, hk⟩
  by_contra hlt
  obtain ⟨tr, htr, -⟩ := c.run_trace as
  rw [htr, List.getElem?_append_left (by omega)] at hk
  have hknown := (methodsRule_holds hc).known _ (List.mem_of_getElem? hk)
  have hknown : i < c.threads.length := hknown
  omega

/-- A row that stands in the table at a point of the run was seen, if the run
    goes on. -/
theorem seen_of_mem_state (hc : Reachable (World.fresh now) c) (as : List (server).Action)
    (hu : u ∈ c.state.db.users) (hlate : c.threads.length ≤ i) {e : Entry machine}
    (hm : (i, e) ∈ (c.run as).trace) : Seen (c.run as) u := by
  obtain ⟨k, hle, hk⟩ := place_of_late hc as hlate hm
  obtain ⟨tr, htr, -⟩ := c.run_trace as
  have hsteps := (hc.run as).steps
  rw [htr] at hk hsteps
  cases tr with
  | nil =>
    have hlt := (List.getElem?_eq_some_iff.mp hk).1
    rw [List.append_nil] at hlt
    omega
  | cons x tr =>
    -- the next statement found the state of that point
    have hbefore : x.2.before = c.state := hsteps.split_entry.1.state_eq hc.steps
    refine ⟨x.1, x.2, ?_, ?_⟩
    · rw [htr]
      simp
    · rw [hbefore]
      exact hu

/-- A human that was there at a point of the run was not created by a request
    that has started later. -/
theorem not_conceived_late (hc : Reachable (World.fresh now) c) (as : List (server).Action)
    (hu : u ∈ c.state.db.users) (hlate : c.threads.length ≤ i) {a : HumanAggregate}
    {e : Entry machine} (hm : (i, e) ∈ (c.run as).trace)
    (hs : e.stmt = .db (.identity (.createHuman a))) : a.user.key ≠ u.key := by
  intro hkey
  have hc' := hc.run as
  obtain ⟨g, hg, hsame⟩ := (lineage_holds hc).users u hu
  obtain ⟨tr, htr, -⟩ := c.run_trace as
  -- the key was drawn by the request that created the human in the first part
  obtain ⟨k, hdrawn⟩ := hg.drawn hc
  have hfirst : g.user.key ∈ uuidsOf (entriesOf (S := server) k (c.run as).trace) := by
    rw [htr, entriesOf_append, uuidsOf_append]
    exact List.mem_append_left _ (hdrawn.subset (by simp [HumanAggregate.keys]))
  obtain ⟨tr₁, tr₂, hsplit⟩ := List.append_of_mem hm
  obtain ⟨r, -, hconduct⟩ := conducted_at hc' hsplit
  rw [Conducted, hs] at hconduct
  have hsecond : a.user.key ∈ uuidsOf (entriesOf (S := server) i (c.run as).trace) := by
    rw [hsplit, entriesOf_append, uuidsOf_append]
    exact List.mem_append_left _ (hconduct.keys_sublist.subset (by simp [HumanAggregate.keys]))
  have hsamekey : g.user.key = a.user.key := by rw [hkey, hsame.key]
  rw [hsamekey] at hfirst
  obtain rfl := uuid_thread hc' hfirst hsecond
  have hold : a.user.key ∈ uuidsOf (entriesOf (S := server) k c.trace) := by
    rw [← hsamekey]
    exact hdrawn.subset (by simp [HumanAggregate.keys])
  obtain ⟨e', he', -⟩ := List.mem_filterMap.mp hold
  have hknown : k < c.threads.length := (methodsRule_holds hc).known _ (mem_entriesOf.mp he')
  omega

/-- **A password is not enough.** While the record of the second factor of an
    account stays enabled, every session that a request started since then
    creates for the account, and that lists the password, was opened with a
    challenge and a second factor of the account. A challenge that a login
    has issued names the account by its key. -/
theorem enabled_factor_required (hc : Reachable (World.fresh now) c) (as : List (server).Action)
    (hu : u ∈ c.state.db.users)
    (henabled : ∀ (k m : Nat) (e : Entry machine), c.trace.length ≤ k →
      (c.run as).trace[k]? = some (m, e) → FactorEnabled u.key e.before.db.mfa)
    (hlate : c.threads.length ≤ i) (hcreated : SessionCreatedAt (c.run as) n i s)
    (howner : u.subjectId = some s.userId) (hlists : .password ∈ s.methods) :
    ∃ (cfg : Config) (challenge : MfaChallengeClaims) (factor : SecondFactor) (ip : Str)
      (m : AuthenticationMethod),
      (c.run as).reqOf i = some ⟨cfg, .mfaLoginVerify challenge factor ip⟩ ∧
      idArgumentKey challenge.sub = u.key ∧ factor.method = some m ∧
      s.methods = [.password, m] ∧
      FactorVerified (entriesOf (S := server) i ((c.run as).trace.take n)) challenge.sub factor ∧
      ∀ j method, (c.run as).Returned j (.ok (.mfaRequired challenge method)) →
        challenge.sub = u.key := by
  have hc' := hc.run as
  obtain ⟨e₀, hat, -⟩ := id hcreated
  have hseen : Seen (c.run as) u := seen_of_mem_state hc as hu hlate (List.mem_of_getElem? hat)
  obtain ⟨r, hr, hauth⟩ := hcreated.authenticated hc'
  obtain ⟨cfg, endpoint⟩ := r
  cases hauth with
  | secondFactor challenge factor ip m v hendpoint methods names found owner proved _ =>
    obtain rfl : endpoint = .mfaLoginVerify challenge factor ip := hendpoint
    obtain ⟨hv, hkey⟩ := seen_of_findById (List.take_append_drop n _).symm found
    have hsub : idArgumentKey challenge.sub = u.key := by
      rw [← hkey]
      exact hv.key_eq hc' hseen owner howner
    refine ⟨cfg, challenge, factor, ip, m, hr, hsub, names, methods, proved, ?_⟩
    intro j method hissued
    rw [← hsub]
    exact (idArgumentKey_issued hc' hissued).symm
  | password email password ip v hendpoint methods owner proved single =>
    -- the login has read the record, and it was enabled
    have hkey : v.key = u.key :=
      (proved.seen (List.take_append_drop n _).symm).key_eq hc' hseen owner howner
    obtain ⟨e, he, -, -, hno⟩ := single
    have hm : (i, e) ∈ (c.run as).trace := List.mem_of_mem_take (mem_entriesOf.mp he)
    obtain ⟨k, hle, hk⟩ := place_of_late hc as hlate hm
    rw [hkey] at hno
    exact absurd (henabled k i e hle hk) hno
  | registered req ip v hendpoint methods owner proved =>
    obtain ⟨a, credential, hash, hmade, hfound, -⟩ := proved
    obtain ⟨hv, hkey⟩ := seen_of_findById (List.take_append_drop n _).symm hfound
    obtain ⟨e, he, hanswered⟩ := hmade
    have hm : (i, e) ∈ (c.run as).trace := List.mem_of_mem_take (mem_entriesOf.mp he)
    have hplain : IsPlainKey a.user.key :=
      (Conceived.isPlainKey hc' ⟨i, e, hm, hanswered.stmt⟩ (by simp [HumanAggregate.keys])).1
    have hsame : a.user.key = u.key := by
      rw [← hv.key_eq hc' hseen owner howner, hkey]
      exact (hplain.idArgumentKey_address (by decide)).symm
    exact absurd hsame (not_conceived_late hc as hu hlate hm hanswered.stmt)
  | externalIdentity info ip v hendpoint methods => simp [methods] at hlists
  | emailLink token ip key at' v hendpoint methods => simp [methods] at hlists
  | aiKey proof hendpoint methods => simp [methods] at hlists

end

end

end SoulAuth

namespace SoulAuth.Sample

open Framework Framework.System

/-- Request 4 logs Alice in, whose second factor is enabled. -/
def loginHalted : List (server).Action :=
  start withFactors (.login registration.email password "ip".toList) :: steps 4 10

/-- The challenge that she is given. -/
def aliceChallenge : MfaChallengeClaims where
  sub := alice
  email := registration.email
  exp := 300
  iat := 0

/-- Request 5 answers it a minute later. -/
def loginFinished : List (server).Action :=
  start withFactors (.mfaLoginVerify aliceChallenge (.totp firstCode) "ip".toList) ::
    .step 5 ⟨60, none⟩ :: steps 5 17

/-- The session of the finished login. -/
def secondSession : Session where
  key := numbered 'u' 28
  userId := aliceActor
  tokenHash := hashBearer
    { sub := aliceActor, exp := 3660, iat := 60, sessionId := some (numbered 'u' 28),
      subjectType := some .human }
  expiresAt := 3660
  createdAt := 60
  methods := [.password, .totp]
  credentialRefs := [recordAddress "credential".toList (numbered 'u' 7)]
  authenticatedAt := some 60

theorem session_methods_true_alice : ∃ n i r,
    SessionCreatedAt (after (factorEnabled ++ loginHalted ++ loginFinished)) n i secondSession ∧
    (after (factorEnabled ++ loginHalted ++ loginFinished)).reqOf i = some r ∧
    Attests r (entriesOf (S := server) i
      ((after (factorEnabled ++ loginHalted ++ loginFinished)).trace.take n)) secondSession :=
  session_methods_true (after_reachable _) (by decide +kernel)

/-- Entry number `n` creates the session for request `i`. -/
def createsAt (c : (server).Conf) (n i : Nat) (s : Session) : Bool :=
  match c.trace[n]? with
  | some (j, e) => j = i && decide (Executes (.session (.create s)) e)
  | none => false

theorem sessionCreatedAt_of_createsAt {c : (server).Conf} {n i : Nat} {s : Session}
    (h : createsAt c n i s = true) : SessionCreatedAt c n i s := by
  unfold createsAt at h
  split at h
  · next j e he =>
    simp only [Bool.and_eq_true, decide_eq_true_eq] at h
    obtain ⟨rfl, hs⟩ := h
    exact ⟨e, he, hs⟩
  · cases h

theorem secondSession_created :
    SessionCreatedAt ((after (factorEnabled ++ loginHalted)).run loginFinished) 72 5
      secondSession :=
  sessionCreatedAt_of_createsAt (by decide +kernel)

theorem second_factor_after_password_alice :
    (∃ (cfg : Config) (email pw ip : Str) (u : User),
      (after (factorEnabled ++ loginHalted)).reqOf 4 = some ⟨cfg, .login email pw ip⟩ ∧
      u.key = alice ∧ u.subjectId = some aliceActor ∧
      PasswordProved (entriesOf (S := server) 4 (after (factorEnabled ++ loginHalted)).trace)
        aliceActor pw) ∧
    FactorVerified (entriesOf (S := server) 5
      (((after (factorEnabled ++ loginHalted)).run loginFinished).trace.take 72)) alice
      (.totp firstCode) ∧
    ∃ m, SecondFactor.method (.totp firstCode) = some m ∧
      secondSession.methods = [.password, m] := by
  have hissued : (after (factorEnabled ++ loginHalted)).Returned 4
      (.ok (.mfaRequired aliceChallenge .totp)) := Conf.returned_of_outcome (by decide +kernel)
  have hreq : ((after (factorEnabled ++ loginHalted)).run loginFinished).reqOf 5 =
      some ⟨withFactors, .mfaLoginVerify aliceChallenge (.totp firstCode) "ip".toList⟩ := by
    decide +kernel
  exact second_factor_after_password (after_reachable _) loginFinished hissued hreq
    secondSession_created

/-- Alice's factor stays enabled while she logs in. -/
theorem factor_stays :
    (((after factorEnabled).run (loginHalted ++ loginFinished)).trace.drop
      (after factorEnabled).trace.length).all
      (fun x => decide (FactorEnabled alice x.2.before.db.mfa)) = true := by
  decide +kernel

theorem enabled_factor_required_alice :
    ∃ (cfg : Config) (challenge : MfaChallengeClaims) (factor : SecondFactor) (ip : Str)
      (m : AuthenticationMethod),
      ((after factorEnabled).run (loginHalted ++ loginFinished)).reqOf 5 =
        some ⟨cfg, .mfaLoginVerify challenge factor ip⟩ ∧
      idArgumentKey challenge.sub = alice ∧ factor.method = some m ∧
      secondSession.methods = [.password, m] ∧
      FactorVerified (entriesOf (S := server) 5
        (((after factorEnabled).run (loginHalted ++ loginFinished)).trace.take 72))
        challenge.sub factor ∧
      ∀ j method, ((after factorEnabled).run (loginHalted ++ loginFinished)).Returned j
        (.ok (.mfaRequired challenge method)) → challenge.sub = alice := by
  have hrow : ((after factorEnabled).state.db.users.any fun u =>
      u.key = alice && u.subjectId = some aliceActor) = true := by decide +kernel
  obtain ⟨u, hu, hx⟩ := List.any_eq_true.mp hrow
  simp only [Bool.and_eq_true, decide_eq_true_eq] at hx
  obtain ⟨hkey, howner⟩ := hx
  rw [← hkey]
  apply enabled_factor_required (after_reachable factorEnabled) (loginHalted ++ loginFinished) hu
  · intro k m e hle hk
    have hdrop : (m, e) ∈ ((after factorEnabled).run (loginHalted ++ loginFinished)).trace.drop
        (after factorEnabled).trace.length := by
      apply List.mem_iff_getElem?.mpr
      refine ⟨k - (after factorEnabled).trace.length, ?_⟩
      rw [List.getElem?_drop, Nat.add_sub_cancel' hle, hk]
    have henabled := List.all_eq_true.mp factor_stays _ hdrop
    rw [hkey]
    exact of_decide_eq_true henabled
  · show (after factorEnabled).threads.length ≤ 5
    decide +kernel
  · have hsame : (after factorEnabled).run (loginHalted ++ loginFinished) =
        (after (factorEnabled ++ loginHalted)).run loginFinished := by
      simp only [after, Conf.run_append]
    rw [hsame]
    exact secondSession_created
  · exact howner
  · decide

end SoulAuth.Sample
