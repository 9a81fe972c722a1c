import SoulAuth.Proofs.LoginErrors
import SoulAuth.Proofs.LoginGuard
import SoulAuth.Proofs.SeenUsers
import SoulAuth.Proofs.Tables

/-! # Logins with a verified address

That an address has been verified stands in two rows, the one of the user
and the one of the account. The link of the mail sets it in the first, and a
login asks for it in both.
-/

namespace SoulAuth

open Framework Framework.System Framework.Prog

section

variable [Platform]

/-! ## What a login has read -/

/-- The entry read an account. -/
def AccountRead (e : Entry machine) (x : HumanAccount) : Prop :=
  ∃ key, Answered (.identity (.accountOfActor key)) (some x) e

/-- The entry looked a user up by its email address. -/
def UserFound (e : Entry machine) (u : User) : Prop :=
  ∃ email, Answered (.identity (.user (.findByEmail email))) (some u) e

/-- A statement that reads no account. -/
def Stmt.SkipsAccounts (s : Stmt) : Prop :=
  ∀ key, s ≠ .db (.identity (.accountOfActor key))

/-- No unverified account has been read, or a user that is not active. -/
def Unopposed (h : List (Entry machine)) : Prop :=
  (∀ e ∈ h, ∀ x, AccountRead e x → x.emailVerified = true) ∨
    ∃ e ∈ h, ∃ u, UserFound e u ∧ u.accountStatus ≠ .active

section

variable {h t : List (Entry machine)} {e : Entry machine} {x : HumanAccount}

theorem Stmt.SkipsAccounts.not_read (hs : e.stmt.SkipsAccounts) : ¬ AccountRead e x := by
  intro hread
  obtain ⟨key, ha⟩ := hread
  exact hs key ha.stmt

theorem Unopposed.append (hu : Unopposed h) (ht : ∀ e ∈ t, e.stmt.SkipsAccounts) :
    Unopposed (h ++ t) := by
  rcases hu with hverified | ⟨e, he, hinactive⟩
  · left
    intro e he x hread
    rcases List.mem_append.mp he with he | he
    · exact hverified e he x hread
    · exact absurd hread (ht e he).not_read
  · exact .inr ⟨e, List.mem_append_left _ he, hinactive⟩

/-! ## The steps beside the gate -/

variable {ε α β : Type}

/-- A program none of whose statements reads an account. -/
abbrev Skips (p : Req ε α) : Prop := Only Stmt.SkipsAccounts p

theorem skips_query [OfDb ε] {s : DbStmt} (hs : ∀ key, s ≠ .identity (.accountOfActor key)) :
    Skips (query s : Req ε s.Reply) := by
  constructor
  · intro key heq
    exact hs key (Stmt.db.inj heq)
  · intro r
    cases r <;> trivial

theorem skips_getNow : Skips (getNow : Req ε Timestamp) := ⟨nofun, fun _ => trivial⟩

theorem skips_newUuid : Skips (newUuid : Req ε Str) := ⟨nofun, fun _ => trivial⟩

theorem skips_verifyPassword {stored pw : Str} : Skips (verifyPassword stored pw) := by
  unfold verifyPassword
  split
  · constructor
    · intro key heq
      cases heq
    · intro _
      exact only_ensure
  · trivial

theorem skips_activePassword [OfDb ε] {actorKey : Str} :
    Skips (activePassword actorKey : Req ε (Option Credential)) :=
  .bind (skips_query nofun) fun _ => trivial

theorem skips_probeActor {found : Option User} : Skips (probeActor found) := by
  unfold probeActor
  split
  · trivial
  · exact skips_newUuid

theorem skips_enabledMethod {userId : Str} : Skips (enabledMethod userId) := by
  refine .bind (.attempt (.bind (skips_query nofun) fun _ => only_orThrow)) fun found => ?_
  split <;> trivial

theorem skips_createSession {cfg : Config} {user : User} {methods : List AuthenticationMethod}
    {refs : List Str} : Skips (createSession cfg user methods refs) :=
  .bind skips_getNow fun _ => .bind skips_newUuid fun _ => .bind only_orThrow fun _ =>
    .bind (skips_query nofun) fun _ =>
      .bind (.bind (.bind skips_activePassword fun _ => trivial) fun _ => trivial) fun _ => trivial

/-- What a login does once it is let in. -/
theorem skips_afterGate {cfg : Config} {user : User} {refs : List Str} {ip : Str} :
    Skips (do
      let method ← enabledMethod user.key
      match method with
      | some method =>
        let challenge ← createMfaChallengeToken user.key user.email
        return LoginOutcome.mfaRequired challenge method
      | none =>
        let user ← touchLastLogin user ip
        let issued ← createSession cfg user [.password] refs
        return .authenticated issued) := by
  refine .bind skips_enabledMethod fun method => ?_
  split
  · exact .bind (.bind skips_getNow fun _ => trivial) fun _ => trivial
  · exact .bind (.bind skips_getNow fun _ => skips_query nofun) fun _ =>
      .bind skips_createSession fun _ => trivial

end

/-! ## The gate and what follows -/

/-- No account has been read. -/
def NoneRead (h : List (Entry machine)) : Prop := ∀ e ∈ h, ∀ x, ¬ AccountRead e x

/-- The gate has read the account that it hands out and no other, or it has
    failed without one. -/
def GateRead (h : List (Entry machine)) : Except AuthError AuthenticableActor → Prop
  | .ok actor => ∃ x, actor.account = some x ∧ ∀ e ∈ h, ∀ y, AccountRead e y → y = x
  | .error _ => NoneRead h

/-- The verdict of a server that asks for the verification. -/
def Settled {α : Type} (h : List (Entry machine)) (r : Except AuthError α) : Prop :=
  r = .error .emailNotVerified ∨ Unopposed h

/-- The program keeps to a rule of its outcome. -/
abbrev Deciding {ε α : Type} (Q : List (Entry machine) → Except ε α → Prop)
    (h : List (Entry machine)) (p : Req ε α) : Prop :=
  p.Meets (fun _ => True) (fun _ _ => True) Q h

section

variable {h t : List (Entry machine)} {e : Entry machine} {α β : Type}

theorem NoneRead.append (hn : NoneRead h) (ht : ∀ e ∈ t, e.stmt.SkipsAccounts) :
    NoneRead (h ++ t) := by
  intro e he x
  rcases List.mem_append.mp he with he | he
  · exact hn e he x
  · exact (ht e he).not_read

theorem NoneRead.snoc {s : DbStmt} (hn : NoneRead h) (he : e.stmt = .db s)
    (hs : ∀ key, s ≠ .identity (.accountOfActor key)) : NoneRead (h ++ [e]) := by
  apply hn.append
  intro e' he'
  rw [List.mem_singleton.mp he', he]
  intro key heq
  exact hs key (Stmt.db.inj heq)

theorem NoneRead.unopposed (hn : NoneRead h) : Unopposed h :=
  .inl fun e he x hread => absurd hread (hn e he x)

theorem gate_reads {userId : Str} (hn : NoneRead h) :
    Deciding GateRead h (authenticableActorOfUser userId) := by
  refine meets_bind.mpr (meets_query_bind (fun _ _ _ => trivial) (fun e₁ refs _ he₁ => ?_)
    fun e₁ x hs => ?_)
  swap
  · exact hn.snoc hs nofun
  have hn₁ : NoneRead (h ++ [e₁]) := hn.snoc he₁.stmt nofun
  cases refs with
  | none => exact hn₁
  | some k =>
    show Deciding GateRead (h ++ [e₁]) (authenticableActor k .human)
    refine meets_query_bind (fun _ _ _ => trivial) (fun e₂ found _ he₂ => ?_) fun e₂ x hs => ?_
    swap
    · exact hn₁.snoc hs nofun
    have hn₂ : NoneRead (h ++ [e₁] ++ [e₂]) := hn₁.snoc he₂.stmt nofun
    refine meets_orThrow_bind (fun actor _ => ?_) fun _ => hn₂
    refine meets_ofExcept_bind (fun _ _ => ?_) fun _ _ => hn₂
    -- the one statement that reads an account
    refine meets_query_failing_bind (fun _ _ _ => trivial) (fun e₃ row _ he₃ => ?_)
      fun e₃ x hs hfail => ?_
    · have hread : ∀ y, AccountRead e₃ y → row = some y := by
        intro y hy
        obtain ⟨key, ha⟩ := hy
        obtain rfl : actor.key = key := by simpa using he₃.stmt.symm.trans ha.stmt
        exact Except.ok.inj (he₃.reply.symm.trans ha.reply)
      cases row with
      | none =>
        intro e he y hy
        rcases List.mem_append.mp he with he | he
        · exact hn₂ e he y hy
        · rw [List.mem_singleton.mp he] at hy
          exact absurd (hread y hy) nofun
      | some x =>
        refine ⟨x, rfl, fun e he y hy => ?_⟩
        rcases List.mem_append.mp he with he | he
        · exact absurd hy (hn₂ e he y)
        · rw [List.mem_singleton.mp he] at hy
          exact (Option.some.inj (hread y hy)).symm
    · intro e he y hy
      rcases List.mem_append.mp he with he | he
      · exact hn₂ e he y hy
      · rw [List.mem_singleton.mp he] at hy
        obtain ⟨key, ha⟩ := hy
        obtain rfl : actor.key = key := by simpa using hs.symm.trans ha.stmt
        exact hfail _ ha

/-- A step beside the gate comes first. -/
theorem settled_skip {p : Req AuthError α} {f : α → Req AuthError β} (hp : Skips p)
    (hn : NoneRead h) (hf : ∀ t a, NoneRead (h ++ t) → Deciding Settled (h ++ t) (f a)) :
    Deciding Settled h (p >>= f) :=
  meets_skip_bind hp (fun _ _ _ _ => trivial) (fun t a ht => hf t a (hn.append ht))
    fun _ _ ht => .inr (hn.append ht).unopposed

/-- A login from the point where the password has been verified. -/
theorem loginVerified_settled {cfg : Config} {user : User} {credential : Credential} {ip : Str}
    (hon : cfg.emailVerificationEnabled = true) (hn : NoneRead h)
    (huser : ∃ e ∈ h, UserFound e user) :
    Deciding Settled h (loginVerified cfg user credential ip) := by
  refine meets_ensure_bind (fun _ => ?_) fun _ => .inl rfl
  refine Meets.bind (gate_reads hn) (fun t actor hactor => ?_) fun t x hx =>
    .inr (NoneRead.unopposed hx)
  obtain ⟨x, haccount, honly⟩ := hactor
  refine meets_ofExcept_bind (fun _ _ => ?_) fun err herr => .inr (.inr ?_)
  · refine meets_ensure_bind (fun hpass => ?_) fun _ => .inl rfl
    have hverified : x.emailVerified = true := by
      simpa [hon, haccount] using hpass
    have hun : Unopposed (h ++ t) := by
      left
      intro e he y hy
      rw [honly e he y hy]
      exact hverified
    exact Only.meets skips_afterGate (fun _ _ _ _ => trivial) fun _ _ ht => .inr (hun.append ht)
  · obtain ⟨e, he, hfound⟩ := huser
    refine ⟨e, List.mem_append_left _ he, user, hfound, fun hactive => ?_⟩
    rw [User.ensureUsable_ok.mpr hactive] at herr
    cases herr

theorem login_settled {cfg : Config} {email password ip : Str}
    (hon : cfg.emailVerificationEnabled = true) (hn : NoneRead h) :
    Deciding Settled h (login cfg email password ip) := by
  refine meets_ofExcept_bind (fun email _ => ?_) fun _ _ => .inr hn.unopposed
  refine meets_query_bind (fun _ _ _ => trivial) (fun e₁ found _ he₁ => ?_) fun e₁ x hs => ?_
  swap
  · exact .inr (hn.snoc hs nofun).unopposed
  have hn₁ : NoneRead (h ++ [e₁]) := hn.snoc he₁.stmt nofun
  refine settled_skip skips_probeActor hn₁ fun t₂ actorKey hn₂ => ?_
  refine settled_skip skips_activePassword hn₂ fun t₃ stored hn₃ => ?_
  have hrefuse : Deciding Settled (h ++ [e₁] ++ t₂ ++ t₃) (do
      spendPasswordVerificationTime
      throw .invalidCredentials : Req AuthError LoginOutcome) :=
    settled_skip (.swallow skips_verifyPassword) hn₃ fun _ _ hn₄ => .inr hn₄.unopposed
  cases found with
  | none => exact hrefuse
  | some user =>
    cases stored with
    | none => exact hrefuse
    | some credential =>
      refine meets_orThrow_bind (fun hash _ => ?_) fun _ => .inr hn₃.unopposed
      refine settled_skip skips_verifyPassword hn₃ fun t₄ _ hn₄ => ?_
      exact loginVerified_settled hon hn₄ ⟨e₁, by simp, email, he₁⟩

end

/-! ## The rule -/

/-- What holds of the outcome of a login: only a server that asks for the
    verification refuses for want of it, and it does unless nothing that the
    login read stood in the way. -/
structure Verdict (cfg : Config) (h : List (Entry machine)) (r : Except Failure Reply) :
    Prop where
  asked : r = .error (.auth .emailNotVerified) → cfg.emailVerificationEnabled = true
  settled : cfg.emailVerificationEnabled = true →
    r = .error (.auth .emailNotVerified) ∨ Unopposed h

def verdictRule : Rule server where
  assumes _ := True
  entry _ _ _ := True
  outcome c h r := (∃ email password ip, c.endpoint = .login email password ip) →
    Verdict c.cfg h r

section

variable {cfg : Config} {email password ip : Str}

/-- A server that does not ask for the verification does not miss it. -/
theorem loginRoute_fails : Fails (LoginFailure cfg) (loginRoute cfg email password ip) := by
  apply Fails.bind fails_performLogin
  intro outcome
  cases outcome with
  | authenticated issued =>
    apply Fails.bind (.bind fails_getNow fun _ => fails_pure)
    intro response
    exact fails_pure
  | mfaRequired challenge method => exact fails_pure

theorem loginRoute_settled (hon : cfg.emailVerificationEnabled = true) :
    Deciding Settled [] (loginRoute cfg email password ip) := by
  have hcheck : Stepping (fun h' r => r = .ok () → Passed cfg.lockout .user email h') []
      (ensureNotLockedOut cfg email ip) := ensureNotLockedOut_stepping
  unfold loginRoute performLogin
  rw [bind_assoc]
  refine Meets.bind (P := fun h' _ => NoneRead h') ?_ (fun t _ hn => ?_) fun t x hn =>
    .inr hn.unopposed
  · refine hcheck.gather.weaken (fun _ hw => hw) (fun _ _ _ _ => trivial) fun t r hr => ?_
    obtain ⟨⟨t', ht', hall⟩, -⟩ := hr
    rw [ht']
    intro e he x
    rcases hall e he with hnow | ⟨s, hs, -⟩
    · exact Stmt.SkipsAccounts.not_read fun key heq => nomatch hnow.symm.trans heq
    · exact Stmt.SkipsAccounts.not_read fun key heq => nomatch hs.symm.trans heq
  · refine Meets.bind (Meets.mapError (login_settled hon hn) (Q := Settled) (fun _ _ hr => hr)
      fun t' x hr => ?_) (fun t' outcome hr => ?_) fun t' x hr => ?_
    · rcases hr with hr | hr
      · cases hr
        exact .inl rfl
      · exact .inr hr
    · have hun : Unopposed ([] ++ t ++ t') := by simpa [Settled] using hr
      have hrest : ∀ p : Req AuthError Reply, Skips p → Deciding Settled ([] ++ t ++ t') p :=
        fun p hp => Only.meets hp (fun _ _ _ _ => trivial) fun _ _ ht => .inr (hun.append ht)
      apply hrest
      cases outcome with
      | authenticated issued =>
        exact .bind (.bind skips_getNow fun _ => trivial) fun _ => trivial
      | mfaRequired challenge method => trivial
    · rcases hr with hr | hr
      · cases hr
        exact .inl rfl
      · exact .inr hr

end

theorem verdictRule_met : verdictRule.Met := by
  intro c
  obtain ⟨cfg, endpoint⟩ := c
  by_cases hlogin : ∃ email password ip, endpoint = .login email password ip
  · obtain ⟨email, password, ip, rfl⟩ := hlogin
    have hfails : Deciding (fun _ r => ∀ x, r = .error x → LoginFailure cfg x) []
        (loginRoute cfg email password ip) := loginRoute_fails.meets
    have hboth : Deciding (fun h r => (∀ x, r = .error x → LoginFailure cfg x) ∧
        (cfg.emailVerificationEnabled = true → Settled h r)) []
        (loginRoute cfg email password ip) := by
      by_cases hon : cfg.emailVerificationEnabled = true
      · exact (hfails.and (loginRoute_settled hon)).weaken (fun _ hw => hw) (fun _ _ _ he => he)
          fun _ _ hr => ⟨hr.1, fun _ => hr.2⟩
      · exact hfails.weaken (fun _ hw => hw) (fun _ _ _ he => he)
          fun _ _ hr => ⟨hr, fun hon' => absurd hon' hon⟩
    show Deciding _ [] (respond id (loginRoute cfg email password ip))
    refine meets_bind.mpr (Meets.mapError hboth (fun t reply hr => ?_) fun t x hr => ?_)
    · intro _
      constructor
      · exact nofun
      · intro hon
        exact .inr (by simpa [Settled] using hr.2 hon)
    · intro _
      constructor
      · intro heq
        cases heq
        exact (hr.1 _ rfl).unverified rfl
      · intro hon
        rcases hr.2 hon with heq | hun
        · cases heq
          exact .inl rfl
        · exact .inr hun
  · exact meets_trivial.weaken (fun _ hw => hw) (fun _ _ _ he => he)
      fun _ _ _ hlogin' => absurd hlogin' hlogin

/-! ## Runs -/

/-- Request `i` has registered the human `a` while addresses had to be
    verified, and request `k` has followed the link that it was sent. -/
structure VerifiedHuman (c : (server).Conf) (i k : Nat) (a : HumanAggregate) : Prop where
  registered : ∃ cfg req ip, c.reqOf i = some ⟨cfg, .register req ip⟩ ∧
    cfg.emailVerificationEnabled = true
  created : ∃ e, (i, e) ∈ c.trace ∧ Answered (.identity (.createHuman a)) () e
  verified : ∃ cfg token ip issued, c.reqOf k = some ⟨cfg, .verifyEmail token ip⟩ ∧
    c.Returned k (.ok (.session issued)) ∧ issued.user.id = a.user.key

/-- Request `j` is a login with the email address and the password of the
    human `a`, and it finds the account and the identity root active. -/
structure CorrectLogin (c : (server).Conf) (j : Nat) (cfg : Config) (a : HumanAggregate) :
    Prop where
  request : ∃ email password ip, c.reqOf j = some ⟨cfg, .login email password ip⟩ ∧
    ∃ e stored, (j, e) ∈ c.trace ∧ e.stmt = .verifyPassword stored password ∧
      Platform.argon2Verify stored password = true
  user : ∀ e u, (j, e) ∈ c.trace → UserFound e u →
    u.key = a.user.key ∧ u.accountStatus = .active
  root : ∃ x, UserPassed (entriesOf (S := server) j c.trace) a.user.key x

section

variable {now : Timestamp} {c : (server).Conf} {i j k : Nat} {a : HumanAggregate} {cfg : Config}

/-- The account of a human that was registered with the verification on is
    never verified. -/
theorem VerifiedHuman.unverified (hc : Reachable (World.fresh now) c)
    (h : VerifiedHuman c i k a) : a.account.emailVerified = false := by
  obtain ⟨cfg, req, ip, hreq, hon⟩ := h.registered
  obtain ⟨e, hm, ha⟩ := h.created
  obtain ⟨tr₁, tr₂, htr⟩ := List.append_of_mem hm
  obtain ⟨r, hr, hcond⟩ := conducted_at hc htr
  unfold Conducted at hcond
  rw [ha.stmt] at hcond
  obtain rfl := Option.some.inj (hr.symm.trans hreq)
  rw [hcond.unverified req ip rfl]
  simp [hon]

/-- **The verified fact reaches the login only half.** In every run, a login
    with the right password, for a human that has been registered with the
    verification on and has followed the link, is refused for want of the
    verification, unless the server that serves it does not ask for it. -/
theorem verified_login_iff (hc : Reachable (World.fresh now) c) (hv : VerifiedHuman c i k a)
    (as : List (server).Action) (hlogin : CorrectLogin (c.run as) j cfg a)
    {r : Except Failure Reply} (hret : (c.run as).Returned j r) :
    r ≠ .error (.auth .emailNotVerified) ↔ cfg.emailVerificationEnabled = false := by
  obtain ⟨email, password, ip, hreq, -⟩ := hlogin.request
  obtain ⟨q, hq, hout⟩ := ((hc.run as).rule verdictRule_met fun _ => trivial).returned hret
  obtain rfl := Option.some.inj (hq.symm.trans hreq)
  have hverdict : Verdict cfg (entriesOf (S := server) j (c.run as).trace) r :=
    hout ⟨email, password, ip, rfl⟩
  -- the account that the gate reads is the one of the registration
  have hconceived : Conceived (c.run as).trace a := by
    obtain ⟨e, hm, ha⟩ := hv.created
    obtain ⟨tr, htr, -⟩ := c.run_trace as
    exact ⟨i, e, by rw [htr]; exact List.mem_append_left _ hm, ha.stmt⟩
  obtain ⟨x, hpassed⟩ := hlogin.root
  have hkey := hpassed.root_key (hc.run as) hconceived
  obtain ⟨_, -, hroot⟩ := hpassed
  obtain ⟨y, hy⟩ := hroot.account
  rw [hkey] at hy
  obtain ⟨e, hm, hread⟩ := hy
  have hunverified : y.emailVerified = false := by
    rw [account_of_root (hc.run as) hconceived (mem_entriesOf.mp hm) hread]
    exact hv.unverified hc
  constructor
  · intro hne
    rw [← Bool.not_eq_true]
    intro hon
    rcases hverdict.settled hon with heq | hverified | ⟨e', hm', u, hfound, hinactive⟩
    · exact hne heq
    · have htrue := hverified e hm y ⟨_, hread⟩
      rw [hunverified] at htrue
      cases htrue
    · exact hinactive (hlogin.user e' u (mem_entriesOf.mp hm') hfound).2
  · intro hoff heq
    have hon := hverdict.asked heq
    rw [hoff] at hon
    cases hon

end

end

end SoulAuth

namespace SoulAuth.Sample

open Framework Framework.System

/-- Alice registers, follows the link, and logs in. -/
def loggedInVerified : List (server).Action :=
  start verifying (.register registration "ip".toList) :: steps 0 14 ++
    start verifying (.verifyEmail (numbered 'u' 1) "ip".toList) :: steps 1 9

def loginAfterwards : List (server).Action :=
  start verifying (.login registration.email password "ip".toList) :: steps 2 8

/-- What her registration creates. -/
def aliceUnverified : HumanAggregate :=
  NewHuman.aggregate
    { email := registration.email, username := "alice".toList,
      usernameNormalized := "alice".toList, emailVerified := false,
      verificationTokenHash := some (hashBearer (numbered 'u' 1)),
      verificationTokenExpiresAt := some 86400, passwordHash := some (hashOf 0 password),
      binding := none }
    ⟨numbered 'u' 2, numbered 'u' 3, numbered 'u' 4, numbered 'u' 5, numbered 'u' 6,
      numbered 'u' 7⟩ 0

/-- The users that a request has read, all of them Alice and active. -/
def readsActive (c : (server).Conf) (j : Nat) : Bool :=
  (entriesOf j c.trace).all fun e => (userReadBy e).all fun u =>
    decide (u.key = aliceUnverified.user.key ∧ u.accountStatus = .active)

theorem readsActive_spec {c : (server).Conf} {j : Nat} (h : readsActive c j = true)
    {e : Entry machine} {u : User} (hm : (j, e) ∈ c.trace) (hu : UserFound e u) :
    u.key = aliceUnverified.user.key ∧ u.accountStatus = .active := by
  obtain ⟨email, ha⟩ := hu
  have hread : userReadBy e = some u := by
    have hreply := ha.reply
    simp only [DbStmt.exec, IdentityStmt.exec, UserStmt.exec, Except.ok.injEq] at hreply
    unfold userReadBy
    rw [ha.stmt]
    show (if e.ctx.fault = none then _ else none) = some u
    rw [if_pos ha.sound]
    exact hreply
  have hall := List.all_eq_true.mp h e (mem_entriesOf.mpr hm)
  rw [hread] at hall
  exact of_decide_eq_true hall

/-- Whether a request has been answered with a session of Alice. -/
def signedAliceIn (r : Option (Except Failure Reply)) : Bool :=
  match r with
  | some (.ok (.session issued)) => issued.user.id = aliceUnverified.user.key
  | _ => false

theorem signedAliceIn_spec {r : Option (Except Failure Reply)} (h : signedAliceIn r = true) :
    ∃ issued, r = some (.ok (.session issued)) ∧ issued.user.id = aliceUnverified.user.key := by
  unfold signedAliceIn at h
  split at h
  · next issued => exact ⟨issued, rfl, of_decide_eq_true h⟩
  · cases h

/-- What happens in the run. -/
theorem loggedInVerified_facts :
    let c := after loggedInVerified
    let c' := c.run loginAfterwards
    let history := entriesOf (S := server) 2 c'.trace
    answersAt (entriesOf (S := server) 0 c.trace) 12
        (.identity (.createHuman aliceUnverified)) () = true ∧
      signedAliceIn (c.outcome 1) = true ∧
      (history[4]?).map Entry.stmt =
        some (Stmt.verifyPassword (hashOf 0 password) password) ∧
      readsActive c' 2 = true ∧
      answersAt history 5 (.identity (.user (.subjectOf aliceUnverified.user.key)))
        (some aliceUnverified.actor.key) = true ∧
      answersAt history 6 (.identity (.actor (.find aliceUnverified.actor.key)))
        (some aliceUnverified.actor) = true ∧
      answersAt history 7 (.identity (.accountOfActor aliceUnverified.actor.key))
        (some aliceUnverified.account) = true ∧
      c'.outcome 2 = some (.error (.auth .emailNotVerified)) := by
  decide +kernel

theorem alice_verified : VerifiedHuman (after loggedInVerified) 0 1 aliceUnverified := by
  obtain ⟨hcreated, hverified, -⟩ := loggedInVerified_facts
  constructor
  · exact ⟨verifying, registration, "ip".toList, by decide, rfl⟩
  · obtain ⟨e, hm, ha⟩ := answered_of_answersAt hcreated
    exact ⟨e, mem_entriesOf.mp hm, ha⟩
  · obtain ⟨issued, hout, hid⟩ := signedAliceIn_spec hverified
    exact ⟨verifying, numbered 'u' 1, "ip".toList, issued, by decide,
      Conf.returned_of_outcome hout, hid⟩

theorem alice_correct :
    CorrectLogin ((after loggedInVerified).run loginAfterwards) 2 verifying aliceUnverified := by
  obtain ⟨-, -, hpassword, hactive, hsubject, hroot, haccount, -⟩ := loggedInVerified_facts
  constructor
  · refine ⟨registration.email, password, "ip".toList, by decide, ?_⟩
    obtain ⟨e, he, hstmt⟩ := Option.map_eq_some_iff.mp hpassword
    exact ⟨e, hashOf 0 password, mem_entriesOf.mp (List.mem_of_getElem? he), hstmt, by decide⟩
  · intro e u hm hu
    exact readsActive_spec hactive hm hu
  · refine ⟨aliceUnverified.actor, aliceUnverified.actor.key, answered_of_answersAt hsubject, ?_⟩
    constructor
    · exact answered_of_answersAt hroot
    · rfl
    · rfl
    · exact ⟨_, answered_of_answersAt haccount⟩

/-- Alice is refused, by a server that asks for the verification. -/
theorem verified_login_iff_alice :
    (Except.error (.auth .emailNotVerified) : Except Failure Reply) ≠
        .error (.auth .emailNotVerified) ↔
      verifying.emailVerificationEnabled = false := by
  obtain ⟨-, -, -, -, -, -, -, hout⟩ := loggedInVerified_facts
  exact verified_login_iff (after_reachable _) alice_verified loginAfterwards alice_correct
    (Conf.returned_of_outcome hout)

/-- She has followed the link, and still her address counts as unverified. -/
theorem verified_login_fails : ¬ ∀ (c : (server).Conf) (i k j : Nat) (a : HumanAggregate)
    (as : List (server).Action) (cfg : Config) (r : Except Failure Reply),
    Reachable (World.fresh 0) c → VerifiedHuman c i k a → CorrectLogin (c.run as) j cfg a →
      (c.run as).Returned j r → r ≠ .error (.auth .emailNotVerified) := by
  intro hclaim
  obtain ⟨-, -, -, -, -, -, -, hout⟩ := loggedInVerified_facts
  exact hclaim _ 0 1 2 aliceUnverified loginAfterwards verifying _ (after_reachable _)
    alice_verified alice_correct (Conf.returned_of_outcome hout) rfl

end SoulAuth.Sample
