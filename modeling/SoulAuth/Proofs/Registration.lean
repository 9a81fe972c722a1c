import SoulAuth.Proofs.FaultyRuns
import SoulAuth.Proofs.Tables

/-! # Registrations that fail

The rows of a new human are committed in one transaction. The registration
goes on after it: it reads the new row back and, unless the email address
has to be verified first, writes the time of the login and a session. An
error in this part is an error of the registration, and the account is
there.
-/

namespace SoulAuth

open Framework Framework.Prog

section

variable [Platform]

/-- The outcome, the world and the statements of a registration that is on
    its own. -/
def registerAlone (cfg : Config) (req : CreateUserRequest) (ip : Str) (cs : Nat → Ctx)
    (w : World) : Except AuthError (UserResponse × Option IssuedSession) × World ×
      List (Entry machine) :=
  (register cfg req ip).runAlone cs w

/-- No user, actor, account, credential or session is there that was not
    there before. -/
structure NothingCreated (db db' : Db) : Prop where
  users : ∀ u' ∈ db'.identity.users, ∃ u ∈ db.identity.users, u.key = u'.key
  actors : ∀ a' ∈ db'.identity.actors, ∃ a ∈ db.identity.actors, a.key = a'.key
  accounts : ∀ a' ∈ db'.identity.accounts, ∃ a ∈ db.identity.accounts, a.key = a'.key
  credentials : ∀ c' ∈ db'.identity.credentials, ∃ c ∈ db.identity.credentials, c.key = c'.key
  sessions : ∀ s' ∈ db'.sessions, ∃ s ∈ db.sessions, s.key = s'.key

/-! ## Up to the transaction -/

/-- The values of the request that pass the checks. -/
structure Checked (cfg : Config) (req : CreateUserRequest) (email username : Str) : Prop where
  emailValid : validateEmail req.email = .ok email
  passwordValid : validatePassword req.password cfg.passwordMinLength = .ok ()
  usernameValid : ∃ submitted, ((req.username.map Str.trim).filter fun u => u ≠ []) = some submitted ∧
    validateUsername submitted = .ok username
  nonempty : normalizeUsername username ≠ []

/-- The keys that `create_human_aggregate` draws from number `n` on. -/
def humanKeys (n : Nat) : HumanKeys :=
  ⟨Platform.uuid n, Platform.uuid (n + 1), Platform.uuid (n + 2), Platform.uuid (n + 3),
    Platform.uuid (n + 4), Platform.uuid (n + 5)⟩

/-- The number of values drawn before the transaction draws its keys: a
    salt, and a verification token while verification is on. -/
def drawnBefore (cfg : Config) : Nat := if cfg.emailVerificationEnabled then 2 else 1

/-- The keys that the transaction draws. -/
def registrationKeys (cfg : Config) (w : World) : HumanKeys :=
  humanKeys (w.drawn + drawnBefore cfg)

/-- No row has a key, an email address or a username of the new human. -/
structure HumanIsNew (t : IdentityTables) (email usernameNormalized : Str) (k : HumanKeys) :
    Prop where
  actor : ∀ a ∈ t.actors, a.key ≠ k.actor ∧ a.subjectKey ≠ k.subject
  account : ∀ a ∈ t.accounts, a.email ≠ email ∧ a.usernameNormalized ≠ usernameNormalized ∧
    a.actorIdentityId ≠ k.actor
  user : ∀ u ∈ t.users, u.email ≠ email ∧ u.usernameNormalized ≠ usernameNormalized ∧
    u.key ≠ k.user
  credential : ∀ c ∈ t.credentials, c.actorIdentityId ≠ k.actor

/-- The number of the statement that commits the transaction. -/
def commitNumber (cfg : Config) : Nat := if cfg.emailVerificationEnabled then 12 else 11

/-- The registration gets to commit the new human: the request passes the
    checks, nothing is taken, and the two lookups and the transaction are let
    through. -/
structure CommitsHuman (cfg : Config) (req : CreateUserRequest) (cs : Nat → Ctx) (w : World) :
    Prop where
  human : ∃ email username, Checked cfg req email username ∧
    HumanIsNew w.db.identity email (normalizeUsername username) (registrationKeys cfg w)
  email : (cs 0).fault = none
  username : (cs 1).fault = none
  executes : (cs (commitNumber cfg)).Executes

/-! ## After the transaction -/

/-- The key of the session that is created at the end. -/
def registrationSessionKey (w : World) : Str := Platform.uuid (w.drawn + 7)

/-- The bearer of that session. -/
def registrationClaims (cfg : Config) (cs : Nat → Ctx) (w : World) : Claims :=
  let now := clockAt cs w.now 16
  { sub := (registrationKeys cfg w).actor, exp := now + cfg.sessionTtlSeconds, iat := now,
    sessionId := some (registrationSessionKey w), subjectType := some .human }

/-- No session has its key or its bearer. -/
def SessionIsNew (cfg : Config) (cs : Nat → Ctx) (w : World) : Prop :=
  ∀ s ∈ w.db.sessions, s.key ≠ registrationSessionKey w ∧
    s.tokenHash ≠ hashBearer (registrationClaims cfg cs w)

/-- The part that follows the transaction while verification is off: the
    new row is written once more, the credential is looked up, the session
    is created, and the credential is looked up again. -/
structure SignsIn (cfg : Config) (cs : Nat → Ctx) (w : World) : Prop where
  login : (cs 14).fault = none
  credential : (cs 15).fault = none
  session : (cs 18).fault = none
  new : SessionIsNew cfg cs w
  password : (cs 19).fault = none

/-- Nothing comes in the way once the transaction is committed. -/
structure FinishesRegistration (cfg : Config) (cs : Nat → Ctx) (w : World) : Prop where
  commit : (cs (commitNumber cfg)).fault = none
  reread : (cs (commitNumber cfg + 1)).fault = none
  signsIn : cfg.emailVerificationEnabled = false → SignsIn cfg cs w

section

omit [Platform]

theorem NothingCreated.refl (db : Db) : NothingCreated db db where
  users u hu := ⟨u, hu, rfl⟩
  actors a ha := ⟨a, ha, rfl⟩
  accounts a ha := ⟨a, ha, rfl⟩
  credentials c hc := ⟨c, hc, rfl⟩
  sessions s hs := ⟨s, hs, rfl⟩

theorem not_nothingCreated {db db' : Db} {key : Str}
    (hnew : ∀ u ∈ db.identity.users, u.key ≠ key)
    (hthere : ∃ u' ∈ db'.identity.users, u'.key = key) : ¬ NothingCreated db db' := by
  intro hnothing
  obtain ⟨u', hu', hkey'⟩ := hthere
  obtain ⟨u, hu, hkey⟩ := hnothing.users u' hu'
  exact hnew u hu (hkey.trans hkey')

theorem check_eq_none {α : Type} {c : Prop} [Decidable c] {x : α} {o : Option α} :
    (if c then some x else o) = none ↔ ¬ c ∧ o = none := by
  by_cases hc : c
  · simp [hc]
  · simp [hc]

/-- The transaction accepts the rows of a new human. -/
theorem violation_iff {t : IdentityTables} {h : NewHuman} {k : HumanKeys} {now : Timestamp}
    {p : Str} (hpassword : h.passwordHash = some p) (hbinding : h.binding = none) :
    (h.aggregate k now).violation t = none ↔ HumanIsNew t h.email h.usernameNormalized k := by
  unfold HumanAggregate.violation NewHuman.aggregate
  simp only [hpassword, hbinding, Option.map_some, Option.map_none, Option.any_some,
    Option.any_none, check_eq_none, List.any_eq_true, not_exists, not_and, Bool.or_eq_true,
    decide_eq_true_eq, not_or, Bool.false_eq_true]
  constructor
  · intro ⟨hactor, hemail, hname, howner, huserEmail, huserName, huserKey, hcredential, _⟩
    constructor
    · exact hactor
    · exact fun a ha => ⟨hemail a ha, hname a ha, howner a ha⟩
    · exact fun u hu => ⟨huserEmail u hu, huserName u hu, huserKey u hu⟩
    · exact hcredential
  · intro hnew
    exact ⟨hnew.actor, fun a ha => (hnew.account a ha).1, fun a ha => (hnew.account a ha).2.1,
      fun a ha => (hnew.account a ha).2.2, fun u hu => (hnew.user u hu).1,
      fun u hu => (hnew.user u hu).2.1, fun u hu => (hnew.user u hu).2.2, hnew.credential,
      by simp⟩

/-- The database with the rows of a new human. -/
def Db.withHuman (db : Db) (h : HumanAggregate) : Db :=
  { db with identity :=
    { users := db.identity.users ++ [h.user]
      actors := db.identity.actors ++ [h.actor]
      accounts := db.identity.accounts ++ [h.account]
      credentials := db.identity.credentials ++ h.credential.toList
      bindings := db.identity.bindings ++ h.binding.toList } }

end

section

variable {cs : Nat → Ctx} {db : Db} {now : Timestamp} {n : Nat}

/-- The transaction, its statements counted from the time at which it reads
    the clock. -/
theorem runs_createHuman_bind {α : Type} {h : NewHuman} {p : Str} {f : Str × Str → Req AuthError α}
    {Q : Except AuthError α → World → (Nat → Ctx) → Prop} (hpassword : h.passwordHash = some p)
    (hbinding : h.binding = none)
    (hok : (cs 7).fault = none →
      HumanIsNew db.identity h.email h.usernameNormalized (humanKeys n) →
      Runs (f ((humanKeys n).actor, (humanKeys n).user)) (later 8 cs)
        ⟨db.withHuman (h.aggregate (humanKeys n) (clockAt cs now 0)), clockAt cs now 7, n + 6⟩ Q)
    (hlost : ∀ x, (cs 7).fault = some .lostReply →
      HumanIsNew db.identity h.email h.usernameNormalized (humanKeys n) →
      Q (.error x)
        ⟨db.withHuman (h.aggregate (humanKeys n) (clockAt cs now 0)), clockAt cs now 7, n + 6⟩
        (later 8 cs))
    (hnot : ∀ x, ¬ ((cs 7).Executes ∧
        HumanIsNew db.identity h.email h.usernameNormalized (humanKeys n)) →
      Q (.error x) ⟨db, clockAt cs now 7, n + 6⟩ (later 8 cs)) :
    Runs (Prog.mapError translateUniqueViolation (createHumanAggregate h) >>= f) cs
      ⟨db, now, n⟩ Q := by
  rw [runs_bind, runs_mapError]
  unfold createHumanAggregate
  rw [runs_getNow_bind]
  repeat rw [runs_newUuid_bind]
  simp only [later_later, later_apply, Nat.reduceAdd]
  apply runs_insert_bind
    (P := HumanIsNew db.identity h.email h.usernameNormalized (humanKeys n))
    (d := db.withHuman (h.aggregate (humanKeys n) (clockAt cs now 0)))
  · intro hnew
    refine ⟨(), ?_⟩
    show DbStmt.exec _ (.identity (.createHuman (h.aggregate (humanKeys n) (clockAt cs now 0)))) _ = _
    simp only [DbStmt.exec, IdentityStmt.exec, HumanAggregate.create,
      (violation_iff hpassword hbinding).mpr hnew]
    rfl
  · intro hclash
    rcases hviolation : (h.aggregate (humanKeys n) (clockAt cs now 0)).violation db.identity with _ | x
    · exact absurd ((violation_iff hpassword hbinding).mp hviolation) hclash
    · refine ⟨x, ?_⟩
      show DbStmt.exec _ (.identity (.createHuman
        (h.aggregate (humanKeys n) (clockAt cs now 0)))) _ = _
      simp only [DbStmt.exec, IdentityStmt.exec, HumanAggregate.create, hviolation]
  · intro _ hsound hnew
    show Runs (f _) (later 1 (later 7 cs)) _ Q
    rw [later_later]
    exact hok hsound hnew
  · intro x hlostReply hnew
    show Q (.error _) _ (later 1 (later 7 cs))
    rw [later_later]
    exact hlost _ hlostReply hnew
  · intro x hno
    show Q (.error _) _ (later 1 (later 7 cs))
    rw [later_later]
    exact hnot _ hno

/-! ## The sign-in of the new user -/

omit [Platform] in
/-- A row is written back under its own key, unless its address or its name
    is another row's. -/
theorem updateUser_exec {key address : Str} {content : User} (haddress : address = key)
    (hthere : ∃ u ∈ db.identity.users, u.key = key)
    (hothers : ∀ u ∈ db.identity.users, u.key ≠ key →
      u.email ≠ content.email ∧ u.usernameNormalized ≠ content.usernameNormalized) :
    DbStmt.exec now (.identity (.user (.update address content))) db =
      (.ok { content with key := key }, { db with identity := { db.identity with
        users := db.identity.users.map fun u =>
          if u.key = key then { content with key := key } else u } }) := by
  subst haddress
  have hany : (db.identity.users.any fun u => u.key = address) = true := by
    simpa using hthere
  have hemail : ¬ (db.identity.users.any fun u =>
      u.key ≠ address && u.email = content.email) = true := by
    simpa using fun u hu hkey => (hothers u hu hkey).1
  have hname : ¬ (db.identity.users.any fun u =>
      u.key ≠ address && u.usernameNormalized = content.usernameNormalized) = true := by
    simpa using fun u hu hkey => (hothers u hu hkey).2
  simp only [DbStmt.exec, IdentityStmt.exec, UserStmt.exec, if_pos hany, if_neg hemail,
    if_neg hname]

/-- The row with the key of a new user, and the rows of the others. -/
structure HasNewUser (u : User) (db : Db) : Prop where
  there : ∃ u' ∈ db.identity.users, u'.key = u.key
  others : ∀ u' ∈ db.identity.users, u'.key ≠ u.key →
    u'.email ≠ u.email ∧ u'.usernameNormalized ≠ u.usernameNormalized

/-- The time and the address of a login are written into the row. Whether or
    not that is reported, the row is still there. -/
theorem runs_touchLastLogin_bind {α : Type} {u : User} {ip : Str} {m : Nat}
    {f : User → Req AuthError α} {Q : Except AuthError α → World → (Nat → Ctx) → Prop}
    (hkey : u.key = Platform.uuid m) (hu : HasNewUser u db)
    (hok : ∀ v db', (cs 1).fault = none → v.subjectId = u.subjectId →
      (∃ u' ∈ db'.identity.users, u'.key = u.key) → db'.sessions = db.sessions →
      Runs (f v) (later 2 cs) ⟨db', clockAt cs now 1, n⟩ Q)
    (herr : ∀ x db', (cs 1).fault ≠ none → (∃ u' ∈ db'.identity.users, u'.key = u.key) →
      Q (.error x) ⟨db', clockAt cs now 1, n⟩ (later 2 cs)) :
    Runs (touchLastLogin u ip >>= f) cs ⟨db, now, n⟩ Q := by
  have haddress : idArgumentKey (userAddress u.key) = u.key := by
    rw [hkey]
    exact (isPlainKey_uuid m).idArgumentKey_address (by decide)
  have hkept : ∀ v : User, v.key = u.key →
      ∃ u' ∈ db.identity.users.map (fun r => if r.key = u.key then v else r), u'.key = u.key := by
    intro v hv
    obtain ⟨u', hu', hk⟩ := hu.there
    refine ⟨_, List.mem_map_of_mem hu', ?_⟩
    rw [if_pos hk]
    exact hv
  unfold touchLastLogin updateUser
  rw [bind_assoc, runs_getNow_bind]
  refine runs_exec_bind (updateUser_exec haddress hu.there ?_) ?_ ?_
  · exact hu.others
  · intro hsound
    rw [later_later]
    exact hok _ _ hsound rfl (hkept _ rfl) rfl
  · intro x db' hfault hdb
    rw [later_later]
    apply herr x db' hfault
    by_cases hexecutes : (later 1 cs 0).Executes
    · rw [hdb, if_pos hexecutes]
      exact hkept _ rfl
    · rw [hdb, if_neg hexecutes]
      exact hu.there

section

omit [Platform]

theorem createSession_new {s : Session}
    (h : ∀ r ∈ db.sessions, r.key ≠ s.key ∧ r.tokenHash ≠ s.tokenHash) :
    DbStmt.exec now (.session (.create s)) db =
      (.ok (), { db with sessions := db.sessions ++ [s] }) := by
  have hkey : ¬ (db.sessions.any fun r => r.key = s.key) = true := by
    simpa using fun r hr => (h r hr).1
  have hhash : ¬ (db.sessions.any fun r => r.tokenHash = s.tokenHash) = true := by
    simpa using fun r hr => (h r hr).2
  simp only [DbStmt.exec, SessionStmt.exec, if_neg hkey, if_neg hhash]

theorem createSession_clash {s : Session}
    (h : ¬ ∀ r ∈ db.sessions, r.key ≠ s.key ∧ r.tokenHash ≠ s.tokenHash) :
    ∃ x, DbStmt.exec now (.session (.create s)) db = (.error x, db) := by
  simp only [DbStmt.exec, SessionStmt.exec]
  by_cases hkey : (db.sessions.any fun r => r.key = s.key) = true
  · rw [if_pos hkey]
    exact ⟨_, rfl⟩
  by_cases hhash : (db.sessions.any fun r => r.tokenHash = s.tokenHash) = true
  · rw [if_neg hkey, if_pos hhash]
    exact ⟨_, rfl⟩
  apply absurd _ h
  intro r hr
  have hkey' : ∀ r ∈ db.sessions, r.key ≠ s.key := by simpa using hkey
  have hhash' : ∀ r ∈ db.sessions, r.tokenHash ≠ s.tokenHash := by simpa using hhash
  exact ⟨hkey' r hr, hhash' r hr⟩

end

/-- What a registration still does for the row that it has read back. -/
def signInNew (cfg : Config) (created : User) (ip : Str) :
    Req AuthError (UserResponse × Option IssuedSession) := do
  let created ← touchLastLogin created ip
  let passwordRef ← passwordRefOf created
  let issued ← createSession cfg created [.password] passwordRef.toList
  return (issued.user, some issued)

/-- The bearer of the session that a sign-in creates, its statements counted
    from the first. -/
def signInClaims (cfg : Config) (actorKey : Str) (cs : Nat → Ctx) (now : Timestamp) (n : Nat) :
    Claims :=
  { sub := actorKey, exp := clockAt cs now 3 + cfg.sessionTtlSeconds, iat := clockAt cs now 3,
    sessionId := some (Platform.uuid n), subjectType := some .human }

/-- The database accepts that session. -/
def AcceptsSession (cfg : Config) (actorKey : Str) (cs : Nat → Ctx) (now : Timestamp) (n : Nat)
    (db : Db) : Prop :=
  ∀ s ∈ db.sessions, s.key ≠ Platform.uuid n ∧
    s.tokenHash ≠ hashBearer (signInClaims cfg actorKey cs now n)

/-- The request gets done under the condition `F` and fails otherwise. -/
def Decides {ε α : Type} (F : Prop) (r : Except ε α) : Prop :=
  F ∧ (∃ a, r = .ok a) ∨ ¬ F ∧ ∃ x, r = .error x

omit [Platform] in
theorem Decides.congr {ε α : Type} {F F' : Prop} {r : Except ε α} (h : Decides F r)
    (hF : F ↔ F') : Decides F' r := by
  rw [← hF]
  exact h

/-- The row of the new user stays, whatever becomes of the sign-in. -/
theorem signInNew_runs {cfg : Config} {u : User} {ip actorKey : Str} {m : Nat}
    (hkey : u.key = Platform.uuid m) (hactor : u.subjectId = some actorKey) (hu : HasNewUser u db) :
    Runs (signInNew cfg u ip) cs ⟨db, now, n⟩ fun r w' _ =>
      (∃ u' ∈ w'.db.identity.users, u'.key = u.key) ∧
      Decides ((cs 1).fault = none ∧ (cs 2).fault = none ∧ (cs 5).fault = none ∧
        AcceptsSession cfg actorKey cs now n db ∧ (cs 6).fault = none) r := by
  unfold signInNew
  apply runs_touchLastLogin_bind hkey hu
  · intro v db' hsound hsubject hthere hsessions
    have hsubject' : v.subjectId = some actorKey := hsubject.trans hactor
    unfold passwordRefOf createSession hasPassword activePasswordHash activePassword findPassword
    simp only [hsubject', bind_assoc, pure_bind]
    apply runs_read_bind rfl
    · intro hcredential
      rw [runs_getNow_bind, runs_newUuid_bind]
      apply runs_orThrow_bind
      · intro actorKey' hactor'
        cases hactor'
        have haccepts : AcceptsSession cfg actorKey cs now n db' ↔
            AcceptsSession cfg actorKey cs now n db := by
          unfold AcceptsSession
          rw [hsessions]
        simp only [later_later, Nat.reduceAdd]
        apply runs_insert_bind (P := AcceptsSession cfg actorKey cs now n db')
        · intro hnew
          exact ⟨(), createSession_new hnew⟩
        · intro hclash
          exact createSession_clash hclash
        · intro _ hsession hnew
          rw [later_later]
          apply runs_read_bind rfl
          · intro hpassword
            exact ⟨hthere, .inl ⟨⟨hsound, hcredential, hsession, haccepts.mp hnew, hpassword⟩,
              _, rfl⟩⟩
          · intro x hfault
            refine ⟨hthere, .inr ⟨?_, x, rfl⟩⟩
            intro hall
            exact hfault hall.2.2.2.2
        · intro x hlost _
          refine ⟨hthere, .inr ⟨?_, x, rfl⟩⟩
          intro hall
          cases hlost.symm.trans hall.2.2.1
        · intro x hnot
          refine ⟨hthere, .inr ⟨?_, x, rfl⟩⟩
          intro hall
          exact hnot ⟨.inl hall.2.2.1, haccepts.mpr hall.2.2.2.1⟩
      · intro hnone
        cases hnone
    · intro x hfault
      refine ⟨hthere, .inr ⟨?_, x, rfl⟩⟩
      intro hall
      exact hfault hall.2.1
  · intro x db' hfault hthere
    refine ⟨hthere, .inr ⟨?_, x, rfl⟩⟩
    intro hall
    exact hfault hall.1

end

/-! ## The registration -/

section

variable {cfg : Config} {req : CreateUserRequest} {ip : Str} {cs : Nat → Ctx} {w : World}

/-- What a registration still does once the new human is committed. -/
def afterCommit (cfg : Config) (ip : Str) (verification : Option (Str × Timestamp))
    (keys : Str × Str) : Req AuthError (UserResponse × Option IssuedSession) := do
  let found : Option User ← findUserById (userAddress keys.2)
  let created ← Prog.orThrow (.databaseError "刚建的 user 行读不回来".toList) found
  match verification with
  | some _ => return (.of created true, none)
  | none => signInNew cfg created ip

/-- The registration, as its checks, the transaction and the rest. -/
theorem register_eq : register cfg req ip = (do
    let email ← Prog.ofExcept (validateEmail req.email)
    Prog.ofExcept (validatePassword req.password cfg.passwordMinLength)
    let submitted ← Prog.orThrow (.validationError "Username is required")
      ((req.username.map Str.trim).filter fun u => u ≠ [])
    let username ← Prog.ofExcept (validateUsername submitted)
    let existing : Option User ← findUserByEmail email
    Prog.ensure (existing = none) .emailExists
    let usernameNormalized ← ensureUsernameAvailable username
    let passwordHash ← hashPassword req.password
    let now ← getNow
    let verification ← drawVerificationToken cfg now
    let keys ← Prog.mapError translateUniqueViolation <| createHumanAggregate
      { email := email, username := username, usernameNormalized := usernameNormalized
        emailVerified := !cfg.emailVerificationEnabled
        verificationTokenHash := verification.map fun v => hashBearer v.1
        verificationTokenExpiresAt := verification.map Prod.snd
        passwordHash := some passwordHash, binding := none }
    afterCommit cfg ip verification keys) := rfl

/-- The rest of a registration, its statements counted from the one that
    reads the new row back. -/
theorem afterCommit_runs {db : Db} {now : Timestamp} {n m : Nat} {h : NewHuman}
    {verification : Option (Str × Timestamp)}
    (hnew : HumanIsNew db.identity h.email h.usernameNormalized (humanKeys m)) {t : Timestamp} :
    Runs (afterCommit cfg ip verification ((humanKeys m).actor, (humanKeys m).user)) cs
      ⟨db.withHuman (h.aggregate (humanKeys m) t), now, n⟩ fun r w' _ =>
      ¬ NothingCreated db w'.db ∧
      Decides ((cs 0).fault = none ∧ (verification = none →
        (cs 2).fault = none ∧ (cs 3).fault = none ∧ (cs 6).fault = none ∧
        AcceptsSession cfg (humanKeys m).actor (later 1 cs) (now + (cs 0).elapsed) n db ∧
        (cs 7).fault = none)) r := by
  -- the new row is the only one with its key
  have hfind : ∀ k, k = (humanKeys m).user →
      (db.withHuman (h.aggregate (humanKeys m) t)).identity.users.find? (fun u => u.key = k) =
        some (h.aggregate (humanKeys m) t).user := by
    intro k hk
    subst hk
    show (db.identity.users ++ [(h.aggregate (humanKeys m) t).user]).find? _ = _
    rw [List.find?_append, List.find?_eq_none.mpr]
    · simp [NewHuman.aggregate]
    · intro u hu
      simpa using (hnew.user u hu).2.2
  have hthere : ∃ u ∈ (db.withHuman (h.aggregate (humanKeys m) t)).identity.users,
      u.key = (humanKeys m).user :=
    ⟨_, List.mem_append_right _ (List.mem_singleton_self _), rfl⟩
  have haddress : idArgumentKey (userAddress (humanKeys m).user) = (humanKeys m).user :=
    (isPlainKey_uuid (m + 1)).idArgumentKey_address (by decide)
  have hcreated : ∀ db', (∃ u ∈ db'.identity.users, u.key = (humanKeys m).user) →
      ¬ NothingCreated db db' := fun db' =>
    not_nothingCreated fun u hu => (hnew.user u hu).2.2
  unfold afterCommit findUserById
  apply runs_read_bind rfl
  · intro hread
    simp only [hfind _ haddress]
    apply runs_orThrow_bind
    swap
    · intro hnone
      cases hnone
    intro u hu
    cases hu
    rcases verification with _ | v
    · have huser : HasNewUser (h.aggregate (humanKeys m) t).user
          (db.withHuman (h.aggregate (humanKeys m) t)) := by
        refine ⟨hthere, ?_⟩
        intro u hu hother
        rcases List.mem_append.mp hu with hu | hu
        · exact ⟨(hnew.user u hu).1, (hnew.user u hu).2.1⟩
        · rw [List.mem_singleton.mp hu] at hother
          exact absurd rfl hother
      apply (signInNew_runs (m := m + 1) rfl rfl huser).weaken
      intro r w' _ hends
      apply And.intro (hcreated w'.db hends.1)
      apply hends.2.congr
      constructor
      · intro hsigns
        exact ⟨hread, fun _ => hsigns⟩
      · intro hall
        exact hall.2 rfl
    · exact ⟨hcreated _ hthere, .inl ⟨⟨hread, nofun⟩, _, rfl⟩⟩
  · intro x hfault
    refine ⟨hcreated _ hthere, .inr ⟨?_, x, rfl⟩⟩
    intro hall
    exact hfault hall.1

/-- The transaction and the rest, their statements counted from the one that
    reads the clock. -/
theorem commit_runs {db : Db} {now : Timestamp} {n : Nat} {h : NewHuman} {p : Str}
    {verification : Option (Str × Timestamp)} (hpassword : h.passwordHash = some p)
    (hbinding : h.binding = none) :
    Runs (Prog.mapError translateUniqueViolation (createHumanAggregate h) >>=
        afterCommit cfg ip verification) cs ⟨db, now, n⟩ fun r w' _ =>
      Settles
        ((cs 7).Executes ∧ HumanIsNew db.identity h.email h.usernameNormalized (humanKeys n))
        ((cs 7).fault = none ∧ (cs 8).fault = none ∧ (verification = none →
          (cs 10).fault = none ∧ (cs 11).fault = none ∧ (cs 14).fault = none ∧
          AcceptsSession cfg (humanKeys n).actor (later 9 cs) (clockAt cs now 8) (n + 6) db ∧
          (cs 15).fault = none))
        (NothingCreated db w'.db) r := by
  apply runs_createHuman_bind hpassword hbinding
  · intro hsound hnew
    apply (afterCommit_runs hnew).weaken
    intro r w' _ hends
    simp only [later_later, later_apply, Nat.reduceAdd] at hends
    obtain ⟨hleft, ⟨hfinishes, hok⟩ | ⟨hfails, herr⟩⟩ := hends
    · exact .finished ⟨.inl hsound, hnew⟩ ⟨hsound, hfinishes⟩ hok
    · apply Settles.stranded ⟨.inl hsound, hnew⟩ _ herr hleft
      intro hall
      exact hfails hall.2
  · intro x hlost hnew
    apply Settles.stranded ⟨.inr hlost, hnew⟩ _ ⟨x, rfl⟩
    · apply not_nothingCreated fun u hu => (hnew.user u hu).2.2
      exact ⟨_, List.mem_append_right _ (List.mem_singleton_self _), rfl⟩
    · intro hall
      cases hlost.symm.trans hall.1
  · intro x hnot
    exact .refused hnot (.refl _)

theorem register_runs : Runs (register cfg req ip) cs w fun r w' _ =>
    Settles (CommitsHuman cfg req cs w) (FinishesRegistration cfg cs w)
      (NothingCreated w.db w'.db) r := by
  obtain ⟨db, now, n⟩ := w
  rw [register_eq]
  -- the checks of the request
  apply runs_ofExcept_bind
  swap
  · intro x hemail
    apply Settles.refused _ (.refl _)
    intro hcommits
    obtain ⟨email, username, hchecked, -⟩ := hcommits.human
    cases hemail.symm.trans hchecked.emailValid
  intro email hemail
  apply runs_ofExcept_bind
  swap
  · intro x hpassword
    apply Settles.refused _ (.refl _)
    intro hcommits
    obtain ⟨email, username, hchecked, -⟩ := hcommits.human
    cases hpassword.symm.trans hchecked.passwordValid
  intro _ hpassword
  apply runs_orThrow_bind
  swap
  · intro hnone
    apply Settles.refused _ (.refl _)
    intro hcommits
    obtain ⟨email, username, hchecked, -⟩ := hcommits.human
    obtain ⟨submitted, hsubmitted, -⟩ := hchecked.usernameValid
    cases hnone.symm.trans hsubmitted
  intro submitted hsubmitted
  apply runs_ofExcept_bind
  swap
  · intro x hname
    apply Settles.refused _ (.refl _)
    intro hcommits
    obtain ⟨email, username, hchecked, -⟩ := hcommits.human
    obtain ⟨submitted', hsubmitted', hname'⟩ := hchecked.usernameValid
    cases hsubmitted.symm.trans hsubmitted'
    cases hname.symm.trans hname'
  intro username hname
  have hvalues : CommitsHuman cfg req cs ⟨db, now, n⟩ → normalizeUsername username ≠ [] ∧
      HumanIsNew db.identity email (normalizeUsername username)
        (registrationKeys cfg ⟨db, now, n⟩) := by
    intro hcommits
    obtain ⟨email', username', hchecked, hnew⟩ := hcommits.human
    obtain ⟨submitted', hsubmitted', hname'⟩ := hchecked.usernameValid
    cases hemail.symm.trans hchecked.emailValid
    cases hsubmitted.symm.trans hsubmitted'
    cases hname.symm.trans hname'
    exact ⟨hchecked.nonempty, hnew⟩
  -- what is taken
  unfold findUserByEmail ensureUsernameAvailable findUserByUsername
  simp only [bind_assoc, pure_bind]
  apply runs_read_bind rfl
  swap
  · intro x hfault
    apply Settles.refused _ (.refl _)
    intro hcommits
    exact hfault hcommits.email
  intro hread
  apply runs_ensure_bind
  swap
  · intro hexists
    apply Settles.refused _ (.refl _)
    intro hcommits
    apply hexists
    apply List.find?_eq_none.mpr
    intro u hu
    simpa using ((hvalues hcommits).2.user u hu).1
  intro _
  apply runs_ensure_bind
  swap
  · intro hempty
    apply Settles.refused _ (.refl _)
    intro hcommits
    exact hempty (hvalues hcommits).1
  intro hnonempty
  apply runs_read_bind rfl
  swap
  · intro x hfault
    apply Settles.refused _ (.refl _)
    intro hcommits
    exact hfault hcommits.username
  intro hread'
  apply runs_ensure_bind
  swap
  · intro hexists
    apply Settles.refused _ (.refl _)
    intro hcommits
    apply hexists
    apply List.find?_eq_none.mpr
    intro u hu
    simpa using ((hvalues hcommits).2.user u hu).2.1
  intro _
  rw [runs_hashPassword_bind, runs_getNow_bind]
  simp only [later_later, later_apply, Nat.reduceAdd]
  unfold drawVerificationToken
  have hcommits : (cs (commitNumber cfg)).Executes ∧ HumanIsNew db.identity email
      (normalizeUsername username) (registrationKeys cfg ⟨db, now, n⟩) ↔
      CommitsHuman cfg req cs ⟨db, now, n⟩ := by
    constructor
    · intro hboth
      have hchecked : Checked cfg req email username :=
        ⟨hemail, hpassword, ⟨submitted, hsubmitted, hname⟩, hnonempty⟩
      exact ⟨⟨email, username, hchecked, hboth.2⟩, hread, hread', hboth.1⟩
    · intro hcommits
      exact ⟨hcommits.executes, (hvalues hcommits).2⟩
  cases hverify : cfg.emailVerificationEnabled with
  | true =>
    simp only [if_true, bind_assoc, pure_bind]
    rw [runs_newUuid_bind]
    rw [later_later]
    apply (commit_runs rfl rfl).weaken
    intro r w' _ hsettles
    simp only [later_apply, Nat.reduceAdd] at hsettles
    apply hsettles.congr
    · simp only [commitNumber, registrationKeys, drawnBefore, hverify, if_true] at hcommits
      exact hcommits
    · intro _
      constructor
      · intro hfinishes
        refine ⟨?_, ?_, ?_⟩
        · simpa only [commitNumber, hverify, if_true] using hfinishes.1
        · simpa only [commitNumber, hverify, if_true] using hfinishes.2.1
        · intro hoff
          cases hverify.symm.trans hoff
      · intro hfinishes
        have hcommit := hfinishes.commit
        have hreread := hfinishes.reread
        simp only [commitNumber, hverify, if_true] at hcommit hreread
        refine ⟨hcommit, hreread, ?_⟩
        intro hoff
        cases hoff
  | false =>
    simp only [if_false, pure_bind, Bool.false_eq_true]
    apply (commit_runs rfl rfl).weaken
    intro r w' _ hsettles
    simp only [later_later, later_apply, Nat.reduceAdd] at hsettles
    apply hsettles.congr
    · simp only [commitNumber, registrationKeys, drawnBefore, hverify, if_false,
        Bool.false_eq_true] at hcommits
      exact hcommits
    · intro _
      have hnew : AcceptsSession cfg (humanKeys (n + 1)).actor (later 13 cs)
          (clockAt (later 4 cs) (now + (cs 0).elapsed + (cs 1).elapsed + (cs 2).elapsed +
            (cs 3).elapsed) 8) (n + 1 + 6) db ↔ SessionIsNew cfg cs ⟨db, now, n⟩ := by
        simp only [SessionIsNew, registrationClaims, registrationKeys, drawnBefore, hverify, if_false,
          Bool.false_eq_true]
        exact Iff.rfl
      constructor
      · intro hfinishes
        obtain ⟨hcommit, hreread, hsigns⟩ := hfinishes
        refine ⟨?_, ?_, ?_⟩
        · simpa only [commitNumber, hverify, if_false, Bool.false_eq_true] using hcommit
        · simpa only [commitNumber, hverify, if_false, Bool.false_eq_true] using hreread
        · intro _
          obtain ⟨hlogin, hcredential, hsession, haccepts, hpassword⟩ := hsigns trivial
          exact ⟨hlogin, hcredential, hsession, hnew.mp haccepts, hpassword⟩
      · intro hfinishes
        have hcommit := hfinishes.commit
        have hreread := hfinishes.reread
        have hsigns := hfinishes.signsIn hverify
        simp only [commitNumber, hverify, if_false, Bool.false_eq_true] at hcommit hreread
        exact ⟨hcommit, hreread, fun _ => ⟨hsigns.login, hsigns.credential, hsigns.session,
          hnew.mpr hsigns.new, hsigns.password⟩⟩

/-- **Failing registrations.** If a registration returns an error, there is
    no user, actor, account, credential or session that was not there before,
    exactly if it has not got to commit the new human or nothing has come in
    its way after that. -/
theorem failed_register_creates_nothing_iff :
    (∀ x, (registerAlone cfg req ip cs w).1 = .error x →
      NothingCreated w.db (registerAlone cfg req ip cs w).2.1.db) ↔
    (CommitsHuman cfg req cs w → FinishesRegistration cfg cs w) := by
  have hsettles : Settles (CommitsHuman cfg req cs w) (FinishesRegistration cfg cs w)
      (NothingCreated w.db (registerAlone cfg req ip cs w).2.1.db)
      (registerAlone cfg req ip cs w).1 := register_runs.outcome
  exact hsettles.clean_iff

end

end

namespace Sample

/-- Alice registers in a fresh deployment, and her session cannot be
    written: she gets an error, and her account is there. -/
theorem failed_register_creates_nothing_fails : ¬ ∀ (cfg : Config) (req : CreateUserRequest)
    (ip : Str) (cs : Nat → Ctx) (w : World) (x : AuthError),
    (registerAlone cfg req ip cs w).1 = .error x →
    NothingCreated w.db (registerAlone cfg req ip cs w).2.1.db := by
  intro hall
  have hfails : (registerAlone config registration [] (refusedAt 18) (World.fresh 0)).1 =
      .error (.ofDb .connection) := by decide +kernel
  have hnothing := hall _ _ _ _ _ _ hfails
  have hthere : (registerAlone config registration [] (refusedAt 18)
      (World.fresh 0)).2.1.db.identity.users ≠ [] := by decide +kernel
  obtain ⟨u', hu'⟩ := List.exists_mem_of_ne_nil _ hthere
  obtain ⟨u, hu, -⟩ := hnothing.users u' hu'
  cases hu

end Sample

end SoulAuth
