import SoulAuth.Routes.System

/-! # What a request can write

Every statement that changes a table has an *effect*. The footprint of an
endpoint lists the effects of its program, so that a proof about one table
only follows the few programs that write it.
-/

namespace SoulAuth

open Framework

/-- The kinds of statements that change something a proof speaks about. -/
inductive Effect
  | createHuman
  | createActor
  | setActorStatus
  | updateUser
  | claimVerification
  | setAccountStatus
  | writeCredential
  | createSession
  | deleteSession
  | createResetToken
  | spendResetToken
  | writeClient
  | saveCode
  | consumeCode
  | deleteCode
  | saveAccess
  | deleteAccess
  | saveRefresh
  | consumeRefresh
  | deleteRefresh
  | writeLockout
  | writeMfa
  | writeAiCredential
  | createChallenge
  | consumeChallenge
  deriving DecidableEq, Repr

/-- The effect of a database statement; reads have none. -/
def DbStmt.effect : DbStmt → Option Effect
  | .identity (.user (.update _ _)) => some .updateUser
  | .identity (.user (.claimVerification _ _)) => some .claimVerification
  | .identity (.user (.setAccountStatus _ _ _)) => some .setAccountStatus
  | .identity (.user _) => none
  | .identity (.actor (.find _)) => none
  | .identity (.actor (.setStatus _ _ _)) => some .setActorStatus
  | .identity (.actor (.create _)) => some .createActor
  | .identity (.credential (.findPassword _)) => none
  | .identity (.credential _) => some .writeCredential
  | .identity (.createHuman _) => some .createHuman
  | .identity _ => none
  | .session (.create _) => some .createSession
  | .session (.isActive _ _) | .session (.isActiveByKey _ _) | .session (.authenticatedAt _)
  | .session (.findByToken _) => none
  | .session _ => some .deleteSession
  | .resetToken (.create _) => some .createResetToken
  | .resetToken (.find _) => none
  | .resetToken _ => some .spendResetToken
  | .client (.getActive _) => none
  | .client _ => some .writeClient
  | .code (.save _ _) => some .saveCode
  | .code (.get _) => none
  | .code (.consume _) => some .consumeCode
  | .code (.deleteExpired _) => some .deleteCode
  | .accessToken (.save _) => some .saveAccess
  | .accessToken (.get _) => none
  | .accessToken _ => some .deleteAccess
  | .refreshToken (.save _) => some .saveRefresh
  | .refreshToken (.get _) => none
  | .refreshToken (.consume _) => some .consumeRefresh
  | .refreshToken _ => some .deleteRefresh
  | .lockout (.get _ _) | .lockout (.attempts _) => none
  | .lockout _ => some .writeLockout
  | .mfa (.get _) => none
  | .mfa _ => some .writeMfa
  | .ai (.listCredentials _) => none
  | .ai (.createChallenge _) => some .createChallenge
  | .ai (.consumeChallenge _ _ _) => some .consumeChallenge
  | .ai _ => some .writeAiCredential

/-- The effect of a step of a request. -/
def Stmt.effect : Stmt → Option Effect
  | .db s => s.effect
  | _ => none

/-- A statement whose effect, if it has one, is on the list. -/
def Stmt.Within (L : List Effect) (s : Stmt) : Prop := ∀ x, s.effect = some x → x ∈ L

theorem Stmt.Within.reads {s : Stmt} (hs : s.Within []) : s.effect = none := by
  rcases heffect : s.effect with _ | x
  · rfl
  · exact absurd (hs x heffect) List.not_mem_nil

variable [Platform]

/-- A program all of whose effects are on the list. -/
def Within {ε α : Type} (L : List Effect) (p : Req ε α) : Prop :=
  Prog.Only (Stmt.Within L) p

section

variable {ε ε' α β : Type} {L L' : List Effect}

theorem Within.mono {p : Req ε α} (hp : Within L p) (h : ∀ x ∈ L, x ∈ L') :
    Within L' p :=
  Prog.Only.mono hp fun _ hs x hx => h x (hs x hx)

theorem Within.bind {p : Req ε α} {f : α → Req ε β} (hp : Within L p)
    (hf : ∀ a, Within L (f a)) : Within L (p >>= f) :=
  Prog.Only.bind hp hf

theorem Within.attempt {p : Req ε α} (hp : Within L p) :
    Within L (p.attempt : Req ε' _) :=
  Prog.Only.attempt hp

theorem Within.swallow {p : Req ε α} (hp : Within L p) :
    Within L (p.swallow : Req ε' Unit) :=
  Prog.Only.swallow hp

theorem Within.mapError {p : Req ε α} {g : ε → ε'} (hp : Within L p) :
    Within L (p.mapError g) :=
  Prog.Only.mapError hp

theorem within_done {r : Except ε α} : Within L (Prog.done r : Req ε α) := trivial

theorem within_pure {a : α} : Within L (pure a : Req ε α) := trivial

theorem within_throw {e : ε} : Within L (throw e : Req ε α) := trivial

theorem within_ensure {c : Prop} [Decidable c] {e : ε} :
    Within L (Prog.ensure c e : Req ε Unit) := Prog.only_ensure

theorem within_orThrow {e : ε} {o : Option α} :
    Within L (Prog.orThrow e o : Req ε α) := Prog.only_orThrow

theorem within_ofExcept {r : Except ε α} :
    Within L (Prog.ofExcept r : Req ε α) := trivial

theorem within_getNow : Within L (getNow : Req ε Timestamp) := by
  refine ⟨?_, fun _ => trivial⟩
  intro x hx; cases hx

theorem within_newUuid : Within L (newUuid : Req ε Str) := by
  refine ⟨?_, fun _ => trivial⟩
  intro x hx; cases hx

theorem within_newSecureToken : Within L (newSecureToken : Req ε Str) := by
  refine ⟨?_, fun _ => trivial⟩
  intro x hx; cases hx

theorem within_hashPassword {pw : Str} :
    Within L (hashPassword pw : Req ε Str) := by
  refine ⟨?_, fun _ => trivial⟩
  intro x hx; cases hx

theorem within_verifyPassword {h pw : Str} : Within L (verifyPassword h pw) := by
  unfold verifyPassword
  split
  · refine ⟨?_, fun _ => within_ensure⟩
    intro x hx; cases hx
  · exact within_throw

theorem within_read [OfDb ε] {s : DbStmt} (hs : s.effect = none) :
    Within L (query s : Req ε s.Reply) := by
  refine ⟨?_, fun r => ?_⟩
  · intro x hx
    simp [Stmt.effect, hs] at hx
  · cases r <;> trivial

theorem within_write [OfDb ε] {s : DbStmt} {x : Effect} (hs : s.effect = some x)
    (hx : x ∈ L) : Within L (query s : Req ε s.Reply) := by
  refine ⟨?_, fun r => ?_⟩
  · intro y hy
    obtain rfl : x = y := by simpa [Stmt.effect, hs] using hy
    exact hx
  · cases r <;> trivial

end

/-! ## The services -/

section

variable {ε : Type} [OfDb ε] {L : List Effect}

theorem findUserById_within {id : Str} : Within L (findUserById id : Req ε (Option User)) :=
  within_read rfl

theorem findUserByEmail_within {email : Str} :
    Within L (findUserByEmail email : Req ε (Option User)) :=
  within_read rfl

theorem findUserByUsername_within {name : Str} :
    Within L (findUserByUsername name : Req ε (Option User)) :=
  within_read rfl

theorem updateUser_within {u : User} (h : .updateUser ∈ L) :
    Within L (updateUser u : Req ε User) :=
  within_write rfl h

theorem findActorById_within {key : Str} :
    Within L (findActorById key : Req ε (Option ActorIdentity)) :=
  within_read rfl

theorem actorRefOfUser_within {userId : Str} : Within L (actorRefOfUser userId) :=
  .bind (within_read rfl) fun _ => within_orThrow

theorem deleteSessionByToken_within {token : Claims} (h : .deleteSession ∈ L) :
    Within L (deleteSessionByToken token : Req ε Unit) :=
  within_write rfl h

theorem deleteSessionsByUserId_within {userId : Str} (h : .deleteSession ∈ L) :
    Within L (deleteSessionsByUserId userId : Req ε Unit) :=
  within_write rfl h

theorem activePassword_within {key : Str} :
    Within L (activePassword key : Req ε (Option Credential)) :=
  .bind (within_read rfl) fun _ => within_pure

theorem activePasswordHash_within {key : Str} :
    Within L (activePasswordHash key : Req ε (Option Str)) :=
  .bind activePassword_within fun _ => within_pure

theorem hasPassword_within {key : Str} : Within L (hasPassword key : Req ε Bool) :=
  .bind activePasswordHash_within fun _ => within_pure

theorem rotatePassword_within {key hash : Str} {now : Timestamp} (h : .writeCredential ∈ L) :
    Within L (rotatePassword key hash now : Req ε Bool) :=
  within_write rfl h

theorem setPassword_within {key hash : Str} (h : .writeCredential ∈ L) :
    Within L (setPassword key hash) := by
  refine .bind within_getNow fun now => .bind (rotatePassword_within h) fun rotated => ?_
  split
  · exact within_pure
  · refine .bind within_newUuid fun _ => .bind within_getNow fun _ => ?_
    refine .bind (.attempt (within_write rfl h)) fun created => ?_
    split
    · exact within_pure
    · refine .bind (rotatePassword_within h) fun rotated => ?_
      split
      · exact within_pure
      · exact within_throw

theorem revokePassword_within {key : Str} (h : .writeCredential ∈ L) :
    Within L (revokePassword key : Req ε Unit) :=
  .bind within_getNow fun _ => within_write rfl h

theorem createHumanAggregate_within {new : NewHuman} (h : .createHuman ∈ L) :
    Within L (createHumanAggregate new) :=
  .bind within_getNow fun _ => .bind within_newUuid fun _ => .bind within_newUuid fun _ =>
    .bind within_newUuid fun _ => .bind within_newUuid fun _ => .bind within_newUuid fun _ =>
    .bind within_newUuid fun _ => .bind (within_write rfl h) fun _ => within_pure

theorem resolveBinding_within {provider subject : Str} :
    Within L (resolveBinding provider subject) := by
  refine .bind (within_read rfl) fun binding => ?_
  split
  · exact within_pure
  · split
    · exact findActorById_within
    · exact within_pure

theorem createAiActor_within (h : .createActor ∈ L) : Within L createAiActor :=
  .bind within_newUuid fun _ => .bind within_getNow fun _ => .bind within_newUuid fun _ =>
    .bind (within_write rfl h) fun _ => within_pure

theorem authenticableActor_within {key : Str} {expect : ActorKind} :
    Within L (authenticableActor key expect) := by
  refine .bind findActorById_within fun found => .bind within_orThrow fun actor => ?_
  refine .bind within_ofExcept fun _ => ?_
  cases expect with
  | human => exact .bind (within_read rfl) fun _ => .bind within_orThrow fun _ => within_pure
  | aiActor => exact within_pure

theorem authenticableActorOfUser_within {userId : Str} :
    Within L (authenticableActorOfUser userId) :=
  .bind actorRefOfUser_within fun _ => authenticableActor_within

theorem setStatus_within {actor : ActorIdentity} {status : ActorStatus}
    (h : .setActorStatus ∈ L) :
    Within L (setStatus actor status) :=
  .bind within_getNow fun _ => within_write rfl h

theorem getUserMfa_within {userId : Str} : Within L (getUserMfa userId) :=
  .bind (within_read rfl) fun _ => within_orThrow

theorem verifyTotpCode_within {secret code : Str} : Within L (verifyTotpCode secret code) :=
  .bind within_ofExcept fun _ => .bind within_getNow fun _ => within_pure

theorem acceptTotpCode_within {cfg : Config} {m : UserMfa} {code : Str} {enable : Bool}
    (h : .writeMfa ∈ L) :
    Within L (acceptTotpCode cfg m code enable) := by
  refine .bind within_orThrow fun _ => .bind within_ofExcept fun _ => ?_
  refine .bind verifyTotpCode_within fun found => ?_
  cases found with
  | none => exact within_pure
  | some step => exact within_write rfl h

theorem drawBackupCodes_within {n : Nat} : Within L (drawBackupCodes n) := by
  induction n with
  | zero => exact within_pure
  | succ n ih =>
    exact .bind within_newSecureToken fun _ => .bind within_hashPassword fun _ =>
      .bind ih fun _ => within_pure

theorem setupTotp_within {cfg : Config} {userId : Str} (h : .writeMfa ∈ L) :
    Within L (setupTotp cfg userId) :=
  .bind (.attempt getUserMfa_within) fun _ => .bind within_ensure fun _ =>
    .bind within_newSecureToken fun _ => .bind drawBackupCodes_within fun _ =>
    .bind within_ofExcept fun _ => .bind (within_write rfl h) fun _ => within_pure

theorem enableTotp_within {cfg : Config} {userId code : Str} (h : .writeMfa ∈ L) :
    Within L (enableTotp cfg userId code) :=
  .bind getUserMfa_within fun _ => .bind within_ensure fun _ => acceptTotpCode_within h

theorem verifyTotp_within {cfg : Config} {userId code : Str} (h : .writeMfa ∈ L) :
    Within L (verifyTotp cfg userId code) := by
  refine .bind getUserMfa_within fun m => ?_
  split
  · exact acceptTotpCode_within h
  · exact within_pure

theorem useBackupCode_within {userId code : Str} (h : .writeMfa ∈ L) :
    Within L (useBackupCode userId code) := by
  refine .bind getUserMfa_within fun m => ?_
  split
  · split
    · exact within_write rfl h
    · exact within_pure
  · exact within_pure

theorem disableMfa_within {userId : Str} (h : .writeMfa ∈ L) : Within L
    (disableMfa userId) := by
  refine .bind getUserMfa_within fun m => ?_
  split
  · exact within_pure
  · exact .bind (within_write rfl h) fun _ => within_pure

theorem enabledMethod_within {userId : Str} : Within L (enabledMethod userId) := by
  refine .bind (.attempt getUserMfa_within) fun found => ?_
  split
  · exact within_pure
  · exact within_pure
  · exact within_throw

theorem ensureUsernameAvailable_within {name : Str} : Within L (ensureUsernameAvailable name) :=
  .bind within_ensure fun _ => .bind findUserByUsername_within fun _ =>
    .bind within_ensure fun _ => within_pure

theorem firstFreeUsername_within {seed : Str} {attempt n : Nat} :
    Within L (firstFreeUsername seed attempt n) := by
  induction n generalizing attempt with
  | zero => exact within_throw
  | succ n ih =>
    refine .bind findUserByUsername_within fun taken => ?_
    split
    · exact within_pure
    · exact ih

theorem touchLastLogin_within {u : User} {ip : Str} (h : .updateUser ∈ L) :
    Within L (touchLastLogin u ip) :=
  .bind within_getNow fun _ => updateUser_within h

theorem createSession_within {cfg : Config} {u : User} {methods : List AuthenticationMethod}
    {refs : List Str} (h : .createSession ∈ L) :
    Within L (createSession cfg u methods refs) :=
  .bind within_getNow fun _ => .bind within_newUuid fun _ => .bind within_orThrow fun _ =>
    .bind (within_write rfl h) fun _ => .bind hasPassword_within fun _ => within_pure

theorem passwordRefOf_within {u : User} : Within L (passwordRefOf u) := by
  unfold passwordRefOf
  split
  · exact within_pure
  · exact .bind activePassword_within fun _ => within_pure

theorem drawVerificationToken_within {cfg : Config} {now : Timestamp} :
    Within L (drawVerificationToken cfg now) := by
  unfold drawVerificationToken
  split
  · exact .bind within_newUuid fun _ => within_pure
  · exact within_pure

theorem register_within {cfg : Config} {req : CreateUserRequest} {ip : Str}
    (h1 : .createHuman ∈ L) (h2 : .updateUser ∈ L) (h3 : .createSession ∈ L) :
    Within L (register cfg req ip) := by
  refine .bind within_ofExcept fun _ => .bind within_ofExcept fun _ => ?_
  refine .bind within_orThrow fun _ => .bind within_ofExcept fun _ => ?_
  refine .bind findUserByEmail_within fun _ => .bind within_ensure fun _ => ?_
  refine .bind ensureUsernameAvailable_within fun _ => .bind within_hashPassword fun _ => ?_
  refine .bind within_getNow fun _ => .bind drawVerificationToken_within fun verification => ?_
  refine .bind (.mapError (createHumanAggregate_within h1)) fun _ => ?_
  refine .bind findUserById_within fun _ => .bind within_orThrow fun _ => ?_
  split
  · exact within_pure
  · exact .bind (touchLastLogin_within h2) fun _ => .bind passwordRefOf_within fun _ =>
      .bind (createSession_within h3) fun _ => within_pure

theorem createMfaChallengeToken_within {userId email : Str} :
    Within L (createMfaChallengeToken userId email) :=
  .bind within_getNow fun _ => within_pure

theorem probeActor_within {found : Option User} : Within L (probeActor found) := by
  unfold probeActor
  split
  · exact within_pure
  · exact within_newUuid

theorem loginVerified_within {cfg : Config} {u : User} {c : Credential} {ip : Str}
    (h1 : .updateUser ∈ L) (h2 : .createSession ∈ L) :
    Within L (loginVerified cfg u c ip) := by
  refine .bind within_ensure fun _ => .bind authenticableActorOfUser_within fun _ => ?_
  refine .bind within_ofExcept fun _ => .bind within_ensure fun _ => ?_
  refine .bind enabledMethod_within fun method => ?_
  split
  · exact .bind createMfaChallengeToken_within fun _ => within_pure
  · exact .bind (touchLastLogin_within h1) fun _ =>
      .bind (createSession_within h2) fun _ => within_pure

theorem login_within {cfg : Config} {email password ip : Str} (h1 : .updateUser ∈ L)
    (h2 : .createSession ∈ L) :
    Within L (login cfg email password ip) := by
  refine .bind within_ofExcept fun _ => .bind findUserByEmail_within fun found => ?_
  refine .bind probeActor_within fun _ => .bind activePassword_within fun stored => ?_
  split
  · exact .bind within_orThrow fun _ => .bind within_verifyPassword fun _ =>
      loginVerified_within h1 h2
  · exact .bind (.swallow within_verifyPassword) fun _ => within_throw

theorem completeMfaLogin_within {cfg : Config} {userId ip : Str} {factor : AuthenticationMethod}
    (h1 : .updateUser ∈ L) (h2 : .createSession ∈ L) :
    Within L (completeMfaLogin cfg userId ip factor) :=
  .bind findUserById_within fun _ => .bind within_orThrow fun _ =>
    .bind authenticableActorOfUser_within fun _ => .bind within_ofExcept fun _ =>
    .bind (touchLastLogin_within h1) fun _ => .bind passwordRefOf_within fun _ =>
    createSession_within h2

theorem findOrCreateOauthUser_within {info : OAuthUserInfo} (h : .createHuman ∈ L) :
    Within L (findOrCreateOauthUser info) := by
  refine .bind resolveBinding_within fun bound => ?_
  split
  · exact .bind (within_read rfl) fun _ => within_orThrow
  · refine .bind within_ofExcept fun _ => .bind findUserByEmail_within fun _ => ?_
    refine .bind within_ensure fun _ => .bind firstFreeUsername_within fun _ => ?_
    exact .bind (.mapError (createHumanAggregate_within h)) fun _ =>
      .bind findUserById_within fun _ => within_orThrow

theorem handleOauthCallback_within {cfg : Config} {info : OAuthUserInfo} {ip : Str}
    (h1 : .createHuman ∈ L) (h2 : .updateUser ∈ L) (h3 : .createSession ∈ L) :
    Within L (handleOauthCallback cfg info ip) :=
  .bind (findOrCreateOauthUser_within h1) fun _ =>
    .bind authenticableActorOfUser_within fun _ =>
    .bind (touchLastLogin_within h2) fun _ => createSession_within h3

theorem verifyEmail_within {cfg : Config} {token ip : Str} (h1 : .claimVerification ∈ L)
    (h2 : .updateUser ∈ L) (h3 : .createSession ∈ L) :
    Within L (verifyEmail cfg token ip) := by
  refine .bind within_getNow fun _ => .bind (within_write rfl h1) fun claimed => ?_
  split
  · exact .bind findUserById_within fun _ => .bind within_orThrow fun _ =>
      .bind (touchLastLogin_within h2) fun _ => createSession_within h3
  · exact within_throw

theorem resendVerificationEmail_within {cfg : Config} {email : Str} (h : .updateUser ∈ L) :
    Within L (resendVerificationEmail cfg email) := by
  unfold resendVerificationEmail
  split
  · split
    · exact within_pure
    · refine .bind findUserByEmail_within fun found => ?_
      split
      · exact within_pure
      · split
        · exact within_pure
        · exact .bind within_getNow fun _ => .bind within_newUuid fun _ =>
            .bind (updateUser_within h) fun _ => within_pure
  · exact within_pure

theorem initializePassword_within {cfg : Config} {userId password : Str}
    (h1 : .writeCredential ∈ L) (h2 : .updateUser ∈ L) :
    Within L (initializePassword cfg userId password) :=
  .bind within_ofExcept fun _ => .bind findUserById_within fun _ =>
    .bind within_orThrow fun _ => .bind within_orThrow fun _ =>
    .bind activePasswordHash_within fun _ => .bind within_ensure fun _ =>
    .bind within_hashPassword fun _ => .bind (setPassword_within h1) fun _ =>
    .bind within_getNow fun _ => updateUser_within h2

theorem requestPasswordReset_within {email : Str} (h1 : .spendResetToken ∈ L)
    (h2 : .createResetToken ∈ L) :
    Within L (requestPasswordReset email) := by
  unfold requestPasswordReset
  split
  · exact within_pure
  · refine .bind findUserByEmail_within fun found => ?_
    split
    · exact within_pure
    · split
      · exact within_pure
      · exact .bind (within_write rfl h1) fun _ => .bind within_newUuid fun _ =>
          .bind within_getNow fun _ => .bind within_newUuid fun _ => within_write rfl h2

theorem resetPassword_within {cfg : Config} {token newPassword : Str} (h1 : .spendResetToken ∈ L)
    (h2 : .writeCredential ∈ L) (h3 : .updateUser ∈ L) (h4 : .deleteSession ∈ L) :
    Within L (resetPassword cfg token newPassword) :=
  .bind within_ofExcept fun _ => .bind (within_write rfl h1) fun _ =>
    .bind within_ensure fun _ => .bind (within_read rfl) fun _ =>
    .bind within_orThrow fun _ => .bind findUserByEmail_within fun _ =>
    .bind within_orThrow fun _ => .bind within_ofExcept fun _ => .bind within_orThrow fun _ =>
    .bind within_hashPassword fun _ => .bind (setPassword_within h2) fun _ =>
    .bind within_getNow fun _ => .bind (updateUser_within h3) fun _ =>
    .bind (within_write rfl h1) fun _ => .bind (deleteSessionsByUserId_within h4) fun _ =>
    within_pure

theorem getLockoutRecord_within {id : Str} {ty : LockoutType} :
    Within L (getLockoutRecord id ty) :=
  .bind (within_read rfl) fun _ => within_orThrow

theorem saveLockoutRecord_within {l : AccountLockout} (h : .writeLockout ∈ L) :
    Within L (saveLockoutRecord l) :=
  within_write rfl h

theorem resetStaleAttempts_within {cfg : LockoutConfig} {l : AccountLockout}
    (h : .writeLockout ∈ L) :
    Within L (resetStaleAttempts cfg l) := by
  refine .bind within_getNow fun now => ?_
  split
  · exact .bind within_getNow fun _ => .bind (saveLockoutRecord_within h) fun _ => within_pure
  · exact within_pure

theorem checkRecord_within {cfg : LockoutConfig} {ty : LockoutType} {l : AccountLockout}
    (h : .writeLockout ∈ L) :
    Within L (checkRecord cfg ty l) := by
  refine .bind within_getNow fun now => ?_
  split
  · exact .bind within_getNow fun _ => .bind (saveLockoutRecord_within h) fun _ => within_pure
  · refine .bind (resetStaleAttempts_within h) fun l => .bind within_getNow fun now => ?_
    split
    · exact .bind within_getNow fun _ => within_pure
    · exact within_pure

theorem checkLockout_within {cfg : LockoutConfig} {ty : LockoutType} {id : Str}
    (h : .writeLockout ∈ L) :
    Within L (checkLockout cfg ty id) := by
  unfold checkLockout
  split
  · refine .bind (.attempt getLockoutRecord_within) fun found => ?_
    split
    · exact checkRecord_within h
    · exact within_pure
    · exact within_throw
  · exact within_pure

theorem retryOnConflict_only {S : Stmt → Prop} {α : Type} {p : Req AuthError α}
    (hp : Prog.Only (M := machine) S p) (n : Nat) : Prog.Only S (retryOnConflict n p) := by
  induction n with
  | zero => trivial
  | succ n ih =>
    refine Prog.Only.bind (Prog.Only.attempt hp) fun sent => ?_
    split
    · trivial
    · split
      · exact ih
      · trivial

theorem retryOnConflict_within {α : Type} {p : Req AuthError α} (hp : Within L p) (n : Nat) :
    Within L (retryOnConflict n p) :=
  retryOnConflict_only hp n

theorem recordFailedAttempt_within {cfg : LockoutConfig} {ty : LockoutType} {id : Str}
    (h : .writeLockout ∈ L) :
    Within L (recordFailedAttempt cfg ty id) := by
  unfold recordFailedAttempt
  split
  · refine .bind (retryOnConflict_within ?_ _) fun _ => within_pure
    exact .bind (.attempt (within_write rfl h)) fun _ =>
      .bind (.attempt (within_write rfl h)) fun _ => .bind (.attempt (within_read rfl)) fun _ =>
      .bind within_ofExcept fun _ => .bind within_ofExcept fun _ =>
      .bind within_ofExcept fun _ => within_pure
  · exact within_pure

theorem resetAttempts_within {ty : LockoutType} {id : Str} (h : .writeLockout ∈ L) :
    Within L (resetAttempts ty id) := by
  refine .bind (.attempt getLockoutRecord_within) fun found => ?_
  split
  · exact .bind within_getNow fun _ => saveLockoutRecord_within h
  · exact within_pure
  · exact within_throw

theorem unlock_within {ty : LockoutType} {id : Str} (h : .writeLockout ∈ L) :
    Within L (unlock ty id) := by
  refine .bind (.attempt getLockoutRecord_within) fun found => ?_
  split
  · refine .bind within_getNow fun now => ?_
    split
    · exact .bind within_getNow fun _ => .bind (saveLockoutRecord_within h) fun _ => within_pure
    · exact within_pure
  · exact within_pure
  · exact within_throw

theorem getClient_within {id : Str} : Within L (getClient id) :=
  .bind (within_read rfl) fun _ => within_orThrow

theorem authenticateClient_within {request : TokenRequest} :
    Within L (authenticateClient request) :=
  .bind getClient_within fun _ => .bind within_ofExcept fun _ => within_pure

theorem createAuthorizationCode_within {request : AuthorizeRequest} {userId sid : Str}
    (h : .saveCode ∈ L) :
    Within L (createAuthorizationCode request userId sid) :=
  .bind (.mapError getClient_within) fun _ => .bind within_ofExcept fun _ =>
    .bind within_newSecureToken fun _ => .bind within_getNow fun _ =>
    .bind within_ofExcept fun _ => .bind within_getNow fun _ =>
    .bind (within_write rfl h) fun _ => within_pure

theorem loadActiveUser_within {userId : Str} : Within L (loadActiveUser userId) := by
  refine .bind (.bind (within_read rfl) fun _ => within_orThrow) fun _ => ?_
  exact .bind (.mapError authenticableActorOfUser_within) fun _ =>
    .bind within_ofExcept fun _ => within_pure

theorem generateIdToken_within {cfg : Config} {client : OidcClient} {user : User}
    {nonce sid : Option Str} {scope : Str} :
    Within L (generateIdToken cfg client user nonce sid scope) := by
  refine .bind within_orThrow fun _ => .bind within_getNow fun _ => ?_
  refine .bind (.bind (.mapError authenticableActorOfUser_within) fun _ => within_pure) ?_
  exact fun _ => .bind (.attempt (within_read rfl)) fun _ => within_pure

theorem issueRefreshToken_within {client : OidcClient} {userId scope token : Str}
    {sid : Option Str} {now : Timestamp} (h : .saveRefresh ∈ L) :
    Within L (issueRefreshToken client userId scope token sid now) := by
  unfold issueRefreshToken
  split
  · exact .bind within_newSecureToken fun _ => .bind (.mapError (within_write rfl h)) fun _ =>
      within_pure
  · exact within_pure

theorem issueIdToken_within {cfg : Config} {client : OidcClient} {user : User}
    {nonce sid : Option Str}
    {scope : Str} :
    Within L (issueIdToken cfg client user nonce sid scope) := by
  unfold issueIdToken
  split
  · exact .bind generateIdToken_within fun _ => within_pure
  · exact within_pure

theorem generateTokens_within {cfg : Config} {client : OidcClient} {userId scope : Str}
    {nonce sid : Option Str} (h1 : .saveAccess ∈ L) (h2 : .saveRefresh ∈ L) :
    Within L (generateTokens cfg client userId scope nonce sid) :=
  .bind within_getNow fun _ => .bind (.mapError loadActiveUser_within) fun _ =>
    .bind within_newSecureToken fun _ => .bind (.mapError (within_write rfl h1)) fun _ =>
    .bind (issueRefreshToken_within h2) fun _ => .bind issueIdToken_within fun _ => within_pure

theorem handleAuthorizationCodeGrant_within {cfg : Config} {request : TokenRequest}
    (h1 : .consumeCode ∈ L) (h2 : .saveAccess ∈ L) (h3 : .saveRefresh ∈ L) :
    Within L (handleAuthorizationCodeGrant cfg request) := by
  refine .bind within_orThrow fun _ => .bind within_orThrow fun _ => ?_
  refine .bind authenticateClient_within fun _ => .bind within_ensure fun _ => ?_
  refine .bind (.mapError (.bind (within_read rfl) fun _ => within_orThrow)) fun _ => ?_
  refine .bind within_getNow fun _ => .bind within_ofExcept fun _ => ?_
  refine .bind (.mapError (.bind (within_write rfl h1) fun _ => within_ensure)) fun _ => ?_
  exact .mapError (generateTokens_within h2 h3)

theorem revokeClientTokensForUser_within {clientId userId : Str} (h1 : .deleteAccess ∈ L)
    (h2 : .deleteRefresh ∈ L) :
    Within L (revokeClientTokensForUser clientId userId) :=
  .bind (within_write rfl h1) fun _ => within_write rfl h2

theorem revokeAllTokensForUser_within {userId : Str} (h1 : .deleteAccess ∈ L)
    (h2 : .deleteRefresh ∈ L) :
    Within L (revokeAllTokensForUser userId) :=
  .bind (within_write rfl h1) fun _ => within_write rfl h2

theorem handleRefreshTokenGrant_within {cfg : Config} {request : TokenRequest}
    (h1 : .consumeRefresh ∈ L) (h2 : .deleteAccess ∈ L) (h3 : .deleteRefresh ∈ L)
    (h4 : .saveAccess ∈ L) (h5 : .saveRefresh ∈ L) :
    Within L (handleRefreshTokenGrant cfg request) := by
  refine .bind within_orThrow fun _ => .bind authenticateClient_within fun _ => ?_
  refine .bind within_ensure fun _ => .bind (.bind (within_read rfl) fun _ => within_orThrow) ?_
  refine fun stored => .bind within_ensure fun _ => .bind within_getNow fun _ => ?_
  refine .bind within_ensure fun _ => ?_
  split
  · exact .bind (revokeClientTokensForUser_within h2 h3) fun _ => within_throw
  · refine .bind (.bind (within_write rfl h1) fun _ => within_pure) fun _ => ?_
    exact .bind within_ensure fun _ => .bind (within_write rfl h2) fun _ =>
      .bind within_ofExcept fun _ => generateTokens_within h4 h5

theorem updateMembership_within {userId level : Str} {expiry : Option Timestamp}
    (h : .updateUser ∈ L) :
    Within L (updateMembership userId level expiry) := by
  refine .bind findUserById_within fun _ => .bind within_orThrow fun _ => ?_
  refine .bind within_ofExcept fun _ => .bind within_getNow fun _ => ?_
  refine .bind (updateUser_within h) fun updated => ?_
  split
  · exact within_pure
  · exact .bind hasPassword_within fun _ => within_pure

theorem syncActorStatus_within {key : Str} {status : AccountStatus} (h1 : .setActorStatus ∈ L)
    (h2 : .writeCredential ∈ L) :
    Within L (syncActorStatus key status) := by
  refine .bind (.attempt findActorById_within) fun found => ?_
  split
  · refine .bind (setStatus_within h1) fun _ => ?_
    split
    · exact revokePassword_within h2
    · exact within_pure
  · split
    · exact revokePassword_within h2
    · exact within_pure

theorem updateAccountStatus_within {userId : Str} {status : AccountStatus}
    (h1 : .setAccountStatus ∈ L) (h2 : .setActorStatus ∈ L) (h3 : .writeCredential ∈ L) :
    Within L (updateAccountStatus userId status) := by
  refine .bind within_orThrow fun _ => .bind (within_read rfl) fun _ => ?_
  refine .bind within_orThrow fun user => .bind within_getNow fun _ => ?_
  refine .bind (within_write rfl h1) fun _ => ?_
  split
  · exact syncActorStatus_within h2 h3
  · exact within_pure

theorem requireAiActor_within {key : Str} : Within L (requireAiActor key) :=
  .bind findActorById_within fun _ => .bind within_orThrow fun _ =>
    .bind within_ensure fun _ => within_pure

theorem addCredentialFor_within {key publicKey label : Str} (h : .writeAiCredential ∈ L) :
    Within L (addCredentialFor key publicKey label) :=
  .bind within_getNow fun _ => .bind within_newUuid fun _ =>
    .bind (.mapError (within_write rfl h)) fun _ => within_pure

theorem registerAiActor_within {publicKey label : Str} (h1 : .createActor ∈ L)
    (h2 : .writeAiCredential ∈ L) :
    Within L (registerAiActor publicKey label) :=
  .bind within_ofExcept fun _ => .bind (createAiActor_within h1) fun _ =>
    .bind (addCredentialFor_within h2) fun _ => within_pure

theorem addAiCredential_within {key publicKey label : Str} (h : .writeAiCredential ∈ L) :
    Within L (addAiCredential key publicKey label) :=
  .bind within_ofExcept fun _ => .bind requireAiActor_within fun _ => addCredentialFor_within h

theorem revokeAiCredential_within {key credential : Str} (h1 : .writeAiCredential ∈ L)
    (h2 : .deleteSession ∈ L) :
    Within L (revokeAiCredential key credential) :=
  .bind within_getNow fun _ => .bind (within_write rfl h1) fun _ => .bind within_ensure fun _ =>
    within_write rfl h2

theorem setAiActorStatus_within {key : Str} {status : ActorStatus} (h1 : .setActorStatus ∈ L)
    (h2 : .deleteSession ∈ L) :
    Within L (setAiActorStatus key status) := by
  refine .bind findActorById_within fun _ => .bind within_orThrow fun _ => ?_
  refine .bind within_ensure fun _ => .bind within_ensure fun _ => ?_
  refine .bind (setStatus_within h1) fun _ => ?_
  split
  · exact within_write rfl h2
  · exact within_pure

theorem issueChallenge_within {cfg : Config} {key : Str} (h : .createChallenge ∈ L) :
    Within L (issueChallenge cfg key) :=
  .bind (.mapError requireAiActor_within) fun _ => .bind within_ensure fun _ =>
    .bind within_newSecureToken fun _ => .bind within_getNow fun _ =>
    .bind within_newUuid fun _ => .bind (within_write rfl h) fun _ => within_pure

theorem authenticateAiActor_within {cfg : Config} {proof : AiActorProof}
    (h1 : .consumeChallenge ∈ L) (h2 : .writeAiCredential ∈ L) (h3 : .createSession ∈ L) :
    Within L (authenticateAiActor cfg proof) :=
  .bind within_ensure fun _ => .bind within_ofExcept fun _ => .bind within_getNow fun _ =>
    .bind (within_write rfl h1) fun _ => .bind within_ensure fun _ =>
    .bind (.mapError requireAiActor_within) fun _ => .bind within_ensure fun _ =>
    .bind (within_read rfl) fun _ => .bind within_orThrow fun _ => .bind within_getNow fun _ =>
    .bind (.swallow (within_write rfl h2)) fun _ => .bind within_getNow fun _ =>
    .bind within_newUuid fun _ => .bind (within_write rfl h3) fun _ => within_pure

end

/-! ## The routes -/

section

variable {L : List Effect}

theorem checkWithReauth_within {check : Req AuthError LockoutCheckResult}
    (hcheck : Within L check) :
    Within L (checkWithReauth check) := by
  refine .bind (.attempt hcheck) fun first => ?_
  split
  · exact within_pure
  · exact .mapError hcheck

theorem ensureNotLockedOut_within {cfg : Config} {email ip : Str} (h : .writeLockout ∈ L) :
    Within L (ensureNotLockedOut cfg email ip) :=
  .bind (checkWithReauth_within (checkLockout_within h)) fun _ => .bind within_ofExcept fun _ =>
    .bind (checkWithReauth_within (checkLockout_within h)) fun _ => within_ofExcept

theorem mfaLoginVerify_within {cfg : Config} {challenge : MfaChallengeClaims}
     {factor : SecondFactor} {ip : Str} (h1 : .writeLockout ∈ L) (h2 : .writeMfa ∈ L)
    (h3 : .updateUser ∈ L) (h4 : .createSession ∈ L) :
    Within L (mfaLoginVerify cfg challenge factor ip) := by
  refine .bind (.bind within_getNow fun _ => within_ensure) fun _ => ?_
  refine .bind (ensureNotLockedOut_within h1) fun _ => .bind (.mapError ?_) fun _ => ?_
  · cases factor with
    | totp code => exact .bind (verifyTotp_within h2) fun _ => within_pure
    | backupCode code => exact .bind (useBackupCode_within h2) fun _ => within_pure
    | none => exact within_throw
  · exact .bind within_ensure fun _ => completeMfaLogin_within h3 h4

theorem updateUserAccountStatus_within {userId : Str} {status : AccountStatus}
    (h1 : .setAccountStatus ∈ L) (h2 : .setActorStatus ∈ L) (h3 : .writeCredential ∈ L)
    (h4 : .deleteSession ∈ L) (h5 : .deleteAccess ∈ L) (h6 : .deleteRefresh ∈ L) :
    Within L (updateUserAccountStatus userId status) := by
  refine .bind (updateAccountStatus_within h1 h2 h3) fun _ => ?_
  split
  · exact within_pure
  · exact .bind (.swallow (deleteSessionsByUserId_within h4)) fun _ =>
      .swallow (revokeAllTokensForUser_within h5 h6)

theorem validateAuthorizeRequest_within {request : AuthorizeRequest} :
    Within L (validateAuthorizeRequest request) :=
  .bind (.bind (within_read rfl) fun _ => within_orThrow) fun _ => .bind within_ensure fun _ =>
    .bind within_ofExcept fun _ => .bind within_ensure fun _ => within_ensure

theorem decodeAndVerifyToken_within {claims : Claims} :
    Within L (decodeAndVerifyToken claims) :=
  .bind within_getNow fun _ => .bind within_ensure fun _ =>
    .bind within_getNow fun _ => .bind (within_read rfl) fun _ => within_ensure

theorem loadUserFromActor_within {key : Str} : Within L (loadUserFromActor key) :=
  .bind (within_read rfl) fun _ => within_orThrow

theorem authedUser_within {claims : Claims} : Within L (authedUser claims) :=
  .bind decodeAndVerifyToken_within fun _ => .bind within_ensure fun _ =>
    .bind authenticableActor_within fun _ => .bind loadUserFromActor_within fun _ =>
    .bind within_ofExcept fun _ => within_pure

theorem authedUserCached_within {user : User} : Within L (authedUserCached user) :=
  .bind authenticableActorOfUser_within fun _ => .bind within_ofExcept fun _ => within_pure

theorem authedActor_within {claims : Claims} : Within L (authedActor claims) :=
  .bind decodeAndVerifyToken_within fun _ => .bind within_ensure fun _ =>
    .bind findActorById_within fun _ => .bind within_orThrow fun _ =>
    .bind within_ensure fun _ => within_pure

theorem authedSession_within {claims : Claims} : Within L (authedSession claims) := by
  apply Within.bind decodeAndVerifyToken_within
  intro _
  apply Within.bind authenticableActor_within
  intro gate
  have hrest : Within L (do
      let rows : Option Session ← query (.session (.findByToken (hashBearer claims)))
      let session ← Prog.orThrow .invalidToken rows
      return (gate.actor, session) : Req AuthError (ActorIdentity × Session)) :=
    .bind (within_read rfl) fun _ => .bind within_orThrow fun _ => within_pure
  split
  · apply Within.bind loadUserFromActor_within
    intro _
    exact .bind within_ofExcept fun _ => hrest
  · exact hrest

theorem currentUserResponse_within {user : User} : Within L (currentUserResponse user) := by
  apply Within.bind (.attempt actorRefOfUser_within)
  intro actorKey
  split
  · exact within_pure
  · exact .bind (.attempt hasPassword_within) fun _ => within_pure

theorem resolveBearer_within {claims : Claims} : Within L (resolveBearer claims) :=
  .bind decodeAndVerifyToken_within fun _ => .bind authenticableActor_within fun _ =>
    .bind loadUserFromActor_within fun _ =>
    .bind within_ofExcept fun _ => .bind within_orThrow fun _ => within_pure

theorem resolveExistingUserId_within {userId : Str} :
    Within L (resolveExistingUserId userId) :=
  .bind (within_read rfl) fun _ => .bind within_orThrow fun _ =>
    .bind within_ofExcept fun _ => within_pure

theorem resolveCookie_within {request : AuthorizeRequest} {now : Timestamp}
    {cookie : BrowserSessionClaims} :
    Within L (resolveCookie request now cookie) := by
  refine .bind within_getNow fun _ => .bind within_ensure fun _ => .bind within_ensure fun _ => ?_
  refine .bind (.bind within_getNow fun _ => .bind (within_read rfl) fun _ => within_ensure) ?_
  exact fun _ => .bind resolveExistingUserId_within fun _ => within_pure

theorem tryCredential_within {α : Type} {credential : Option α}
    {resolve : α → Req AuthError (Str × Str)} (hresolve : ∀ a, Within L (resolve a)) :
    Within L (tryCredential credential resolve) := by
  unfold tryCredential
  split
  · exact within_pure
  · exact .bind (.attempt (hresolve _)) fun _ => within_pure

theorem createAuthorizeResponse_within {request : AuthorizeRequest} {userId sid : Str}
    (h : .saveCode ∈ L) :
    Within L (createAuthorizeResponse request userId sid) := by
  refine .bind (.attempt (createAuthorizationCode_within h)) fun result => ?_
  split <;> exact within_pure

theorem authorize_within {request : AuthorizeRequest} {credentials : AuthorizeCredentials}
    (h : .saveCode ∈ L) :
    Within L (authorize request credentials) := by
  refine .bind validateAuthorizeRequest_within fun _ => .bind within_getNow fun now => ?_
  split
  · exact within_pure
  · refine .bind (tryCredential_within fun _ => resolveBearer_within) fun bearer => ?_
    split
    · exact createAuthorizeResponse_within h
    · refine .bind (tryCredential_within fun _ => resolveCookie_within) fun cookie => ?_
      split
      · exact createAuthorizeResponse_within h
      · exact within_pure

theorem rpLogout_within {cfg : Config} {request : RpLogoutRequest} (h1 : .deleteAccess ∈ L)
    (h2 : .deleteRefresh ∈ L) (h3 : .deleteSession ∈ L) :
    Within L (rpLogout cfg request) := by
  have htarget : ∀ requested state hint, Within L (postLogoutTarget cfg requested state hint) := by
    intro requested state hint
    unfold postLogoutTarget
    split
    · exact .bind (.attempt (.bind (within_read rfl) fun _ => within_orThrow)) fun _ =>
        within_pure
    · exact within_pure
  unfold rpLogout
  simp only
  split
  · refine .bind ?_ fun _ => htarget _ _ _
    exact .bind (.swallow (revokeClientTokensForUser_within h1 h2)) fun _ =>
      .swallow (deleteSessionsByUserId_within h3)
  · exact htarget _ _ _

theorem respond_within {α : Type} {f : α → Reply} {p : Req AuthError α} (hp : Within L p) :
    Within L (respond f p) :=
  .bind (.mapError hp) fun _ => within_done

theorem respondOidc_within {α : Type} {f : α → Reply} {p : Req OidcError α}
    (hp : Within L p) : Within L (respondOidc f p) :=
  .bind (.mapError hp) fun _ => within_done

theorem checked_within {check : Except AuthError Unit} {p : Req Failure Reply} (hp : Within L p) :
    Within L (checked check p) :=
  .bind within_ofExcept fun _ => hp

theorem withCookie_within {issued : IssuedSession} : Within L (withCookie issued) :=
  .bind within_getNow fun _ => within_pure

theorem respondLogin_within {p : Req AuthError IssuedSession} (hp : Within L p) :
    Within L (respondLogin p) :=
  respond_within (.bind hp fun _ => withCookie_within)

theorem performLogin_within {cfg : Config} {email password ip : Str}
    (h1 : .writeLockout ∈ L) (h2 : .updateUser ∈ L) (h3 : .createSession ∈ L) :
    Within L (performLogin cfg email password ip) :=
  .bind (ensureNotLockedOut_within h1) fun _ => .mapError (login_within h2 h3)

theorem loginRoute_within {cfg : Config} {email password ip : Str}
    (h1 : .writeLockout ∈ L) (h2 : .updateUser ∈ L) (h3 : .createSession ∈ L) :
    Within L (loginRoute cfg email password ip) := by
  refine .bind (performLogin_within h1 h2 h3) fun outcome => ?_
  split
  · exact .bind withCookie_within fun _ => within_pure
  · exact within_pure

end

/-! ## The footprint of an endpoint -/

/-- The effects of the program that serves an endpoint. -/
def Endpoint.effects : Endpoint → List Effect
  | register _ _ => [.createHuman, .updateUser, .createSession]
  | login _ _ _ => [.writeLockout, .updateUser, .createSession]
  | mfaLoginVerify _ _ _ => [.writeLockout, .writeMfa, .updateUser, .createSession]
  | oauthCallback _ _ => [.createHuman, .updateUser, .createSession]
  | verifyEmail _ _ => [.claimVerification, .updateUser, .createSession]
  | resendVerification _ => [.updateUser]
  | requestPasswordReset _ => [.spendResetToken, .createResetToken]
  | resetPassword _ _ =>
    [.spendResetToken, .writeCredential, .updateUser, .deleteSession, .deleteAccess,
      .deleteRefresh]
  | initializePassword _ _ => [.writeCredential, .updateUser]
  | logout _ => [.deleteSession]
  | logoutAll _ => [.deleteSession, .deleteAccess, .deleteRefresh]
  | mfaSetup _ | mfaEnable _ _ | mfaDisable _ _ => [.writeMfa]
  | updateAccountStatus _ _ =>
    [.setAccountStatus, .setActorStatus, .writeCredential, .deleteSession, .deleteAccess,
      .deleteRefresh]
  | updateMembership _ _ _ => [.updateUser]
  | recordLockoutFailure _ _ | resetLockoutCounters _ _ | lockoutStatus _ _ | unlock _ _
  | cleanupLockouts => [.writeLockout]
  | cleanupAuthArtifacts => [.deleteSession, .spendResetToken]
  | cleanupOidcArtifacts => [.deleteCode, .deleteAccess, .deleteRefresh]
  | authorize _ _ => [.saveCode]
  | token _ =>
    [.consumeCode, .consumeRefresh, .deleteAccess, .deleteRefresh, .saveAccess, .saveRefresh]
  | rpLogout _ => [.deleteAccess, .deleteRefresh, .deleteSession]
  | createClient _ _ | updateClient _ _ | disableClient _ | regenerateClientSecret _ =>
    [.writeClient]
  | registerAiActor _ _ => [.createActor, .writeAiCredential]
  | addAiCredential _ _ _ => [.writeAiCredential]
  | revokeAiCredential _ _ => [.writeAiCredential, .deleteSession]
  | setAiActorStatus _ _ => [.setActorStatus, .deleteSession]
  | issueChallenge _ => [.createChallenge]
  | authenticateAiActor _ => [.consumeChallenge, .writeAiCredential, .createSession]
  | currentUser _ | currentUserCached _ | introspect _ | currentActor _ => []

/-- **The footprint theorem.** A request issues no statement with an effect
    that its endpoint does not list. -/
theorem Call.within (c : Call) : Within c.endpoint.effects c.program := by
  obtain ⟨cfg, endpoint⟩ := c
  cases endpoint with
  | register req ip =>
    refine respond_within (register_within ?_ ?_ ?_) <;>
      simp [Endpoint.effects]
  | login email password ip =>
    refine respond_within (loginRoute_within ?_ ?_ ?_) <;>
      simp [Endpoint.effects]
  | mfaLoginVerify challenge factor ip =>
    refine respondLogin_within
      (mfaLoginVerify_within ?_ ?_ ?_ ?_) <;>
      simp [Endpoint.effects]
  | oauthCallback info ip =>
    refine respondLogin_within (handleOauthCallback_within ?_ ?_ ?_) <;>
      simp [Endpoint.effects]
  | verifyEmail bearer ip =>
    refine respond_within (verifyEmail_within ?_ ?_ ?_) <;>
      simp [Endpoint.effects]
  | resendVerification email =>
    refine respond_within (resendVerificationEmail_within ?_)
    simp [Endpoint.effects]
  | requestPasswordReset email =>
    refine respond_within (requestPasswordReset_within ?_ ?_) <;>
      simp [Endpoint.effects]
  | resetPassword bearer newPassword =>
    refine respond_within (.bind (resetPassword_within ?_ ?_ ?_ ?_) fun _ =>
      .mapError (revokeAllTokensForUser_within ?_ ?_)) <;>
      simp [Endpoint.effects]
  | initializePassword userId password =>
    refine respond_within (initializePassword_within ?_ ?_) <;>
      simp [Endpoint.effects]
  | logout bearer =>
    refine respond_within (deleteSessionByToken_within ?_)
    simp [Endpoint.effects]
  | logoutAll userId =>
    refine respond_within (.bind (deleteSessionsByUserId_within ?_) fun _ =>
      .mapError (revokeAllTokensForUser_within ?_ ?_)) <;>
      simp [Endpoint.effects]
  | mfaSetup userId =>
    refine respond_within (setupTotp_within ?_)
    simp [Endpoint.effects]
  | mfaEnable userId code =>
    refine respond_within (.bind (enableTotp_within ?_) fun _ => within_ensure)
    simp [Endpoint.effects]
  | mfaDisable userId code =>
    refine respond_within (.bind (verifyTotp_within ?_) fun _ =>
      .bind within_ensure fun _ => .bind (disableMfa_within ?_) fun _ => within_pure) <;>
      simp [Endpoint.effects]
  | updateAccountStatus userId status =>
    refine respond_within (updateUserAccountStatus_within ?_ ?_ ?_ ?_ ?_ ?_) <;>
      simp [Endpoint.effects]
  | updateMembership userId level expiry =>
    exact respond_within (updateMembership_within (by simp [Endpoint.effects]))
  | recordLockoutFailure email ip =>
    refine respond_within (.bind (.swallow (recordFailedAttempt_within ?_)) fun _ =>
      .swallow (recordFailedAttempt_within ?_)) <;>
      simp [Endpoint.effects]
  | resetLockoutCounters email ip =>
    refine respond_within (.bind (.swallow (resetAttempts_within ?_)) fun _ =>
      .swallow (resetAttempts_within ?_)) <;>
      simp [Endpoint.effects]
  | lockoutStatus scope identifier =>
    refine respond_within (.bind within_ofExcept fun _ => checkLockout_within ?_)
    simp [Endpoint.effects]
  | unlock scope identifier =>
    refine respond_within (.bind within_ofExcept fun _ => unlock_within ?_)
    simp [Endpoint.effects]
  | cleanupLockouts =>
    exact respond_within (.bind within_getNow fun _ =>
      within_write rfl (List.mem_singleton.mpr rfl))
  | cleanupAuthArtifacts =>
    refine respond_within (.bind within_getNow fun _ => .bind (within_write rfl ?_) fun _ =>
      within_write rfl ?_) <;>
      simp [Endpoint.effects]
  | cleanupOidcArtifacts =>
    refine respondOidc_within (.bind within_getNow fun _ => .bind (within_write rfl ?_) fun _ =>
      .bind (within_write rfl ?_) fun _ => within_write rfl ?_) <;>
      simp [Endpoint.effects]
  | authorize request credentials =>
    refine respond_within (authorize_within ?_)
    simp [Endpoint.effects]
  | token request =>
    refine respondOidc_within ?_
    unfold exchangeCodeForTokens
    split
    · refine handleAuthorizationCodeGrant_within ?_ ?_ ?_ <;> simp [Endpoint.effects]
    split
    · refine handleRefreshTokenGrant_within ?_ ?_ ?_ ?_ ?_ <;> simp [Endpoint.effects]
    · exact within_throw
  | rpLogout request =>
    refine respond_within (rpLogout_within ?_ ?_ ?_) <;>
      simp [Endpoint.effects]
  | createClient request createdBy =>
    refine checked_within (respondOidc_within (.bind within_newSecureToken fun _ =>
      .bind within_newSecureToken fun _ => .bind within_hashPassword fun _ =>
      .bind within_getNow fun _ => .bind (within_write rfl ?_) fun _ => within_pure))
    simp [Endpoint.effects]
  | updateClient clientId request =>
    refine checked_within (respondOidc_within (.bind getClient_within fun _ =>
      .bind within_getNow fun _ => .bind (within_write rfl ?_) fun _ => within_pure))
    simp [Endpoint.effects]
  | disableClient clientId =>
    refine respondOidc_within (.bind within_getNow fun _ => .bind (within_write rfl ?_) fun _ =>
      within_ensure)
    simp [Endpoint.effects]
  | regenerateClientSecret clientId =>
    refine respondOidc_within (.bind within_newSecureToken fun _ =>
      .bind within_hashPassword fun _ => .bind within_getNow fun _ =>
      .bind (within_write rfl ?_) fun _ => .bind within_ensure fun _ => within_pure)
    simp [Endpoint.effects]
  | registerAiActor publicKey label =>
    refine respond_within (registerAiActor_within ?_ ?_) <;>
      simp [Endpoint.effects]
  | addAiCredential actorKey publicKey label =>
    refine respond_within (addAiCredential_within ?_)
    simp [Endpoint.effects]
  | revokeAiCredential actorKey credentialKey =>
    refine respond_within (revokeAiCredential_within ?_ ?_) <;>
      simp [Endpoint.effects]
  | setAiActorStatus actorKey status =>
    refine respond_within (setAiActorStatus_within ?_ ?_) <;>
      simp [Endpoint.effects]
  | issueChallenge actorKey =>
    refine respond_within (issueChallenge_within ?_)
    simp [Endpoint.effects]
  | authenticateAiActor proof =>
    refine respond_within (authenticateAiActor_within ?_ ?_ ?_) <;>
      simp [Endpoint.effects]
  | currentUser bearer =>
    exact respond_within (.bind authedUser_within fun _ => currentUserResponse_within)
  | currentUserCached user =>
    exact respond_within (.bind authedUserCached_within fun _ => currentUserResponse_within)
  | introspect bearer => exact respond_within authedSession_within
  | currentActor bearer => exact respond_within authedActor_within

end SoulAuth
