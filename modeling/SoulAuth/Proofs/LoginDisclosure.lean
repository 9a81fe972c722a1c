import SoulAuth.Framework.Errors
import SoulAuth.Proofs.AuthMethods
import SoulAuth.Proofs.LoginGuard

/-! # What a refused login tells

A login says nothing of the account before it has seen the password: the
errors that it may answer until then are the same for an address without an
account. Nor does the work tell the two apart, since both look up an account
and a credential and verify one password. This needs that the hash of every
stored credential is one that Argon2 reads.
-/

namespace SoulAuth

open Framework Framework.System

section

variable [Platform]

/-! ## Stored hashes -/

/-- The hash of the credential, if it has one, is a hash of Argon2. -/
def Credential.Parses (x : Credential) : Prop :=
  ∀ hash, x.secretHash = some hash → Platform.argon2WellFormed hash = true

/-- What holds of a statement: it stores hashes of Argon2 only. -/
def Stmt.StoresParsed : Stmt → Prop
  | .db (.identity (.credential (.rotate _ hash _))) => Platform.argon2WellFormed hash = true
  | .db (.identity (.credential (.create x))) => x.Parses
  | .db (.identity (.createHuman a)) => ∀ x, a.credential = some x → x.Parses
  | _ => True

/-- The hashes of all stored credentials are hashes of Argon2. -/
def World.HashesParse (w : World) : Prop := ∀ x ∈ w.db.identity.credentials, x.Parses

def hashRule : System.Rule server where
  assumes := fun _ => True
  entry := fun _ _ e => Stmt.StoresParsed e.stmt
  outcome := fun _ _ _ => True

section

variable {h : List (Entry machine)} {ε α β : Type} {cfg : Config} {actorKey hash : Str}

/-- A program that stores hashes of Argon2 only. -/
abbrev StoresParsed {ε α : Type} (h : List (Entry machine)) (p : Req ε α) : Prop :=
  p.Meets (fun _ => True) (fun _ e => Stmt.StoresParsed e.stmt) (fun _ _ => True) h

theorem storesParsed_of_effect {s : Stmt} (hw : s.effect ≠ some .writeCredential)
    (hc : s.effect ≠ some .createHuman) : s.StoresParsed := by
  unfold Stmt.StoresParsed
  split
  · exact absurd rfl hw
  · exact absurd rfl hw
  · exact absurd rfl hc
  · trivial

theorem storesParsed_of_within {s : Stmt} {L : List Effect} (hs : s.Within L)
    (hw : .writeCredential ∉ L) (hc : .createHuman ∉ L) : s.StoresParsed :=
  storesParsed_of_effect (fun heff => hw (hs _ heff)) fun heff => hc (hs _ heff)

/-- A part of a program that stores no hash. -/
theorem parsedSkip_bind {p : Req ε α} {f : α → Req ε β} {L : List Effect} (hp : Within L p)
    (hw : .writeCredential ∉ L) (hc : .createHuman ∉ L)
    (hok : ∀ t a, StoresParsed (h ++ t) (f a)) : StoresParsed h (p >>= f) :=
  meets_skip_bind hp (fun _ _ _ he => storesParsed_of_within he hw hc) (fun t a _ => hok t a)
    fun _ _ _ => trivial

/-- A program of statements that are all of the rule. -/
theorem storesParsed_of_only {p : Req ε α} (hp : Prog.Only Stmt.StoresParsed p) :
    StoresParsed h p :=
  hp.meets (fun _ _ _ he => he) fun _ _ _ => trivial

theorem storesParsed_within {p : Req ε α} {L : List Effect} (hp : Within L p)
    (hw : .writeCredential ∉ L) (hc : .createHuman ∉ L) : StoresParsed h p :=
  storesParsed_of_only (Prog.Only.mono hp fun _ hs => storesParsed_of_within hs hw hc)

/-- What `hash_password` returns is a hash of Argon2. -/
theorem hashPassword_parsed {pw : Str} {f : Str → Req ε α}
    (hf : ∀ hash h', Platform.argon2WellFormed hash = true → StoresParsed h' (f hash)) :
    StoresParsed h (hashPassword pw >>= f) := by
  intro ctx w _
  exact ⟨trivial, hf _ _ (Platform.argon2Hash_wellFormed w.drawn pw)⟩

theorem rotatePassword_parsed (hh : Platform.argon2WellFormed hash = true) {now : Timestamp} :
    Prog.Only (M := machine) Stmt.StoresParsed
      (rotatePassword actorKey hash now : Req AuthError Bool) := by
  refine ⟨hh, fun r => ?_⟩
  cases r <;> trivial

theorem setPassword_parsed (hh : Platform.argon2WellFormed hash = true) :
    Prog.Only (M := machine) Stmt.StoresParsed (setPassword actorKey hash) := by
  apply Prog.Only.bind (p := getNow) ⟨trivial, fun _ => trivial⟩
  intro now
  apply Prog.Only.bind (rotatePassword_parsed hh)
  intro rotated
  split
  · trivial
  · apply Prog.Only.bind (p := newUuid) ⟨trivial, fun _ => trivial⟩
    intro key
    apply Prog.Only.bind (p := getNow) ⟨trivial, fun _ => trivial⟩
    intro createdAt
    apply Prog.Only.bind
    · apply Prog.Only.attempt
      constructor
      · intro stored heq
        cases heq
        exact hh
      · intro r
        cases r <;> trivial
    · intro created
      split
      · trivial
      · apply Prog.Only.bind (rotatePassword_parsed hh)
        intro rotated
        split <;> trivial

theorem createHumanAggregate_parsed {new : NewHuman}
    (hh : ∀ hash, new.passwordHash = some hash → Platform.argon2WellFormed hash = true) :
    Prog.Only (M := machine) Stmt.StoresParsed (createHumanAggregate new) := by
  apply Prog.Only.bind (p := getNow) ⟨trivial, fun _ => trivial⟩
  intro now
  iterate 6
    apply Prog.Only.bind (p := newUuid) ⟨trivial, fun _ => trivial⟩
    intro _
  apply Prog.Only.bind
  · constructor
    · -- the credential of the new human has the hash that was asked for
      intro x hx stored hstored
      obtain ⟨submitted, hsubmitted, rfl⟩ := Option.map_eq_some_iff.mp hx
      cases hstored
      exact hh stored hsubmitted
    · intro r
      cases r <;> trivial
  · intro _
    trivial

theorem register_parsed {req : CreateUserRequest} {ip : Str} :
    StoresParsed h (register cfg req ip) := by
  apply parsedSkip_bind within_ofExcept (L := []) (by simp) (by simp)
  intro _ email
  apply parsedSkip_bind within_ofExcept (L := []) (by simp) (by simp)
  intro _ _
  apply parsedSkip_bind within_orThrow (L := []) (by simp) (by simp)
  intro _ submitted
  apply parsedSkip_bind within_ofExcept (L := []) (by simp) (by simp)
  intro _ username
  apply parsedSkip_bind findUserByEmail_within (L := []) (by simp) (by simp)
  intro _ existing
  apply parsedSkip_bind within_ensure (L := []) (by simp) (by simp)
  intro _ _
  apply parsedSkip_bind ensureUsernameAvailable_within (L := []) (by simp) (by simp)
  intro _ normalized
  apply hashPassword_parsed
  intro hash h₁ hh
  apply parsedSkip_bind within_getNow (L := []) (by simp) (by simp)
  intro _ now
  apply parsedSkip_bind drawVerificationToken_within (L := []) (by simp) (by simp)
  intro _ verification
  apply Prog.Meets.bind _ _ fun _ _ _ => trivial
  · exact fun _ _ => True
  · apply storesParsed_of_only
    apply Prog.Only.mapError
    apply createHumanAggregate_parsed
    intro stored heq
    cases heq
    exact hh
  · intro _ keys _
    apply storesParsed_within (L := [.updateUser, .createSession]) _ (by simp) (by simp)
    apply Within.bind findUserById_within
    intro found
    apply Within.bind within_orThrow
    intro created
    cases verification with
    | some v => exact within_pure
    | none =>
      apply Within.bind (touchLastLogin_within (by simp))
      intro u
      apply Within.bind passwordRefOf_within
      intro ref
      apply Within.bind (createSession_within (by simp))
      intro issued
      exact within_pure

theorem findOrCreateOauthUser_parsed {info : OAuthUserInfo} :
    StoresParsed h (findOrCreateOauthUser info) := by
  apply parsedSkip_bind resolveBinding_within (L := []) (by simp) (by simp)
  intro _ bound
  cases bound with
  | some actor =>
    apply storesParsed_within (L := []) _ (by simp) (by simp)
    exact .bind (within_read rfl) fun _ => within_orThrow
  | none =>
    apply parsedSkip_bind within_ofExcept (L := []) (by simp) (by simp)
    intro _ email
    apply parsedSkip_bind findUserByEmail_within (L := []) (by simp) (by simp)
    intro _ existing
    apply parsedSkip_bind within_ensure (L := []) (by simp) (by simp)
    intro _ _
    apply parsedSkip_bind firstFreeUsername_within (L := []) (by simp) (by simp)
    intro _ name
    apply Prog.Meets.bind _ _ fun _ _ _ => trivial
    · exact fun _ _ => True
    · apply storesParsed_of_only
      apply Prog.Only.mapError
      apply createHumanAggregate_parsed
      intro stored heq
      cases heq
    · intro _ keys _
      apply storesParsed_within (L := []) _ (by simp) (by simp)
      exact .bind findUserById_within fun _ => within_orThrow

theorem initializePassword_parsed {userId password : Str} :
    StoresParsed h (initializePassword cfg userId password) := by
  apply parsedSkip_bind within_ofExcept (L := []) (by simp) (by simp)
  intro _ _
  apply parsedSkip_bind findUserById_within (L := []) (by simp) (by simp)
  intro _ found
  apply parsedSkip_bind within_orThrow (L := []) (by simp) (by simp)
  intro _ user
  apply parsedSkip_bind within_orThrow (L := []) (by simp) (by simp)
  intro _ actorKey
  apply parsedSkip_bind activePasswordHash_within (L := []) (by simp) (by simp)
  intro _ existing
  apply parsedSkip_bind within_ensure (L := []) (by simp) (by simp)
  intro _ _
  apply hashPassword_parsed
  intro hash h₁ hh
  apply Prog.Meets.bind (storesParsed_of_only (setPassword_parsed hh)) _ fun _ _ _ => trivial
  intro _ _ _
  apply storesParsed_within (L := [.updateUser]) _ (by simp) (by simp)
  exact .bind within_getNow fun _ => updateUser_within (by simp)

theorem resetPassword_parsed {bearer newPassword : Str} :
    StoresParsed h (resetPassword cfg bearer newPassword) := by
  apply parsedSkip_bind within_ofExcept (L := []) (by simp) (by simp)
  intro _ _
  apply parsedSkip_bind (within_write rfl (by simp)) (L := [.spendResetToken]) (by simp) (by simp)
  intro _ claimed
  apply parsedSkip_bind within_ensure (L := []) (by simp) (by simp)
  intro _ _
  apply parsedSkip_bind (within_read rfl) (L := []) (by simp) (by simp)
  intro _ row
  apply parsedSkip_bind within_orThrow (L := []) (by simp) (by simp)
  intro _ resetToken
  apply parsedSkip_bind findUserByEmail_within (L := []) (by simp) (by simp)
  intro _ found
  apply parsedSkip_bind within_orThrow (L := []) (by simp) (by simp)
  intro _ user
  apply parsedSkip_bind within_ofExcept (L := []) (by simp) (by simp)
  intro _ _
  apply parsedSkip_bind within_orThrow (L := []) (by simp) (by simp)
  intro _ actorKey
  apply hashPassword_parsed
  intro hash h₁ hh
  apply Prog.Meets.bind (storesParsed_of_only (setPassword_parsed hh)) _ fun _ _ _ => trivial
  intro _ _ _
  apply storesParsed_within (L := [.updateUser, .spendResetToken, .deleteSession]) _
    (by simp) (by simp)
  apply Within.bind within_getNow
  intro now
  apply Within.bind (updateUser_within (by simp))
  intro _
  apply Within.bind (within_write rfl (by simp))
  intro _
  exact .bind (deleteSessionsByUserId_within (by simp)) fun _ => within_pure

/-- A revocation leaves the hash where it is. -/
theorem updateAccountStatus_parsed {userId : Str} {status : AccountStatus} :
    Prog.Only (M := machine) Stmt.StoresParsed (updateAccountStatus userId status) := by
  have hskip : ∀ {ε α : Type} {p : Req ε α}, Within [.setAccountStatus, .setActorStatus] p →
      Prog.Only (M := machine) Stmt.StoresParsed p := by
    intro ε α p hp
    exact Prog.Only.mono hp fun _ hs => storesParsed_of_within hs (by simp) (by simp)
  have hrevoke : ∀ actorKey, Prog.Only (M := machine) Stmt.StoresParsed
      (revokePassword actorKey : Req AuthError Unit) := by
    intro actorKey
    apply Prog.Only.bind (p := getNow) ⟨trivial, fun _ => trivial⟩
    intro now
    refine ⟨trivial, fun r => ?_⟩
    cases r <;> trivial
  apply Prog.Only.bind (hskip within_orThrow)
  intro key
  apply Prog.Only.bind (hskip (within_read rfl))
  intro found
  apply Prog.Only.bind (hskip within_orThrow)
  intro user
  apply Prog.Only.bind (hskip within_getNow)
  intro now
  apply Prog.Only.bind (hskip (within_write rfl (by simp)))
  intro _
  cases user.subjectId with
  | none => trivial
  | some actorKey =>
    apply Prog.Only.bind (hskip findActorById_within.attempt)
    intro found
    split
    · apply Prog.Only.bind (hskip (setStatus_within (by simp)))
      intro _
      split
      · exact hrevoke actorKey
      · trivial
    · split
      · exact hrevoke actorKey
      · trivial

theorem respond_parsed {f : α → Reply} {p : Req AuthError α} (hp : StoresParsed h p) :
    StoresParsed h (respond f p) := by
  apply Prog.Meets.bind (P := fun _ _ => True)
  · exact hp.mapError (fun _ _ _ => trivial) fun _ _ _ => trivial
  · intro _ _ _
    trivial
  · intro _ _ _
    trivial

/-- **Every request stores hashes of Argon2 only.** -/
theorem hashRule_met : hashRule.Met := by
  intro c
  obtain ⟨cfg, endpoint⟩ := c
  show StoresParsed [] (endpoint.program cfg)
  have hother : .writeCredential ∉ endpoint.effects → .createHuman ∉ endpoint.effects →
      StoresParsed [] (endpoint.program cfg) := by
    intro hw hc
    exact storesParsed_within (Call.within ⟨cfg, endpoint⟩) hw hc
  cases endpoint with
  | register req ip => exact respond_parsed register_parsed
  | oauthCallback info ip =>
    apply respond_parsed
    apply Prog.Meets.bind (P := fun _ _ => True) _ _ fun _ _ _ => trivial
    · apply Prog.Meets.bind findOrCreateOauthUser_parsed _ fun _ _ _ => trivial
      intro _ user _
      apply storesParsed_within (L := [.updateUser, .createSession]) _ (by simp) (by simp)
      apply Within.bind authenticableActorOfUser_within
      intro _
      apply Within.bind (touchLastLogin_within (by simp))
      intro u
      exact createSession_within (by simp)
    · intro _ issued _
      apply storesParsed_within (L := []) _ (by simp) (by simp)
      exact .bind within_getNow fun _ => within_pure
  | initializePassword userId password => exact respond_parsed initializePassword_parsed
  | resetPassword bearer newPassword =>
    apply respond_parsed
    apply Prog.Meets.bind resetPassword_parsed _ fun _ _ _ => trivial
    intro _ userId _
    apply storesParsed_within (L := [.deleteAccess, .deleteRefresh]) _
      (by simp) (by simp)
    exact .mapError (revokeAllTokensForUser_within (by simp) (by simp))
  | updateAccountStatus userId status =>
    apply respond_parsed
    apply Prog.Meets.bind (storesParsed_of_only updateAccountStatus_parsed) _ fun _ _ _ => trivial
    intro _ _ _
    apply storesParsed_within
      (L := [.deleteSession, .deleteAccess, .deleteRefresh]) _ (by simp) (by simp)
    split
    · exact within_pure
    · apply Within.bind (deleteSessionsByUserId_within (by simp)).swallow
      intro _
      exact (revokeAllTokensForUser_within (by simp) (by simp)).swallow
  | _ => exact hother (by simp [Endpoint.effects]) (by simp [Endpoint.effects])

/-- One statement of the rule keeps the stored hashes sound. -/
theorem World.HashesParse.after {e : Entry machine} (hw : e.before.HashesParse)
    (he : Stmt.StoresParsed e.stmt) : e.after.HashesParse := by
  rcases db_executed e with ⟨s, hs⟩ | ⟨-, hsame⟩
  · rw [hs.stmt] at he
    unfold World.HashesParse at hw ⊢
    rw [hs.after]
    cases s with
    | identity s =>
      cases s with
      | credential s =>
        cases s with
        | findPassword a => exact hw
        | rotate a hash now =>
          -- the hash that is written is one that the program has made
          intro x hx
          obtain ⟨y, hy, rfl⟩ := List.mem_map.mp hx
          split
          · intro stored heq
            cases heq
            exact he
          · exact hw y hy
        | create c =>
          intro x hx
          simp only [DbStmt.exec, IdentityStmt.exec, CredentialStmt.exec] at hx
          split at hx
          · exact hw x hx
          · rcases List.mem_append.mp hx with hx | hx
            · exact hw x hx
            · rw [List.mem_singleton.mp hx]
              exact he
        | revoke a now =>
          intro x hx
          obtain ⟨y, hy, rfl⟩ := List.mem_map.mp hx
          split
          · exact hw y hy
          · exact hw y hy
      | createHuman a =>
        intro x hx
        simp only [DbStmt.exec, IdentityStmt.exec, HumanAggregate.create] at hx
        split at hx
        · exact hw x hx
        · rcases List.mem_append.mp hx with hx | hx
          · exact hw x hx
          · exact he x (Option.mem_toList.mp hx)
      | _ => exact hw
    | _ => exact hw
  · unfold World.HashesParse
    rw [hsame]
    exact hw

/-- **Stored hashes are hashes of Argon2**, in every reachable state. -/
theorem hashes_parse {w : World} (hw : w.HashesParse) {c : (server).Conf}
    (hc : Reachable w c) : c.state.HashesParse := by
  have hlift := hc.lift hashRule_met (P := fun _ s => s.HashesParse) hw
    (fun c i r e _ _ hp hbefore _ he => ?_) fun _ _ _ => trivial
  · exact hlift.2
  · rw [← hbefore] at hp
    exact hp.after he

end

/-! ## The errors of a login -/

/-- The errors that a login answers whether or not there is an account. -/
def AuthError.isNeutral : AuthError → Bool
  | .invalidCredentials | .accountLocked _ | .serviceUnavailable _ | .databaseError _ => true
  | _ => false

/-- The errors that a login answers for an account whose password it has
    verified. -/
def AuthError.isLate : AuthError → Bool
  | .databaseError _ | .emailNotVerified | .unauthorized _ | .forbidden _ | .accountSuspended
  | .accountInactive | .accountDeleted => true
  | _ => false

/-- The errors of the lockout check. -/
def AuthError.isGate : AuthError → Bool
  | .accountLocked _ | .serviceUnavailable _ => true
  | _ => false

section

variable {α : Type} {cfg : Config} {email ip userId : Str}

theorem fails_checkWithReauth_gate {check : Req AuthError LockoutCheckResult} :
    Prog.Fails (fun x => x.isGate = true) (checkWithReauth check) := by
  apply Prog.Fails.bind Prog.fails_attempt
  intro first
  split
  · exact Prog.fails_pure
  · exact Prog.fails_mapError fun _ => rfl

omit [Platform] in
theorem refuseLocked_gate {result : LockoutCheckResult} {x : AuthError}
    (h : refuseLocked result = .error x) : x.isGate = true := by
  unfold refuseLocked at h
  split at h
  · cases h
    rfl
  · cases h

theorem fails_ensureNotLockedOut_gate :
    Prog.Fails (fun x => x.isGate = true) (ensureNotLockedOut cfg email ip) := by
  apply Prog.Fails.bind fails_checkWithReauth_gate
  intro ipLockout
  apply Prog.Fails.bind (Prog.fails_ofExcept fun _ => refuseLocked_gate)
  intro _
  apply Prog.Fails.bind fails_checkWithReauth_gate
  intro userLockout
  exact Prog.fails_ofExcept fun _ => refuseLocked_gate

/-- A program all of whose errors are late ones. -/
abbrev FailsLate {α : Type} (p : Req AuthError α) : Prop :=
  Prog.Fails (fun x => x.isLate = true) p

theorem orThrow_late {x : AuthError} {o : Option α} (hx : x.isLate = true) :
    FailsLate (Prog.orThrow x o) :=
  Prog.fails_orThrow hx

theorem ensure_late {p : Prop} [Decidable p] {x : AuthError} (hx : x.isLate = true) :
    FailsLate (Prog.ensure p x) :=
  Prog.fails_ensure fun _ => hx

theorem fails_query_late {s : DbStmt} : FailsLate (query s) := by
  intro r
  cases r with
  | ok a => trivial
  | error x => rfl

omit [Platform] in
theorem gate_late {a : ActorIdentity} {x : AuthError} (h : a.gate .human = .error x) :
    x.isLate = true := by
  unfold ActorIdentity.gate at h
  split at h
  · cases h
    rfl
  · split at h <;> cases h <;> rfl

theorem fails_authenticableActorOfUser_late :
    FailsLate (authenticableActorOfUser userId) := by
  apply Prog.Fails.bind
  · apply Prog.Fails.bind fails_query_late
    intro refs
    exact orThrow_late rfl
  · intro actorKey
    apply Prog.Fails.bind fails_query_late
    intro found
    apply Prog.Fails.bind (orThrow_late rfl)
    intro actor
    apply Prog.Fails.bind (Prog.fails_ofExcept fun _ => gate_late)
    intro _
    apply Prog.Fails.bind fails_query_late
    intro row
    apply Prog.Fails.bind (orThrow_late rfl)
    intro account
    exact Prog.fails_pure

omit [Platform] in
theorem ensureUsable_late {u : User} {x : AuthError} (h : u.ensureUsable = .error x) :
    x.isLate = true := by
  unfold User.ensureUsable at h
  split at h <;> cases h <;> rfl

theorem fails_enabledMethod_late :
    FailsLate (enabledMethod userId) := by
  have hget : Prog.Fails (fun x => x = .userNotFound ∨ x.isLate = true) (getUserMfa userId) := by
    apply Prog.Fails.bind
    · intro r
      cases r with
      | ok a => trivial
      | error x => exact .inr rfl
    · intro found
      exact Prog.fails_orThrow (.inl rfl)
  apply hget.attempt_bind
  · intro m
    exact Prog.fails_pure
  · intro x hx
    rcases hx with rfl | hlate
    · exact Prog.fails_pure
    · cases x with
      | userNotFound => exact Prog.fails_pure
      | _ => exact Prog.fails_throw hlate

theorem fails_createSession_late {user : User} {methods : List AuthenticationMethod}
    {refs : List Str} :
    FailsLate (createSession cfg user methods refs) := by
  apply Prog.Fails.bind (p := getNow) fun _ => trivial
  intro now
  apply Prog.Fails.bind (p := newUuid) fun _ => trivial
  intro key
  apply Prog.Fails.bind (orThrow_late rfl)
  intro actorKey
  apply Prog.Fails.bind fails_query_late
  intro _
  apply Prog.Fails.bind
  · apply Prog.Fails.bind
    · apply Prog.Fails.bind
      · apply Prog.Fails.bind fails_query_late
        intro found
        exact Prog.fails_pure
      · intro found
        exact Prog.fails_pure
    · intro stored
      exact Prog.fails_pure
  · intro has
    exact Prog.fails_pure

theorem fails_loginVerified_late {user : User} {credential : Credential} :
    FailsLate (loginVerified cfg user credential ip) := by
  apply Prog.Fails.bind (ensure_late rfl)
  intro _
  apply Prog.Fails.bind fails_authenticableActorOfUser_late
  intro actor
  apply Prog.Fails.bind (Prog.fails_ofExcept fun _ => ensureUsable_late)
  intro _
  apply Prog.Fails.bind (ensure_late rfl)
  intro _
  apply Prog.Fails.bind fails_enabledMethod_late
  intro method
  split
  · apply Prog.Fails.bind
    · apply Prog.Fails.bind (p := getNow) fun _ => trivial
      intro now
      exact Prog.fails_pure
    · intro challenge
      exact Prog.fails_pure
  · apply Prog.Fails.bind
    · apply Prog.Fails.bind (p := getNow) fun _ => trivial
      intro now
      exact fails_query_late
    · intro user
      apply Prog.Fails.bind fails_createSession_late
      intro issued
      exact Prog.fails_pure

end

/-! ## The work of a login -/

/-- What a statement costs, for a caller who measures time. -/
inductive Work
  | userLookup
  | credentialLookup
  | passwordVerification
  | other
  deriving DecidableEq, Repr

/-- The lockout records belong to what was submitted, whether or not there
    is such an account, and the clock and the random source take no time. -/
def Stmt.work : Stmt → Option Work
  | .now | .uuid | .secureToken | .db (.lockout _) => none
  | .db (.identity (.user (.findByEmail _))) => some .userLookup
  | .db (.identity (.credential (.findPassword _))) => some .credentialLookup
  | .verifyPassword _ _ => some .passwordVerification
  | _ => some .other

def workOf (h : List (Entry machine)) : List Work := h.filterMap fun e => Stmt.work e.stmt

/-- The work of a refusal. -/
def refusalWork : List Work := [.userLookup, .credentialLookup, .passwordVerification]

/-- The hashes of the credentials that a login has read are hashes of
    Argon2. -/
def HashesRead (h : List (Entry machine)) : Prop :=
  ∀ actorKey credential,
    Heard h (.identity (.credential (.findPassword actorKey))) (some credential) →
    credential.Parses

/-- What holds of the end of a login: it is neutral, or the password has
    been verified, if the stored hash could be read; and a refusal of a
    well-formed address has cost the same in any case. -/
structure LoginTold {α : Type} (submitted password : Str) (h : List (Entry machine))
    (r : Except AuthError α) : Prop where
  proved : HashesRead h → (∀ x, r = .error x → x.isNeutral = false) →
    ∃ u, LoginProved h submitted password u
  work : Platform.argon2WellFormed Platform.dummyPasswordHash = true →
    r = .error .invalidCredentials → ∀ address, validateEmail submitted = .ok address →
    workOf h = refusalWork
  found : r ≠ .error .userNotFound

section

variable {α β : Type} {h t : List (Entry machine)} {cfg : Config}
  {submitted password ip hash : Str} {u : User} {credential : Credential}

theorem workOf_append : workOf (h ++ t) = workOf h ++ workOf t := List.filterMap_append

theorem workOf_quiet (ht : ∀ e ∈ t, Stmt.work e.stmt = none) : workOf (h ++ t) = workOf h := by
  rw [workOf_append, workOf, workOf, List.filterMap_eq_nil_iff.mpr ht, List.append_nil]

theorem workOf_snoc {e : Entry machine} {x : Work} (he : Stmt.work e.stmt = some x) :
    workOf (h ++ [e]) = workOf h ++ [x] := by
  rw [workOf_append]
  simp [workOf, he]

theorem HashesRead.of_append (hr : HashesRead (h ++ t)) : HashesRead h :=
  fun actorKey credential hheard => hr actorKey credential (hheard.mono t)

/-- A part of a login. -/
abbrev Telling {α : Type} (Q : List (Entry machine) → Except AuthError α → Prop)
    (h : List (Entry machine)) (p : Req AuthError α) : Prop :=
  p.Meets (fun _ => True) (fun _ _ => True) Q h

omit [Platform] in
/-- An error of the gate or of a table is neutral, and no refusal. -/
theorem isNeutral_of_isGate {x : AuthError} (hx : x.isGate = true) :
    x.isNeutral = true ∧ x ≠ .invalidCredentials ∧ x ≠ .userNotFound := by
  cases x <;> simp_all [AuthError.isGate, AuthError.isNeutral]

omit [Platform] in
theorem ne_of_isLate {x : AuthError} (hx : x.isLate = true) :
    x ≠ .invalidCredentials ∧ x ≠ .userNotFound := by
  cases x <;> simp_all [AuthError.isLate]

theorem loginTold_of_neutral {x : AuthError} (hx : x.isNeutral = true)
    (hwork : x ≠ .invalidCredentials) :
    LoginTold submitted password h (.error x : Except AuthError α) where
  proved _ hall := by
    rw [hall x rfl] at hx
    cases hx
  work _ heq := absurd (Except.error.inj heq) hwork
  found heq := by
    obtain rfl := Except.error.inj heq
    cases hx

theorem loginTold_of_refusal
    (hwork : Platform.argon2WellFormed Platform.dummyPasswordHash = true →
      workOf h = refusalWork) :
    LoginTold submitted password h (.error .invalidCredentials : Except AuthError α) where
  proved _ hall := by cases hall _ rfl
  work hdummy _ _ _ := hwork hdummy
  found heq := by cases heq

theorem loginTold_of_proved {r : Except AuthError α} (hp : LoginProved h submitted password u)
    (hr : ∀ x, r = .error x → x.isLate = true) : LoginTold submitted password h r where
  proved _ _ := ⟨u, hp⟩
  work _ heq := absurd rfl (ne_of_isLate (hr _ heq)).1
  found heq := absurd rfl (ne_of_isLate (hr _ heq)).2

/-- The account does not exist, or has no password: the time is spent all
    the same. -/
theorem refuse_told (hh : workOf h = [.userLookup, .credentialLookup]) :
    Telling (α := α) (LoginTold submitted password) h
      (spendPasswordVerificationTime >>= fun _ => throw .invalidCredentials) := by
  -- what is swallowed does not fail
  have hspend : Telling (fun h' r => r = .ok () ∧
      (Platform.argon2WellFormed Platform.dummyPasswordHash = true → workOf h' = refusalWork)) h
      spendPasswordVerificationTime := by
    apply Prog.meets_swallow.mpr
    unfold verifyPassword
    split
    · intro ctx w _
      have hwork : workOf (h ++ [⟨ctx, .verifyPassword Platform.dummyPasswordHash
          "invalid-password".toList, w⟩]) = refusalWork := by
        rw [workOf_snoc rfl, hh]
        rfl
      exact ⟨trivial, Prog.meets_ensure.mpr ⟨fun _ => ⟨rfl, fun _ => hwork⟩,
        fun _ => ⟨rfl, fun _ => hwork⟩⟩⟩
    · next hdummy => exact ⟨rfl, fun htrue => absurd htrue hdummy⟩
  apply hspend.bind
  · intro t _ hwork
    exact loginTold_of_refusal hwork.2
  · intro t x hwork
    cases hwork.1

/-- The password is compared with the stored hash. -/
theorem verifyPassword_told (hh : workOf h = [.userLookup, .credentialLookup])
    (hparses : HashesRead h → Platform.argon2WellFormed hash = true) {f : Unit → Req AuthError α}
    (hok : ∀ t, (∃ e ∈ h ++ t, e.stmt = .verifyPassword hash password) →
      Platform.argon2Verify hash password = true →
      Telling (LoginTold submitted password) (h ++ t) (f ())) :
    Telling (LoginTold submitted password) h (verifyPassword hash password >>= f) := by
  unfold verifyPassword
  by_cases hformed : Platform.argon2WellFormed hash = true
  · rw [if_pos hformed]
    intro ctx w _
    refine ⟨trivial, meets_ensure_bind (fun htrue => ?_) fun _ => ?_⟩
    · exact hok [_] ⟨_, List.mem_append_right h (List.mem_singleton_self _), rfl⟩ htrue
    · apply loginTold_of_refusal
      intro _
      rw [workOf_snoc rfl, hh]
      rfl
  · -- a hash that Argon2 cannot read is an error of the server
    rw [if_neg hformed]
    constructor
    · intro hread _
      exact absurd (hparses hread) hformed
    · intro _ heq
      cases heq
    · intro heq
      cases heq

theorem loginVerified_told (hp : LoginProved h submitted password u) :
    Telling (LoginTold submitted password) h (loginVerified cfg u credential ip) := by
  have hgrown : Telling (fun h' _ => ∃ t, h' = h ++ t) h (loginVerified cfg u credential ip) :=
    (loginVerified_within (L := [.updateUser, .createSession]) (by simp) (by simp)).meets
      (fun _ _ _ _ => trivial) fun t _ _ => ⟨t, rfl⟩
  apply (hgrown.fails fails_loginVerified_late).weaken (fun _ hw => hw) fun _ _ _ he => he
  intro t r hr
  exact loginTold_of_proved (hp.mono t) hr.2

/-- The actor whose credential is looked up is the one of the account, if
    there is one, and costs nothing. -/
theorem probeActor_told {found : Option User} :
    Telling (fun h' r => ∃ t actorKey, r = .ok actorKey ∧ h' = h ++ t ∧
      (∀ e ∈ t, Stmt.work e.stmt = none) ∧
      ∀ u, found = some u → Probed h' u actorKey) h (probeActor found) := by
  unfold probeActor
  split
  · next actorKey hlinked =>
    refine ⟨[], actorKey, rfl, (List.append_nil h).symm, fun e he => ?_, fun u hu => ?_⟩
    · exact absurd he List.not_mem_nil
    · subst hu
      exact .inl hlinked
  · next hlinked =>
    intro ctx w _
    refine ⟨trivial, [_], _, rfl, rfl, fun e he => ?_, fun u hu => ?_⟩
    · rw [List.mem_singleton.mp he]
      rfl
    · subst hu
      refine .inr ⟨hlinked, ?_⟩
      rw [uuidsOf_append]
      exact List.mem_append_right _ (List.mem_singleton_self _)

/-- The credential of the actor, if a usable one is stored. -/
theorem activePassword_told {actorKey : Str} {f : Option Credential → Req AuthError α}
    (hok : ∀ e stored, Stmt.work e.stmt = some .credentialLookup →
      (∀ credential, stored = some credential →
        Heard (h ++ [e]) (.identity (.credential (.findPassword actorKey))) (some credential) ∧
        credential.isUsable = true) →
      Telling (LoginTold submitted password) (h ++ [e]) (f stored)) :
    Telling (LoginTold submitted password) h (activePassword actorKey >>= f) := by
  unfold activePassword
  rw [Prog.bind_assoc']
  apply meets_query_bind (fun _ _ _ => trivial) _ fun _ _ _ =>
    loginTold_of_neutral rfl (by simp [OfDb.ofDb, AuthError.ofDb])
  intro e found _ he
  apply hok e
  · rw [he.stmt]
    rfl
  · intro credential hcredential
    obtain ⟨rfl, husable⟩ := Option.filter_eq_some_iff.mp hcredential
    exact ⟨he.heard, husable⟩

theorem login_told (hh : workOf h = []) :
    Telling (LoginTold submitted password) h (login cfg submitted password ip) := by
  apply meets_ofExcept_bind
  · intro address hvalid
    have hvalid : validateEmail submitted = .ok address := by
      cases hv : validateEmail submitted with
      | ok a =>
        rw [hv] at hvalid
        cases hvalid
        rfl
      | error x =>
        rw [hv] at hvalid
        cases hvalid
    apply meets_query_bind (fun _ _ _ => trivial) _ fun _ _ _ =>
      loginTold_of_neutral rfl (by simp [OfDb.ofDb, AuthError.ofDb])
    intro e₁ found _ he₁
    have hwork₁ : workOf (h ++ [e₁]) = [.userLookup] := by
      rw [workOf_snoc (x := .userLookup) (by rw [he₁.stmt]; rfl), hh]
      rfl
    apply probeActor_told.bind
    · intro t₁ actorKey hprobe
      obtain ⟨t, key, hkey, ht, hquiet, hprobed⟩ := hprobe
      cases hkey
      obtain rfl := List.append_cancel_left ht
      apply activePassword_told
      intro e₂ stored hwork hstored
      have hwork₂ : workOf (h ++ [e₁] ++ t₁ ++ [e₂]) = [.userLookup, .credentialLookup] := by
        rw [workOf_snoc hwork, workOf_quiet hquiet, hwork₁]
        rfl
      cases found with
      | none => exact refuse_told hwork₂
      | some u =>
        cases stored with
        | none => exact refuse_told hwork₂
        | some credential =>
          obtain ⟨hheard, husable⟩ := hstored credential rfl
          apply meets_orThrow_bind
          · intro hash hhash
            apply verifyPassword_told hwork₂ fun hread => hread _ credential hheard hash hhash
            intro t₃ hverified htrue
            apply loginVerified_told
            constructor
            · exact ⟨address, hvalid, ((he₁.heard.mono t₁).mono [e₂]).mono t₃⟩
            · exact ⟨actorKey, ((hprobed u rfl).mono [e₂]).mono t₃,
                ⟨credential, hash, hheard.mono t₃, husable, hhash, hverified, htrue⟩⟩
          · -- a usable credential has a hash
            intro hnone
            simp [Credential.isUsable, hnone] at husable
    · intro t x hprobe
      obtain ⟨t', key, hkey, -⟩ := hprobe
      cases hkey
  · -- a text that is no address is refused at once, whoever has accounts
    intro x hx
    cases hv : validateEmail submitted with
    | ok a =>
      rw [hv] at hx
      cases hx
    | error y =>
      rw [hv] at hx
      cases hx
      constructor
      · intro _ hall
        cases hall _ rfl
      · intro _ _ address haddress
        cases hv.symm.trans haddress
      · intro heq
        cases heq

theorem LockoutStep.quiet {e : Entry machine} (he : LockoutStep e) : Stmt.work e.stmt = none := by
  rcases he with hnow | ⟨s, hs, -⟩
  · rw [hnow]
    rfl
  · rw [hs]
    rfl

theorem performLogin_told :
    Telling (LoginTold submitted password) [] (performLogin cfg submitted password ip) := by
  have hgate : Telling (fun h' r => ((∃ t, h' = [] ++ t ∧ ∀ e ∈ t, LockoutStep e) ∧
      ∀ x, r = .error x → x.isGate = true)) [] (ensureNotLockedOut cfg submitted ip) := by
    apply Prog.Meets.fails _ fails_ensureNotLockedOut_gate
    apply ensureNotLockedOut_stepping.gather.weaken (fun _ _ => trivial) fun _ _ _ _ => trivial
    intro t r hr
    exact hr.1
  apply hgate.bind
  · intro t _ hpassed
    obtain ⟨⟨t', ht, hquiet⟩, -⟩ := hpassed
    have hwork : workOf ([] ++ t) = [] := workOf_quiet fun e he => by
      rw [List.append_cancel_left ht] at he
      exact (hquiet e he).quiet
    apply (login_told hwork).mapError
    · intro t₂ outcome hr
      exact ⟨fun hread _ => hr.proved hread (by simp), fun _ heq => (by cases heq), by simp⟩
    · intro t₂ x hr
      have hx : loginError x = x := by
        cases x with
        | userNotFound => exact absurd rfl hr.found
        | _ => rfl
      rw [hx]
      exact hr
  · intro t x hgate
    have hneutral := isNeutral_of_isGate (hgate.2 x rfl)
    exact loginTold_of_neutral hneutral.1 hneutral.2.1

theorem loginRoute_told {email : Str} :
    Telling (LoginTold email password) [] (loginRoute cfg email password ip) := by
  have hok : ∀ {h' : List (Entry machine)} {outcome : LoginOutcome} {reply : Reply}
      (t : List (Entry machine)), LoginTold email password h' (.ok outcome) →
      LoginTold email password (h' ++ t) (.ok reply : Except AuthError Reply) := by
    intro h' outcome reply t hr
    refine ⟨fun hread _ => ?_, fun _ heq => (by cases heq), by simp⟩
    obtain ⟨u, hu⟩ := hr.proved hread.of_append (by simp)
    exact ⟨u, hu.mono t⟩
  apply performLogin_told.bind
  · intro t outcome hr
    cases outcome with
    | authenticated issued =>
      intro ctx w _
      exact ⟨trivial, hok [_] hr⟩
    | mfaRequired challenge method =>
      have hdone : LoginTold email password ([] ++ t ++ [])
          (.ok (.mfaRequired challenge method) : Except AuthError Reply) := hok [] hr
      rw [List.append_nil] at hdone
      exact hdone
  · intro t x hr
    exact ⟨fun hread hall => hr.proved hread fun y hy => hall y (by rw [Except.error.inj hy]),
      fun hdummy heq => hr.work hdummy (by rw [Except.error.inj heq]),
      fun heq => hr.found (by rw [Except.error.inj heq])⟩

end

/-! ## The rule -/

/-- What holds of the answer to a login. -/
def LoginConcluded (c : Call) (h : List (Entry machine)) (r : Except Failure Reply) : Prop :=
  ∀ email password ip, c.endpoint = .login email password ip →
    ∃ r' : Except AuthError Reply, r = r'.mapError .auth ∧ LoginTold email password h r'

def disclosureRule : System.Rule server where
  assumes := fun _ => True
  entry := fun _ _ _ => True
  outcome := LoginConcluded

/-- **Every login keeps to the rule.** -/
theorem disclosureRule_met : disclosureRule.Met := by
  intro c
  obtain ⟨cfg, endpoint⟩ := c
  show Prog.Meets (fun _ => True) (fun _ _ => True) (LoginConcluded ⟨cfg, endpoint⟩) []
    (endpoint.program cfg)
  by_cases hlogin : ∃ email password ip, endpoint = .login email password ip
  · obtain ⟨email, password, ip, rfl⟩ := hlogin
    apply Prog.meets_bind.mpr
    apply loginRoute_told.mapError
    · intro t reply hr email' password' ip' heq
      cases heq
      exact ⟨.ok reply, rfl, hr⟩
    · intro t x hr email' password' ip' heq
      cases heq
      exact ⟨.error x, rfl, hr⟩
  · apply Prog.meets_trivial.weaken (fun _ _ => trivial) fun _ _ _ _ => trivial
    intro t r _ email password ip heq
    exact absurd ⟨email, password, ip, heq⟩ hlogin

/-! ## Runs -/

section

variable {w : World} {c : (server).Conf} {i : Nat} {cfg : Config} {email password ip : Str}

/-- The hashes that a request reads are hashes of Argon2, if those of the
    first state are. -/
theorem hashesRead (hw : w.HashesParse) (hc : Reachable w c) :
    HashesRead (entriesOf (S := server) i c.trace) := by
  intro actorKey credential hheard
  obtain ⟨e, he, ha⟩ := hheard
  obtain ⟨tr₁, tr₂, htr⟩ := List.append_of_mem (mem_entriesOf.mp he)
  obtain ⟨c₁, hc₁, -, hstate⟩ := hc.before htr
  have hparses := hashes_parse hw hc₁
  rw [hstate] at hparses
  apply hparses credential
  have hreply := ha.reply
  simp only [DbStmt.exec, IdentityStmt.exec, CredentialStmt.exec, Except.ok.injEq] at hreply
  exact List.mem_of_find?_eq_some hreply

theorem login_concluded (hc : Reachable w c)
    (hreq : c.reqOf i = some ⟨cfg, .login email password ip⟩) {r : Except Failure Reply}
    (hr : c.Returned i r) : ∃ r' : Except AuthError Reply, r = r'.mapError .auth ∧
      LoginTold email password (entriesOf (S := server) i c.trace) r' := by
  obtain ⟨q, hq, hout⟩ := (hc.rule disclosureRule_met fun _ => trivial).returned hr
  obtain rfl := Option.some.inj (hreq.symm.trans hq)
  exact hout email password ip rfl

/-- **The password comes first.** In every run, a login that is answered with
    anything but a refusal, a lock or a failed statement has verified the
    password of the account. -/
theorem account_told_after_password (hw : w.HashesParse) (hc : Reachable w c)
    (hreq : c.reqOf i = some ⟨cfg, .login email password ip⟩) {r : Except Failure Reply}
    (hr : c.Returned i r) (hlate : ∀ x, r = .error (.auth x) → x.isNeutral = false) :
    ∃ u, LoginProved (entriesOf (S := server) i c.trace) email password u := by
  obtain ⟨r', rfl, htold⟩ := login_concluded hc hreq hr
  apply htold.proved (hashesRead hw hc)
  intro x hx
  apply hlate
  rw [hx]
  rfl

/-- **Refusals cost alike.** In every run, whether there is such an account
    or not, a login with a well-formed address that is refused has looked up
    one account and one credential and has verified one password. -/
theorem refusals_cost_alike
    (hdummy : Platform.argon2WellFormed Platform.dummyPasswordHash = true)
    (hc : Reachable w c) (hreq : c.reqOf i = some ⟨cfg, .login email password ip⟩)
    (hr : c.Returned i (.error (.auth .invalidCredentials))) {address : Str}
    (haddress : validateEmail email = .ok address) :
    workOf (entriesOf (S := server) i c.trace) = refusalWork := by
  obtain ⟨r', hr', htold⟩ := login_concluded hc hreq hr
  cases r' with
  | ok reply => cases hr'
  | error x =>
    cases hr'
    exact htold.work hdummy rfl address haddress

end

end

end SoulAuth

namespace SoulAuth.Sample

open Framework Framework.System

theorem fresh_parses : (World.fresh 0).HashesParse := fun _ hx => absurd hx List.not_mem_nil

/-- Request 0 registers Alice, whose address has to be verified, and
    request 1 logs her in before that. -/
def unverifiedLogin : List (server).Action :=
  start verifying (.register registration "ip".toList) :: steps 0 14 ++
    start verifying (.login registration.email password "ip".toList) :: steps 1 5

theorem account_told_after_password_alice : ∃ u,
    LoginProved (entriesOf (S := server) 1 (after unverifiedLogin).trace) registration.email
      password u := by
  have hr : (after unverifiedLogin).Returned 1 (.error (.auth .emailNotVerified)) :=
    Conf.returned_of_outcome (by decide +kernel)
  have hreq : (after unverifiedLogin).reqOf 1 =
      some ⟨verifying, .login registration.email password "ip".toList⟩ := by decide +kernel
  apply account_told_after_password fresh_parses (after_reachable _) hreq hr
  intro x hx
  cases hx
  rfl

/-- Somebody without an account. -/
def stranger : Str := "x@y.z".toList

/-- Request 2 is refused for Alice's address, and request 3 for another. -/
def refusedLogins : List (server).Action :=
  prelude ++ start config (.login registration.email "wrong".toList "ip".toList) :: steps 2 5 ++
    start config (.login stranger password "ip".toList) :: steps 3 6

theorem refusals_cost_alike_stranger :
    workOf (entriesOf (S := server) 3 (after refusedLogins).trace) = refusalWork := by
  have hr : (after refusedLogins).Returned 3 (.error (.auth .invalidCredentials)) :=
    Conf.returned_of_outcome (by decide +kernel)
  have hreq : (after refusedLogins).reqOf 3 =
      some ⟨config, .login stranger password "ip".toList⟩ := by decide +kernel
  have haddress : validateEmail stranger = .ok stranger := by decide
  exact refusals_cost_alike (by decide) (after_reachable _) hreq hr haddress

end SoulAuth.Sample
