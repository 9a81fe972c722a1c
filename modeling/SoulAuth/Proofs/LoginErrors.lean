import SoulAuth.Framework.Errors
import SoulAuth.Proofs.Footprint
import SoulAuth.Routes.AdminLogin

/-! # The errors of a login

Two refusals are made at one place each: that of the administration, after a
login, and that of an address which is not verified, by a server that asks
for it. No other step of a login ends with one of them.
-/

namespace SoulAuth

open Framework Framework.Prog

variable [Platform]

/-- What a login may fail with. -/
structure LoginFailure (cfg : Config) (x : AuthError) : Prop where
  entry : x ≠ noConsoleAccess
  unverified : x = .emailNotVerified → cfg.emailVerificationEnabled = true

section

variable {cfg : Config} {α : Type}

theorem fails_query {s : DbStmt} : Fails (LoginFailure cfg) (query s : Req AuthError s.Reply) := by
  intro r
  cases r with
  | ok a => trivial
  | error e => exact ⟨nofun, nofun⟩

theorem fails_getNow : Fails (LoginFailure cfg) (getNow : Req AuthError Timestamp) :=
  fun _ => trivial

theorem fails_newUuid : Fails (LoginFailure cfg) (newUuid : Req AuthError Str) :=
  fun _ => trivial

theorem fails_verifyPassword {stored pw : Str} :
    Fails (LoginFailure cfg) (verifyPassword stored pw) := by
  unfold verifyPassword
  split
  · intro ok
    apply fails_ensure
    intro _
    constructor
    · decide
    · intro h
      cases h
  · constructor
    · decide
    · intro h
      cases h

theorem fails_activePassword {actorKey : Str} :
    Fails (LoginFailure cfg) (activePassword actorKey : Req AuthError (Option Credential)) := by
  apply Fails.bind fails_query
  intro found
  exact fails_pure

theorem fails_checkWithReauth {check : Req AuthError LockoutCheckResult} :
    Fails (LoginFailure cfg) (checkWithReauth check) := by
  apply Fails.bind fails_attempt
  intro first
  split
  · exact fails_pure
  · exact fails_mapError fun _ => ⟨nofun, nofun⟩

omit [Platform] in
theorem refuseLocked_error {result : LockoutCheckResult} {x : AuthError}
    (h : refuseLocked result = .error x) : LoginFailure cfg x := by
  unfold refuseLocked at h
  split at h
  · cases h
    exact ⟨nofun, nofun⟩
  · cases h

theorem fails_ensureNotLockedOut {email ip : Str} :
    Fails (LoginFailure cfg) (ensureNotLockedOut cfg email ip) := by
  apply Fails.bind fails_checkWithReauth
  intro ipLockout
  apply Fails.bind (fails_ofExcept fun _ => refuseLocked_error)
  intro _
  apply Fails.bind fails_checkWithReauth
  intro userLockout
  exact fails_ofExcept fun _ => refuseLocked_error

omit [Platform] in
theorem gate_error {a : ActorIdentity} {x : AuthError} (h : a.gate .human = .error x) :
    LoginFailure cfg x := by
  unfold ActorIdentity.gate at h
  split at h
  · cases h
    constructor
    · unfold noConsoleAccess
      intro heq
      exact absurd (AuthError.forbidden.inj heq) (by decide)
    · exact nofun
  · split at h
    · cases h
    · cases h
      exact ⟨nofun, nofun⟩
    · cases h
      exact ⟨nofun, nofun⟩

theorem fails_authenticableActorOfUser {userId : Str} :
    Fails (LoginFailure cfg) (authenticableActorOfUser userId) := by
  apply Fails.bind
  · apply Fails.bind fails_query
    intro refs
    exact fails_orThrow ⟨nofun, nofun⟩
  · intro actorKey
    apply Fails.bind fails_query
    intro found
    apply Fails.bind (fails_orThrow ⟨nofun, nofun⟩)
    intro actor
    apply Fails.bind (fails_ofExcept fun _ => gate_error)
    intro _
    apply Fails.bind fails_query
    intro row
    apply Fails.bind (fails_orThrow ⟨nofun, nofun⟩)
    intro account
    exact fails_pure

omit [Platform] in
theorem ensureUsable_error {u : User} {x : AuthError} (h : u.ensureUsable = .error x) :
    LoginFailure cfg x := by
  unfold User.ensureUsable at h
  split at h <;> cases h <;> exact ⟨nofun, nofun⟩

theorem fails_enabledMethod {userId : Str} :
    Fails (LoginFailure cfg) (enabledMethod userId) := by
  have hget : Fails (LoginFailure cfg) (getUserMfa userId) := by
    apply Fails.bind fails_query
    intro found
    exact fails_orThrow ⟨nofun, nofun⟩
  apply hget.attempt_bind
  · intro m
    exact fails_pure
  · intro x hx
    cases x with
    | userNotFound => exact fails_pure
    | _ => exact fails_throw hx

theorem fails_touchLastLogin {user : User} {ip : Str} :
    Fails (LoginFailure cfg) (touchLastLogin user ip) := by
  apply Fails.bind fails_getNow
  intro now
  exact fails_query

theorem fails_createSession {user : User} {methods : List AuthenticationMethod}
    {refs : List Str} : Fails (LoginFailure cfg) (createSession cfg user methods refs) := by
  apply Fails.bind fails_getNow
  intro now
  apply Fails.bind fails_newUuid
  intro key
  apply Fails.bind (fails_orThrow ⟨nofun, nofun⟩)
  intro actorKey
  apply Fails.bind fails_query
  intro _
  apply Fails.bind
  · apply Fails.bind
    · apply Fails.bind fails_activePassword
      intro found
      exact fails_pure
    · intro h
      exact fails_pure
  · intro has
    exact fails_pure

/-- The two places where the address is found unverified. -/
theorem fails_ensureVerified {p : Prop} [Decidable p] :
    Fails (LoginFailure cfg)
      (Prog.ensure (¬ (cfg.emailVerificationEnabled = true ∧ p)) .emailNotVerified :
        Req AuthError Unit) := by
  apply fails_ensure
  intro hunverified
  constructor
  · exact nofun
  · intro _
    exact (not_not.mp hunverified).1

theorem fails_loginVerified {user : User} {credential : Credential} {ip : Str} :
    Fails (LoginFailure cfg) (loginVerified cfg user credential ip) := by
  apply Fails.bind fails_ensureVerified
  intro _
  apply Fails.bind fails_authenticableActorOfUser
  intro actor
  apply Fails.bind (fails_ofExcept fun _ => ensureUsable_error)
  intro _
  apply Fails.bind fails_ensureVerified
  intro _
  apply Fails.bind fails_enabledMethod
  intro method
  split
  · apply Fails.bind (.bind fails_getNow fun _ => fails_pure)
    intro challenge
    exact fails_pure
  · apply Fails.bind fails_touchLastLogin
    intro user
    apply Fails.bind fails_createSession
    intro issued
    exact fails_pure

theorem fails_login {email password ip : Str} :
    Fails (LoginFailure cfg) (login cfg email password ip) := by
  apply Fails.bind
  · apply fails_ofExcept
    intro x hx
    rcases he : validateEmail email with y | e
    · rw [he] at hx
      cases hx
      exact ⟨nofun, nofun⟩
    · rw [he] at hx
      cases hx
  · intro email
    apply Fails.bind fails_query
    intro found
    apply Fails.bind
    · unfold probeActor
      split
      · exact fails_pure
      · exact fails_newUuid
    · intro actorKey
      apply Fails.bind fails_activePassword
      intro stored
      split
      · apply Fails.bind (fails_orThrow ⟨nofun, nofun⟩)
        intro hash
        apply Fails.bind fails_verifyPassword
        intro _
        exact fails_loginVerified
      · apply Fails.bind fails_swallow
        intro _
        exact fails_throw ⟨nofun, nofun⟩

/-- What the endpoints see of it. -/
theorem fails_performLogin {email password ip : Str} :
    Fails (LoginFailure cfg) (performLogin cfg email password ip) := by
  apply Fails.bind fails_ensureNotLockedOut
  intro _
  apply fails_login.mapError
  intro x hx
  cases x with
  | userNotFound => exact ⟨nofun, nofun⟩
  | _ => exact hx

end

end SoulAuth
