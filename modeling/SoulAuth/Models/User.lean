import SoulAuth.Error
import SoulAuth.Platform

/-! # Accounts: the `user` row and its status -/

namespace SoulAuth

/-- Unix seconds. -/
abbrev Timestamp := Int

/-- `AccountStatus`. The column is a string, but every writer stores a
    variant's name and an unknown name is read as `inactive`. -/
inductive AccountStatus
  | active
  | inactive
  | suspended
  | deleted
  deriving DecidableEq, Repr

/-- `User`, with the record key in place of `id` and the key of the actor
    identity in place of `subject_id`. -/
structure User where
  key : Str
  subjectId : Option Str
  email : Str
  username : Str
  usernameNormalized : Str
  createdAt : Timestamp
  updatedAt : Timestamp
  verified : Bool
  verificationTokenHash : Option (Hashed Str)
  verificationTokenExpiresAt : Option Timestamp
  accountStatus : AccountStatus
  membershipLevel : Str
  membershipExpiry : Option Timestamp
  lastLoginAt : Option Timestamp
  lastLoginIp : Option Str
  deriving DecidableEq, Repr

/-- `User::ensure_usable`: only an active account passes. -/
def User.ensureUsable (u : User) : Except AuthError Unit :=
  match u.accountStatus with
  | .active => .ok ()
  | .suspended => .error .accountSuspended
  | .inactive => .error .accountInactive
  | .deleted => .error .accountDeleted

@[simp] theorem User.ensureUsable_ok {u : User} :
    u.ensureUsable = .ok () ↔ u.accountStatus = .active := by
  unfold ensureUsable; split <;> simp_all

/-- The `UserResponse` of a row. -/
structure UserResponse where
  id : Str
  email : Str
  username : Str
  verified : Bool
  membershipLevel : Str
  membershipExpiry : Option Timestamp
  createdAt : Timestamp
  hasPassword : Bool
  accountStatus : AccountStatus
  lastLoginAt : Option Timestamp
  deriving DecidableEq, Repr

/-- `UserResponse::of`. -/
def UserResponse.of (u : User) (hasPassword : Bool) : UserResponse where
  id := u.key
  email := u.email
  username := u.username
  verified := u.verified
  membershipLevel := u.membershipLevel
  membershipExpiry := u.membershipExpiry
  createdAt := u.createdAt
  hasPassword := hasPassword
  accountStatus := u.accountStatus
  lastLoginAt := u.lastLoginAt

end SoulAuth
