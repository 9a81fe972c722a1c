import SoulAuth.Services.Credential
import SoulAuth.Services.Identity

/-! # Administration of accounts -/

namespace SoulAuth

open Framework

variable [Platform]

/-- `normalize_membership_level`. -/
def normalizeMembershipLevel (level : Str) : Except AuthError Str :=
  let normalized := (Str.trim level).map Char.toUpper
  if normalized = [] ∨ 32 < Str.byteLen normalized then
    .error (.validationError "Membership level must be 1 to 32 characters")
  else if normalized.all fun c => Str.isAsciiAlphanumeric c || c = '_' || c = '-' then
    .ok normalized
  else .error (.validationError
    "Membership level may contain only letters, digits, `_` and `-`")

/-- `update_membership`. -/
def updateMembership (userId level : Str) (expiry : Option Timestamp) :
    Req AuthError UserResponse := do
  let found : Option User ← findUserById userId
  let user ← Prog.orThrow (.notFound "User not found") found
  let level ← Prog.ofExcept (normalizeMembershipLevel level)
  let now ← getNow
  let updated ← updateUser
    { user with membershipLevel := level, membershipExpiry := expiry, updatedAt := now }
  match updated.subjectId with
  | none => return .of updated false
  | some actorKey =>
    let has ← hasPassword actorKey
    return .of updated has

/-- The actor status that goes with an account status. -/
def AccountStatus.actorStatus : AccountStatus → ActorStatus
  | .active => .active
  | .inactive | .suspended | .deleted => .suspended

/-- The part of `update_account_status` that follows the account to its
    actor and its credential. -/
def syncActorStatus (actorKey : Str) (status : AccountStatus) : Req AuthError Unit := do
  let found : Except AuthError (Option ActorIdentity) ← (findActorById actorKey).attempt
  match found with
  | .ok (some actor) =>
    setStatus actor status.actorStatus
    if status = .deleted then revokePassword actorKey else return ()
  | _ => if status = .deleted then revokePassword actorKey else return ()

/-- `update_account_status`. -/
def updateAccountStatus (userId : Str) (status : AccountStatus) : Req AuthError Unit := do
  let key ← Prog.orThrow .invalidUserId (userRecordKey userId)
  let found : Option User ← query (.identity (.user (.findById key)))
  let user ← Prog.orThrow (.notFound "User not found") found
  let now ← getNow
  query (.identity (.user (.setAccountStatus key status now)))
  match user.subjectId with
  | some actorKey => syncActorStatus actorKey status
  | none => return ()

end SoulAuth
