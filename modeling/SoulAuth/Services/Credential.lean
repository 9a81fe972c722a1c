import SoulAuth.Services.Database

/-! # Password credentials -/

namespace SoulAuth

open Framework

variable [Platform] {ε : Type} [OfDb ε]

/-- `find_password`. -/
def findPassword (actorKey : Str) : Req ε (Option Credential) :=
  query (.identity (.credential (.findPassword actorKey)))

/-- `active_password`. -/
def activePassword (actorKey : Str) : Req ε (Option Credential) := do
  let found ← findPassword actorKey
  return found.filter Credential.isUsable

/-- `active_password_hash`. -/
def activePasswordHash (actorKey : Str) : Req ε (Option Str) := do
  let found ← activePassword actorKey
  return found.bind Credential.secretHash

/-- `has_password`. -/
def hasPassword (actorKey : Str) : Req ε Bool := do
  let h ← activePasswordHash actorKey
  return h.isSome

/-- `rotate_password`. -/
def rotatePassword (actorKey secretHash : Str) (now : Timestamp) : Req ε Bool :=
  query (.identity (.credential (.rotate actorKey secretHash now)))

/-- `Credential::new_password`. -/
def Credential.newPassword (key actorKey secretHash : Str) (now : Timestamp) : Credential where
  key := key
  actorIdentityId := actorKey
  secretHash := some secretHash
  status := .active
  createdAt := now
  rotatedAt := none
  revokedAt := none

/-- `set_password`: rotate the credential, or create it when there is none;
    when the creation fails the credential is rotated after all. -/
def setPassword (actorKey secretHash : Str) : Req AuthError Unit := do
  let now ← getNow
  let rotated ← rotatePassword actorKey secretHash now
  if rotated then return () else
    -- the row has no key yet: the database draws one
    let key ← newUuid
    let createdAt ← getNow
    let credential := Credential.newPassword key actorKey secretHash createdAt
    let created : Except AuthError Unit ←
      Prog.attempt (query (.identity (.credential (.create credential))))
    match created with
    | .ok _ => return ()
    | .error e =>
      let rotated ← rotatePassword actorKey secretHash now
      if rotated then return () else throw e

/-- `revoke_password`. -/
def revokePassword (actorKey : Str) : Req ε Unit := do
  let now ← getNow
  query (.identity (.credential (.revoke actorKey now)))

end SoulAuth
