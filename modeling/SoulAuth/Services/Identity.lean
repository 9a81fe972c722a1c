import SoulAuth.Services.Database

/-! # Creating and resolving identities

`authenticable_actor` is the gate of authentication: the identity root
exists, is of the expected kind, is active, and a human has an account.
-/

namespace SoulAuth

open Framework

variable [Platform]

/-- The arguments of `create_human_aggregate`. -/
structure NewHuman where
  email : Str
  username : Str
  usernameNormalized : Str
  emailVerified : Bool
  verificationTokenHash : Option (Hashed Str)
  verificationTokenExpiresAt : Option Timestamp
  passwordHash : Option Str
  binding : Option (Str × Str)

/-- The keys that `create_human_aggregate` draws. -/
structure HumanKeys where
  actor : Str
  user : Str
  account : Str
  credential : Str
  binding : Str
  subject : Str

/-- The rows of a new human. -/
def NewHuman.aggregate (h : NewHuman) (k : HumanKeys) (now : Timestamp) : HumanAggregate where
  actor :=
    { key := k.actor, subjectKey := k.subject, actorKind := .human, status := .active,
      createdAt := now, updatedAt := now }
  account :=
    { key := k.account, actorIdentityId := k.actor, email := h.email, username := h.username,
      usernameNormalized := h.usernameNormalized, emailVerified := h.emailVerified,
      createdAt := now, updatedAt := now }
  user :=
    { key := k.user, subjectId := some k.actor, email := h.email, username := h.username,
      usernameNormalized := h.usernameNormalized, createdAt := now, updatedAt := now,
      verified := h.emailVerified, verificationTokenHash := h.verificationTokenHash,
      verificationTokenExpiresAt := h.verificationTokenExpiresAt, accountStatus := .active,
      membershipLevel := "FREE".toList, membershipExpiry := none, lastLoginAt := none,
      lastLoginIp := none }
  credential := h.passwordHash.map fun p =>
    { key := k.credential, actorIdentityId := k.actor, secretHash := some p, status := .active,
      createdAt := now, rotatedAt := none, revokedAt := none }
  binding := h.binding.map fun b =>
    { key := k.binding, actorIdentityId := k.actor, provider := b.1, providerSubject := b.2,
      verificationState := .verified, boundAt := now, revokedAt := none }

/-- `create_human_aggregate`: the keys of the new actor and user. -/
def createHumanAggregate (h : NewHuman) : Req AuthError (Str × Str) := do
  let now ← getNow
  let actor ← newUuid
  let user ← newUuid
  let account ← newUuid
  let credential ← newUuid
  let binding ← newUuid
  let subject ← newUuid
  let keys : HumanKeys := ⟨actor, user, account, credential, binding, subject⟩
  query (.identity (.createHuman (h.aggregate keys now)))
  return (actor, user)

/-- `resolve_binding`: an external identity leads to an actor through an
    active binding only. -/
def resolveBinding (provider providerSubject : Str) :
    Req AuthError (Option ActorIdentity) := do
  let binding : Option IdentityBinding ←
    query (.identity (.findBinding provider providerSubject))
  match binding with
  | none => return none
  | some b => if b.isActive then findActorById b.actorIdentityId else return none

/-- `create_ai_actor`: a root and nothing else. -/
def createAiActor : Req AuthError ActorIdentity := do
  let subject ← newUuid
  let now ← getNow
  -- the row has no key yet: the database draws one
  let key ← newUuid
  let actor : ActorIdentity :=
    { key := key, subjectKey := subject, actorKind := .aiActor, status := .active,
      createdAt := now, updatedAt := now }
  query (.identity (.actor (.create actor)))
  return actor

/-- `AuthenticableActor`. -/
structure AuthenticableActor where
  actor : ActorIdentity
  account : Option HumanAccount
  deriving DecidableEq, Repr

/-- `AuthenticableActor::subject_key`. -/
def AuthenticableActor.subjectKey (a : AuthenticableActor) : Str := a.actor.subjectKey

/-- The verdict of the gate on a root, before the account is looked up. -/
def ActorIdentity.gate (a : ActorIdentity) (expect : ActorKind) : Except AuthError Unit :=
  if a.actorKind ≠ expect then
    .error (.forbidden s!"This credential path is only for {expect.asStr} subjects")
  else
    match a.status with
    | .active => .ok ()
    | .suspended => .error .accountSuspended
    | .retired => .error .accountDeleted

omit [Platform] in
theorem ActorIdentity.gate_ok {a : ActorIdentity} {expect : ActorKind} {u : Unit}
    (hg : a.gate expect = .ok u) : a.actorKind = expect ∧ a.status = .active := by
  unfold gate at hg
  split at hg
  · cases hg
  · next hk =>
    split at hg
    · next hs => exact ⟨by simpa using hk, hs⟩
    · cases hg
    · cases hg

/-- `authenticable_actor`. -/
def authenticableActor (actorKey : Str) (expect : ActorKind) :
    Req AuthError AuthenticableActor := do
  let found ← findActorById (normalizeActorId actorKey)
  let actor ← Prog.orThrow (.unauthorized "Identity root is missing or unresolvable") found
  Prog.ofExcept (actor.gate expect)
  match expect with
  | .human =>
    let row : Option HumanAccount ← query (.identity (.accountOfActor actor.key))
    let account ← Prog.orThrow
      (.unauthorized "Identity is incomplete and cannot authenticate") row
    return ⟨actor, some account⟩
  | .aiActor => return ⟨actor, none⟩

/-- `authenticable_actor_of_user`. -/
def authenticableActorOfUser (userId : Str) : Req AuthError AuthenticableActor := do
  let actorKey ← actorRefOfUser userId
  authenticableActor actorKey .human

/-- `set_status`. -/
def setStatus (actor : ActorIdentity) (status : ActorStatus) : Req AuthError Unit := do
  let now ← getNow
  query (.identity (.actor (.setStatus actor.key status now)))

end SoulAuth
