import SoulAuth.Database.Machine

/-! # Database access

The methods of the database service that several services share, each a
single statement under the address its caller passes.
-/

namespace SoulAuth

open Framework

variable [Platform] {ε : Type} [OfDb ε]

/-- The address of a `user` row. -/
def userAddress (key : Str) : Str := recordAddress "user".toList key

/-- `find_record_by_field("user", "id", ..)`. -/
def findUserById (id : Str) : Req ε (Option User) :=
  query (.identity (.user (.findById (idArgumentKey id))))

/-- `find_record_by_field("user", "email", ..)`. -/
def findUserByEmail (email : Str) : Req ε (Option User) :=
  query (.identity (.user (.findByEmail email)))

/-- `find_record_by_field("user", "username_normalized", ..)`. -/
def findUserByUsername (normalized : Str) : Req ε (Option User) :=
  query (.identity (.user (.findByUsername normalized)))

/-- `update_record("user", ..)` under the row's own address. -/
def updateUser (user : User) : Req ε User :=
  query (.identity (.user (.update (idArgumentKey (userAddress user.key)) user)))

/-- `find_record_by_field("actor_identity", "id", ..)` under the address of
    a key. -/
def findActorById (actorKey : Str) : Req ε (Option ActorIdentity) :=
  query (.identity (.actor (.find (idArgumentKey (actorAddress actorKey)))))

/-- `actor_ref_of_user`: the key of the actor identity of a user. -/
def actorRefOfUser (userId : Str) : Req AuthError Str := do
  let refs : Option Str ← query (.identity (.user (.subjectOf (normalizeUserId userId))))
  Prog.orThrow (.databaseError "user has no actor_identity".toList) refs

/-- The retry loop around a query that may lose to a concurrent one: the
    whole query is sent again, `n` times at most. -/
def retryOnConflict {M : Machine} {α : Type} :
    Nat → Prog M AuthError α → Prog M AuthError α
  | 0, _ => throw (.databaseError "Failed to record login attempt".toList)
  | n + 1, p => do
    let sent : Except AuthError α ← p.attempt
    match sent with
    | .ok a => return a
    | .error e =>
      if e.isWriteConflict = true ∧ 0 < n then retryOnConflict n p else throw e

/-- `delete_session_by_token`. -/
def deleteSessionByToken (token : Claims) : Req ε Unit :=
  query (.session (.deleteByToken (hashBearer token)))

/-- `delete_sessions_by_user_id`. -/
def deleteSessionsByUserId (userId : Str) : Req ε Unit :=
  query (.session (.deleteByUser (normalizeUserId userId)))

end SoulAuth
