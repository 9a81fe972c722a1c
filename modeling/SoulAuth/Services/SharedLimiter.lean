import SoulAuth.Services.Database
import SoulAuth.Services.RateLimiter

/-! # The rate limiter across replicas

Endpoints with a rule of their own are also counted in the database that the
replicas share. The counter is kept per fixed window, by four statements
that are sent together but executed one by one.
-/

namespace SoulAuth

open Framework

/-- A row of `rate_limit`; the record key is the bucket. -/
structure RateRow where
  hits : Nat
  windowIndex : Nat
  clientKey : Str
  endpoint : Str
  updatedAt : Int
  blockedUntil : Option Int
  deriving DecidableEq, Repr

/-- The table `rate_limit` and the clock of the database. -/
structure RateStore where
  rows : Str → Option RateRow
  now : Int

/-- The store of a fresh deployment. -/
def RateStore.fresh (now : Int) : RateStore := ⟨fun _ => none, now⟩

/-- The statements on `rate_limit`. -/
inductive RateStmt
  /-- Clear the count of another window. -/
  | startWindow (bucket : Str) (windowIndex : Nat)
  /-- Count a request. -/
  | countHit (bucket : Str) (windowIndex : Nat) (clientKey endpoint : Str)
  /-- Begin a block when the count is exceeded and none is in force. Answers
      the counts of the rows that it updated. -/
  | blockIfExceeded (bucket : Str) (maxRequests blockDuration : Nat)
  /-- Whether a block is in force, if there is a row. -/
  | readBlocked (bucket : Str)
  /-- `cleanup_shared_records`. -/
  | cleanup
  deriving DecidableEq, Repr

@[reducible] def RateStmt.Reply : RateStmt → Type
  | startWindow _ _ | countHit _ _ _ _ | cleanup => Unit
  | blockIfExceeded _ _ _ => List Nat
  | readBlocked _ => Option Bool

namespace RateRow

/-- A window other than the one the row counts begins. -/
def started (windowIndex : Nat) (r : RateRow) : RateRow :=
  if r.windowIndex ≠ windowIndex then { r with hits := 0, windowIndex := windowIndex } else r

/-- What `countHit` makes of the row it finds. -/
def counted (windowIndex : Nat) (clientKey endpoint : Str) (now : Int) :
    Option RateRow → RateRow
  | some r => { r with hits := r.hits + 1, windowIndex := windowIndex, clientKey := clientKey,
                       endpoint := endpoint, updatedAt := now }
  | none => { hits := 1, windowIndex := windowIndex, clientKey := clientKey,
              endpoint := endpoint, updatedAt := now, blockedUntil := none }

/-- The rows that `blockIfExceeded` updates. -/
def isExceeded (maxRequests : Nat) (now : Int) (r : RateRow) : Bool :=
  maxRequests < r.hits && match r.blockedUntil with
    | some blockedUntil => blockedUntil < now
    | none => true

/-- A block is in force. -/
def isBlocked (now : Int) (r : RateRow) : Bool :=
  match r.blockedUntil with
  | some blockedUntil => now < blockedUntil
  | none => false

/-- The rows that `cleanup` deletes. -/
def isIdle (now : Int) (r : RateRow) : Bool :=
  (match r.blockedUntil with
    | some blockedUntil => blockedUntil < now
    | none => true) && r.updatedAt < now - seconds 3600

end RateRow

/-- Execute a statement at the time `now` of the database. -/
def RateStmt.exec (now : Int) : (s : RateStmt) → (Str → Option RateRow) →
    s.Reply × (Str → Option RateRow)
  | startWindow bucket w, rows =>
    ((), Function.update rows bucket ((rows bucket).map (RateRow.started w)))
  | countHit bucket w clientKey endpoint, rows =>
    ((), Function.update rows bucket
      (some (RateRow.counted w clientKey endpoint now (rows bucket))))
  | blockIfExceeded bucket maxRequests blockDuration, rows =>
    ((((rows bucket).filter (RateRow.isExceeded maxRequests now)).map RateRow.hits).toList,
      Function.update rows bucket ((rows bucket).map fun r =>
        if r.isExceeded maxRequests now then
          { r with blockedUntil := some (now + blockDuration) }
        else r))
  | readBlocked bucket, rows => ((rows bucket).map (RateRow.isBlocked now), rows)
  | cleanup, rows => ((), fun bucket => (rows bucket).filter fun r => !r.isIdle now)

/-- The store as a machine; statements fail as those of the database do. -/
@[reducible] def rateMachine : Machine where
  State := RateStore
  Stmt := RateStmt
  Resp := fun s => Except DbFailure s.Reply
  Ctx := Ctx
  exec := fun ctx s store =>
    let now := store.now + ctx.elapsed
    let out := s.exec now store.rows
    match ctx.fault with
    | none => (.ok out.1, ⟨out.2, now⟩)
    | some .lostReply => (.error .connection, ⟨out.2, now⟩)
    | some .refused => (.error .connection, ⟨store.rows, now⟩)
    | some .conflict => (.error .conflict, ⟨store.rows, now⟩)

/-- Issue one of the statements. -/
def rateQuery (s : RateStmt) : Prog rateMachine AuthError s.Reply :=
  .step s fun r => .done (r.mapError AuthError.ofDb)

/-- The length of the fixed window and of a block: whole seconds, one at
    least. -/
def RateLimitRule.windowSecs (rule : RateLimitRule) : Nat :=
  max 1 (rule.windowDuration / seconds 1)

def RateLimitRule.blockSecs (rule : RateLimitRule) : Nat :=
  max 1 (rule.blockDuration / seconds 1)

/-- The window index of a replica whose clock reads `nowSecs`. -/
def RateLimitRule.windowIndex (rule : RateLimitRule) (nowSecs : Nat) : Nat :=
  nowSecs / rule.windowSecs

/-- The query of `shared_decision`. -/
def sendShared (bucket : Str) (rule : RateLimitRule) (key endpoint : Str) (nowSecs : Nat) :
    Prog rateMachine AuthError RateLimitDecision := do
  let started : Except AuthError Unit ←
    Prog.attempt (rateQuery (.startWindow bucket (rule.windowIndex nowSecs)))
  let counted : Except AuthError Unit ←
    Prog.attempt (rateQuery (.countHit bucket (rule.windowIndex nowSecs) key endpoint))
  let exceeded : Except AuthError (List Nat) ← Prog.attempt
    (rateQuery (.blockIfExceeded bucket rule.maxRequests (seconds rule.blockSecs)))
  let read : Except AuthError (Option Bool) ← Prog.attempt (rateQuery (.readBlocked bucket))
  Prog.ofExcept started
  Prog.ofExcept counted
  let justBlocked ← Prog.ofExcept exceeded
  let blocked ← Prog.ofExcept read
  return if justBlocked ≠ [] then .justBlocked
    else if blocked.getD false then .stillBlocked else .allowed

/-- `WRITE_CONFLICT_RETRIES` of the limiter. -/
def sharedConflictRetries : Nat := 4

/-- `shared_decision`. -/
def sharedDecision (bucket : Str) (rule : RateLimitRule) (key endpoint : Str)
    (nowSecs : Nat) : Prog rateMachine AuthError RateLimitDecision :=
  retryOnConflict sharedConflictRetries (sendShared bucket rule key endpoint nowSecs)

/-- `check_shared`: endpoints with a rule of their own only, and an error of
    the store lets the request pass. -/
def checkShared (l : RateLimiter) (bucketId : Str → Str → Str) (key endpoint : Str)
    (nowSecs : Nat) : Prog rateMachine AuthError RateLimitDecision :=
  match l.endpointRules.lookup endpoint with
  | none => return .allowed
  | some rule => do
    let decided : Except AuthError RateLimitDecision ←
      (sharedDecision (bucketId key endpoint) rule key endpoint nowSecs).attempt
    return match decided with
      | .ok decision => decision
      | .error _ => .allowed

/-- What the replicas do with the store: the check of a request, by the
    clock of its replica, and the cleanup. -/
inductive SharedRequest
  | check (key endpoint : Str) (nowSecs : Nat)
  | cleanup
  deriving DecidableEq

/-- The replicas, all configured alike, and their store. `bucketId` is
    `shared_bucket_id`, a digest. -/
@[reducible] def replicas (l : RateLimiter) (bucketId : Str → Str → Str) : System where
  machine := rateMachine
  Req := SharedRequest
  Err := AuthError
  Res := Option RateLimitDecision
  program := fun
    | .check key endpoint nowSecs => do
      let decision ← checkShared l bucketId key endpoint nowSecs
      return some decision
    | .cleanup => do
      Prog.swallow (rateQuery .cleanup)
      return none

end SoulAuth
