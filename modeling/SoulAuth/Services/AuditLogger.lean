import SoulAuth.Services.AuditIntegrity

/-! # The audit writer

One task of every process writes the events of the process to the chain of
the process. The head of the chain is read once and then kept in memory.
-/

namespace SoulAuth

open Framework

/-- `Msg`. -/
inductive AuditMsg
  | event (e : AuditEvent)
  | flush

/-- `AUDIT_HEALTHY` and `AUDIT_DROPPED`. -/
structure AuditHealth where
  healthy : Bool
  dropped : Nat
  deriving DecidableEq

/-- The flag and the counter when the process starts. -/
def AuditHealth.init : AuditHealth := ⟨true, 0⟩

/-- `mark_dropped`. -/
def AuditHealth.markDropped (health : AuditHealth) : AuditHealth := ⟨false, health.dropped + 1⟩

/-- `audit_health`. -/
def AuditHealth.report (health : AuditHealth) : Bool × Nat := (health.healthy, health.dropped)

/-- `WRITE_ATTEMPTS`. -/
def auditWriteAttempts : Nat := 3

/-- `ChainLink`: the place of an event in the chain, and the derived values
    that its digest covers. -/
structure ChainLink where
  seq : Int
  previousHash : Str
  hash : Str
  timestamp : Int
  /-- The bare key of the actor, or nothing. -/
  actorKey : Str

variable {ε : Type}

/-- The head behind a last row; an empty chain begins at the genesis. -/
def headOf : Option (DbNumber × Option Str) → ChainHead
  | none => ⟨0, genesisHash⟩
  | some (seq, eventHash) => ⟨seq.asI64.getD 0, eventHash.getD genesisHash⟩

/-- `load_chain_head`: `none` when the head cannot be read, which is not the
    same as an empty chain. -/
def loadChainHead (chainId : Str) : AuditTask ε (Option ChainHead) := do
  let rows : Except DbFailure (Option (DbNumber × Option Str)) ←
    (auditQuery (.chainHead chainId)).attempt
  return match rows with
    | .error _ => none
    | .ok row => some (headOf row)

/-- The remembered head, or the one that is read. -/
def knownHead (chainId : Str) : Option ChainHead → AuditTask ε (Option ChainHead)
  | some head => return some head
  | none => loadChainHead chainId

/-- `resolve_actor_key`: the empty key when there is no actor. -/
def resolveActorKey : Option Str → AuditTask ε Str
  | none => return []
  | some raw => do
    let userKey := normalizeUserId raw
    if userKey = [] then return []
    let address : Except DbFailure (Option Str) ← (auditQuery (.resolveActor userKey)).attempt
    return match address with
      | .ok (some address) => normalizeActorId address
      | _ => []

/-- The row that `write_event` creates. -/
def AuditEvent.row (event : AuditEvent) (link : ChainLink) (chainId : Str) : ActivityRow where
  actorIdentityId := if link.actorKey ≠ [] then some link.actorKey else none
  action := event.action
  category := event.category.toText
  ipAddress := event.ipAddress
  userAgent := event.userAgent
  details := event.details.members
  status := event.status.toText
  timestamp := .int link.timestamp
  chainId := some chainId
  seq := some (.int link.seq)
  previousHash := some link.previousHash
  eventHash := some link.hash

/-- An actor that has been resolved already comes first. -/
def actorKeyOf (event : AuditEvent) : AuditTask ε Str :=
  match event.actorIdentityId with
  | some raw => return normalizeActorId raw
  | none => resolveActorKey event.userId

/-- `write_event`. -/
def writeEvent (event : AuditEvent) (link : ChainLink) (chainId : Str) :
    AuditTask DbFailure Unit :=
  auditQuery (.writeEvent (event.row link chainId))

/-- The attempts of `write_with_retry`; whether one of them succeeded. -/
def attemptWrite (event : AuditEvent) (link : ChainLink) (chainId : Str) :
    Nat → AuditTask ε Bool
  | 0 => return false
  | n + 1 => do
    let sent : Except DbFailure Unit ← (writeEvent event link chainId).attempt
    match sent with
    | .ok () => return true
    | .error _ => attemptWrite event link chainId n

/-- The content of an event at a place of a chain. -/
def AuditEvent.digest (event : AuditEvent) (chainId : Str) (head : ChainHead) (timestamp : Int)
    (actorKey : Str) : DigestInput where
  chainId := chainId
  seq := head.seq + 1
  previousHash := head.hash
  action := event.action
  category := event.category.toText
  status := event.status.toText
  actorIdentityId := actorKey
  ipAddress := event.ipAddress
  userAgent := event.userAgent
  detailsJson := (Json.object event.details.members).canonical
  timestamp := timestamp

variable [Platform]

/-- What `write_with_retry` computes before the first attempt. -/
def AuditEvent.link (event : AuditEvent) (chainId : Str) (head : ChainHead) (timestamp : Int)
    (actorKey : Str) : ChainLink where
  seq := head.seq + 1
  previousHash := head.hash
  hash := eventHash (event.digest chainId head timestamp actorKey)
  timestamp := timestamp
  actorKey := actorKey

/-- `write_with_retry`: the head afterwards, and how many events were dropped. -/
def writeWithRetry (event : AuditEvent) (head : ChainHead) (chainId : Str) :
    AuditTask ε (ChainHead × Nat) := do
  let timestamp ← auditNow
  let actorKey ← actorKeyOf event
  let link := event.link chainId head timestamp actorKey
  let written ← attemptWrite event link chainId auditWriteAttempts
  return if written then (⟨link.seq, link.hash⟩, 0) else (head, 1)

/-- The loop of `AuditLogger::start` over the messages that arrive; how many
    events were dropped. -/
def serveAudit (chainId : Str) : Option ChainHead → Nat → List AuditMsg → AuditTask ε Nat
  | head, dropped, [] => do
    receive head
    return dropped
  | head, dropped, .flush :: messages => do
    receive head
    serveAudit chainId head dropped messages
  | head, dropped, .event event :: messages => do
    receive head
    let head ← knownHead chainId head
    match head with
    | some known => do
      let out ← writeWithRetry event known chainId
      serveAudit chainId (some out.1) (dropped + out.2) messages
    | none => serveAudit chainId none (dropped + 1) messages

end SoulAuth
