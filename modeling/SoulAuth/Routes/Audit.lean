import SoulAuth.Services.AuditLogger

/-! # The verification of the audit chains

`verify_integrity` reads the rows, counts those without a chain, and reads
the checkpoints, by three statements. The report is computed from what they
returned. The tasks around the audit tables form a system of their own.
-/

namespace SoulAuth

open Framework

/-- Where and why a chain is reported broken. -/
structure Broken where
  chain : Str
  seq : Int
  reason : Str
  deriving DecidableEq, Repr

/-- `AuditIntegrityReport`. -/
structure AuditIntegrityReport where
  intact : Bool
  checked : Nat
  unchained : Nat
  chains : Nat
  brokenChain : Option Str
  brokenAt : Option Int
  brokenReason : Option Str
  checkpoints : Nat
  checkpointsVerified : Nat
  deriving DecidableEq, Repr

/-! ## Rows -/

namespace ScannedRow

/-- The columns of a row with the verifier's defaults. -/
def chain (row : ScannedRow) : Str := row.chainId.getD []

def number (row : ScannedRow) : Int := row.seq.asI64.getD 0

def previous (row : ScannedRow) : Str := row.previousHash.getD []

def stored (row : ScannedRow) : Str := row.eventHash.getD []

/-- What the verifier hashes for a row that follows the hash
    `previousHash`. -/
def digest (previousHash : Str) (row : ScannedRow) : DigestInput where
  chainId := row.chain
  seq := row.number
  previousHash := previousHash
  action := row.action
  category := row.category
  status := row.status
  actorIdentityId := normalizeActorId row.actorIdentityId
  ipAddress := row.ipAddress
  userAgent := row.userAgent
  detailsJson := row.details.canonical
  timestamp := row.timestamp.asI64.getD 0

end ScannedRow

/-- The variables of the loop over the rows. -/
structure ChainScan where
  previousHash : Str
  expectedSeq : Int
  broken : Option Broken
  checked : Nat
  currentChain : Str
  chains : Nat
  /-- The hash of the row at a position. -/
  anchors : Str × Int → Option Str

namespace ChainScan

/-- The variables before the loop. -/
def init : ChainScan := ⟨genesisHash, 1, none, 0, [], 0, fun _ => none⟩

/-- A row of another chain than the last one starts from the beginning. -/
def enter (s : ChainScan) (row : ScannedRow) : ChainScan :=
  if row.chain ≠ s.currentChain then
    { s with currentChain := row.chain, previousHash := genesisHash, expectedSeq := 1,
             chains := s.chains + 1 }
  else s

variable [Platform]

/-- What is wrong with a row, if anything. -/
def reason (s : ChainScan) (row : ScannedRow) : Option Str :=
  if row.number ≠ s.expectedSeq then some "missing_seq".toList
  else if row.previous ≠ s.previousHash then some "previous_hash".toList
  else if eventHash (row.digest s.previousHash) ≠ row.stored then some "event_hash".toList
  else none

/-- The body of the loop. -/
def next (s : ChainScan) (row : ScannedRow) : ChainScan :=
  let s := { s with checked := s.checked + 1 }
  let s := s.enter row
  match s.reason row with
  | some reason => { s with broken := some ⟨row.chain, row.number, reason⟩ }
  | none =>
    { s with
      anchors := Function.update s.anchors (row.chain, row.number) (some row.stored)
      previousHash := row.stored
      expectedSeq := row.number + 1 }

/-- The loop, left at the first broken row. -/
def loop (s : ChainScan) : List ScannedRow → ChainScan
  | [] => s
  | row :: rows =>
    let s := s.next row
    if s.broken.isSome then s else s.loop rows

end ChainScan

/-! ## Checkpoints -/

/-- The variables of the loop over the checkpoints. -/
structure CheckpointScan where
  verified : Nat
  broken : Option Broken

section

variable [CheckpointKeys]

/-- The columns of a checkpoint with the verifier's defaults. -/
def Checkpoint.number (cp : Checkpoint) : Int := cp.seqTo.asI64.getD 0

/-- The checkpoint is under the key `own`, and its signature verifies. -/
def Checkpoint.isOwn (own : Option Str) (cp : Checkpoint) : Bool :=
  own = some cp.publicKey &&
    verifyCheckpoint cp.publicKey cp.signature cp.chainId cp.number cp.headHash
      (cp.createdAt.asI64.getD 0)

/-- The body of the loop over the checkpoints. -/
def CheckpointScan.next (own : Option Str) (anchors : Str × Int → Option Str)
    (s : CheckpointScan) (cp : Checkpoint) : CheckpointScan :=
  if cp.isOwn own then
    if anchors (cp.chainId, cp.number) = some cp.headHash then
      { s with verified := s.verified + 1 }
    else
      { s with broken := s.broken.or
                (some ⟨cp.chainId, cp.number, "checkpoint_anchor".toList⟩) }
  else s

variable [Platform]

/-- The public key of this instance. -/
def ownPublicKey (auditIntegrityKey : Option Str) : Option Str :=
  (auditIntegrityKey.bind CheckpointKeys.fromSeedB64).map CheckpointKeys.publicKeyB64

/-- The report on what the three statements returned. -/
def integrityReport (own : Option Str) (rows : List ScannedRow) (unchained : Nat)
    (cps : List Checkpoint) : AuditIntegrityReport :=
  let chain := ChainScan.init.loop rows
  let scan := cps.foldl (CheckpointScan.next own chain.anchors) ⟨0, chain.broken⟩
  { intact := scan.broken.isNone && 0 < chain.checked && 0 < scan.verified
    checked := chain.checked
    unchained := unchained
    chains := chain.chains
    brokenChain := scan.broken.map Broken.chain
    brokenAt := scan.broken.map Broken.seq
    brokenReason := scan.broken.map Broken.reason
    checkpoints := cps.length
    checkpointsVerified := scan.verified }

/-! ## The endpoint -/

/-- What an audit task fails with. -/
inductive AuditError
  | auth (e : AuthError)
  | other (message : Str)
  deriving DecidableEq, Repr

/-- A failed statement of `verify_integrity`. -/
def integrityError (e : DbFailure) : AuditError := .auth (.databaseError e.errorText)

/-- `verify_integrity`. -/
def verifyIntegrity (auditIntegrityKey : Option Str) :
    AuditTask AuditError AuditIntegrityReport := do
  let rows : List ScannedRow ← Prog.mapError integrityError (auditQuery .scan)
  let unchained : Nat ← Prog.mapError integrityError (auditQuery .countUnchained)
  let cps : List Checkpoint ← Prog.mapError integrityError (auditQuery .checkpoints)
  return integrityReport (ownPublicKey auditIntegrityKey) rows unchained cps

/-! ## The system -/

/-- The tasks on the audit tables: the writer of an instance and the
    messages it receives, a checkpoint, and a verification. -/
inductive AuditRequest
  | write (chainId : Str) (messages : List AuditMsg)
  | checkpoint (signer : CheckpointKeys.Signer) (chainId : Str)
  | verify (auditIntegrityKey : Option Str)

inductive AuditAnswer
  | written (dropped : Nat)
  | issued (seqTo : Option Int)
  | report (r : AuditIntegrityReport)
  deriving DecidableEq, Repr

/-- The instances and their database. -/
@[reducible] def auditors : System where
  machine := auditMachine
  Req := AuditRequest
  Err := AuditError
  Res := AuditAnswer
  program := fun
    | .write chainId messages => do
      let dropped ← serveAudit chainId none 0 messages
      return .written dropped
    | .checkpoint signer chainId => do
      let seqTo ← Prog.mapError AuditError.other (issueCheckpoint signer chainId)
      return .issued seqTo
    | .verify auditIntegrityKey => do
      let r ← verifyIntegrity auditIntegrityKey
      return .report r

end

end SoulAuth
