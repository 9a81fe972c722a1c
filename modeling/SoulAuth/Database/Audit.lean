import SoulAuth.Database.Machine
import SoulAuth.Models.UserActivity

/-! # The audit tables as a machine

The writers of all instances, the tasks that issue checkpoints and the
verifier work on the two audit tables, statement by statement.
-/

namespace SoulAuth

open Framework

/-- `ChainHead`: where the next event of a chain is attached. -/
structure ChainHead where
  seq : Int
  hash : Str
  deriving DecidableEq, Repr

/-- The audit tables and the clock, in seconds. -/
structure AuditStore where
  activity : List ActivityRow
  checkpoints : List Checkpoint
  now : Int

/-- What the scheduler decides with every statement: how much time has
    passed, whether the statement fails, how rows are rendered, and the
    address that a user key leads to. -/
structure AuditCtx where
  elapsed : Nat
  fault : Option Fault
  rendering : Rendering
  subject : Option Str

/-- No time passes, nothing fails, and values are returned as stored. -/
def AuditCtx.calm : AuditCtx := ⟨0, none, .plain, none⟩

/-! ## Queries -/

/-- The order of chain identifiers; no chain comes before all chains. -/
def chainLt : Option Str → Option Str → Bool
  | none, some _ => true
  | some c, some d => c < d
  | _, none => false

/-- `ORDER BY chain_id ASC, seq ASC`. -/
def ScannedRow.Le (a b : ScannedRow) : Prop :=
  chainLt a.chainId b.chainId = true ∨ a.chainId = b.chainId ∧ a.seq ≤ b.seq

instance : DecidableRel ScannedRow.Le := fun a b =>
  inferInstanceAs (Decidable
    (chainLt a.chainId b.chainId = true ∨ a.chainId = b.chainId ∧ a.seq ≤ b.seq))

/-- `audit_integrity_scan`. -/
def scanRows (ρ : Rendering) (activity : List ActivityRow) : List ScannedRow :=
  (activity.filterMap fun row => row.seq.map (row.scanned ρ)).insertionSort ScannedRow.Le

/-- The `seq` and the hash of a row of a chain. -/
def ActivityRow.link (chainId : Str) (row : ActivityRow) : Option (DbNumber × Option Str) :=
  if row.chainId = some chainId then row.seq.map fun seq => (seq, row.eventHash) else none

/-- `ORDER BY seq DESC`. -/
def LinkGe (a b : DbNumber × Option Str) : Prop := b.1 ≤ a.1

instance : DecidableRel LinkGe := fun a b => inferInstanceAs (Decidable (b.1 ≤ a.1))

/-- `audit_chain_head` and `audit_checkpoint_head`: the row of a chain with
    the largest `seq`. -/
def chainHeadRow (chainId : Str) (activity : List ActivityRow) :
    Option (DbNumber × Option Str) :=
  ((activity.filterMap (·.link chainId)).insertionSort LinkGe).head?

/-- `audit_checkpoint_last`: the largest `seq_to` of a chain. -/
def lastCheckpoint (chainId : Str) (checkpoints : List Checkpoint) : Option DbNumber :=
  (((checkpoints.filter (·.chainId = chainId)).map Checkpoint.seqTo).insertionSort
    (fun a b => b ≤ a)).head?

/-- `ORDER BY chain_id ASC, seq_to ASC`. -/
def Checkpoint.Le (a b : Checkpoint) : Prop :=
  a.chainId < b.chainId ∨ a.chainId = b.chainId ∧ a.seqTo ≤ b.seqTo

instance : DecidableRel Checkpoint.Le := fun a b =>
  inferInstanceAs (Decidable (a.chainId < b.chainId ∨ a.chainId = b.chainId ∧ a.seqTo ≤ b.seqTo))

/-! ## Statements -/

/-- The statements on the audit tables, and the one that reads the actor of
    a user. -/
inductive AuditDbStmt
  | chainHead (chainId : Str)
  | resolveActor (userKey : Str)
  | writeEvent (row : ActivityRow)
  | lastCheckpoint (chainId : Str)
  | createCheckpoint (cp : Checkpoint)
  | scan
  | countUnchained
  | checkpoints

@[reducible] def AuditDbStmt.Reply : AuditDbStmt → Type
  | chainHead _ => Option (DbNumber × Option Str)
  | resolveActor _ => Option Str
  | writeEvent _ | createCheckpoint _ => Unit
  | lastCheckpoint _ => Option DbNumber
  | scan => List ScannedRow
  | countUnchained => Nat
  | checkpoints => List Checkpoint

/-- The unique index on `(chain_id, seq)`. -/
def AuditStore.hasPosition (store : AuditStore) (row : ActivityRow) : Bool :=
  store.activity.any fun r => r.chainId = row.chainId && r.seq = row.seq

/-- The unique index on `(chain_id, seq_to)`. -/
def AuditStore.hasCheckpoint (store : AuditStore) (cp : Checkpoint) : Bool :=
  store.checkpoints.any fun c => c.chainId = cp.chainId && c.seqTo = cp.seqTo

/-- Execute a statement. -/
def AuditDbStmt.exec (ctx : AuditCtx) :
    (s : AuditDbStmt) → AuditStore → Except DbFailure s.Reply × AuditStore
  | chainHead chainId, store => (.ok (chainHeadRow chainId store.activity), store)
  | resolveActor _, store => (.ok ctx.subject, store)
  | writeEvent row, store =>
    if store.hasPosition row then
      (.error (.alreadyContains "user_activity_chain_seq_idx".toList []), store)
    else (.ok (), { store with activity := store.activity ++ [row] })
  | lastCheckpoint chainId, store =>
    (.ok (SoulAuth.lastCheckpoint chainId store.checkpoints), store)
  | createCheckpoint cp, store =>
    if store.hasCheckpoint cp then
      (.error (.alreadyContains "audit_checkpoint_chain_seq_idx".toList []), store)
    else (.ok (), { store with checkpoints := store.checkpoints ++ [cp] })
  | scan, store => (.ok (scanRows ctx.rendering store.activity), store)
  | countUnchained, store => (.ok (store.activity.filter (·.seq = none)).length, store)
  | checkpoints, store => (.ok (store.checkpoints.insertionSort Checkpoint.Le), store)

/-- The steps of the audit tasks. The writer waits for the next message with
    the head it remembers; waiting is a step so that a trace shows it. -/
inductive AuditStmt
  | now
  | receive (head : Option ChainHead)
  | db (s : AuditDbStmt)

@[reducible] def AuditStmt.Resp : AuditStmt → Type
  | now => Int
  | receive _ => Unit
  | db s => Except DbFailure s.Reply

/-- Time passes. -/
def AuditStore.advance (store : AuditStore) (elapsed : Nat) : AuditStore :=
  { store with now := store.now + elapsed }

/-- Execute one step; statements fail as those of the other tables do. -/
def AuditStmt.exec (ctx : AuditCtx) : (s : AuditStmt) → AuditStore → s.Resp × AuditStore
  | now, store => let store := store.advance ctx.elapsed; (store.now, store)
  | receive _, store => ((), store.advance ctx.elapsed)
  | db s, store =>
    let store := store.advance ctx.elapsed
    match ctx.fault with
    | some .refused => (.error .connection, store)
    | some .conflict => (.error .conflict, store)
    | some .lostReply => (.error .connection, (s.exec ctx store).2)
    | none => s.exec ctx store

/-- The machine of the audit tasks. -/
@[reducible] def auditMachine : Machine where
  State := AuditStore
  Stmt := AuditStmt
  Resp := AuditStmt.Resp
  Ctx := AuditCtx
  exec := AuditStmt.exec

/-- A part of an audit task that fails with `ε`. -/
abbrev AuditTask (ε α : Type) := Prog auditMachine ε α

/-- `Utc::now().timestamp()`. -/
def auditNow {ε : Type} : AuditTask ε Int := .step AuditStmt.now fun t => .done (.ok t)

/-- Wait for the next message. -/
def receive {ε : Type} (head : Option ChainHead) : AuditTask ε Unit :=
  .step (AuditStmt.receive head) fun _ => .done (.ok ())

/-- Issue a statement on the tables and fail when it fails. -/
def auditQuery (s : AuditDbStmt) : AuditTask DbFailure s.Reply :=
  .step (AuditStmt.db s) fun r => .done r

/-- The text of the database error that a failure turns into. -/
def DbFailure.errorText (e : DbFailure) : Str := "Database error: ".toList ++ e.message

/-! ## What an entry changes -/

/-- The statement of an entry was executed, whatever its caller was told. -/
def Executed (e : Entry auditMachine) : Prop :=
  e.ctx.fault = none ∨ e.ctx.fault = some .lostReply

/-- The entry adds a row to `user_activity`. -/
structure Appends (e : Entry auditMachine) (row : ActivityRow) : Prop where
  stmt : e.stmt = .db (.writeEvent row)
  executed : Executed e
  new : e.before.hasPosition row = false
  after : e.after.activity = e.before.activity ++ [row]

/-- The entry adds a row to `audit_checkpoint`. -/
structure Signs (e : Entry auditMachine) (cp : Checkpoint) : Prop where
  stmt : e.stmt = .db (.createCheckpoint cp)
  executed : Executed e
  new : e.before.hasCheckpoint cp = false
  after : e.after.checkpoints = e.before.checkpoints ++ [cp]

/-- A statement that was executed and one that was not. -/
theorem audit_after (e : Entry auditMachine) :
    (∃ s, e.stmt = .db s ∧ Executed e ∧
      e.after = (s.exec e.ctx (e.before.advance e.ctx.elapsed)).2) ∨
    (e.after.activity = e.before.activity ∧ e.after.checkpoints = e.before.checkpoints) := by
  obtain ⟨⟨elapsed, fault, ρ, subject⟩, s, store⟩ := e
  cases s with
  | now => exact .inr ⟨rfl, rfl⟩
  | receive head => exact .inr ⟨rfl, rfl⟩
  | db s =>
    rcases fault with _ | _ | _ | _
    · exact .inl ⟨s, rfl, .inl rfl, rfl⟩
    · exact .inr ⟨rfl, rfl⟩
    · exact .inr ⟨rfl, rfl⟩
    · exact .inl ⟨s, rfl, .inr rfl, rfl⟩

theorem activity_after (e : Entry auditMachine) :
    e.after.activity = e.before.activity ∨ ∃ row, Appends e row := by
  rcases audit_after e with ⟨s, hs, hex, hafter⟩ | ⟨h, -⟩
  · cases s with
    | writeEvent row =>
      by_cases hpos : e.before.hasPosition row = true
      · refine .inl ?_
        have hpos' : (e.before.advance e.ctx.elapsed).hasPosition row = true := hpos
        rw [hafter, AuditDbStmt.exec, if_pos hpos']
        rfl
      · refine .inr ⟨row, hs, hex, Bool.not_eq_true _ ▸ hpos, ?_⟩
        have hpos' : ¬ (e.before.advance e.ctx.elapsed).hasPosition row = true := hpos
        rw [hafter, AuditDbStmt.exec, if_neg hpos']
        rfl
    | createCheckpoint cp =>
      refine .inl ?_
      rw [hafter, AuditDbStmt.exec]
      split <;> rfl
    | _ => exact .inl (by rw [hafter]; rfl)
  · exact .inl h

theorem checkpoints_after (e : Entry auditMachine) :
    e.after.checkpoints = e.before.checkpoints ∨ ∃ cp, Signs e cp := by
  rcases audit_after e with ⟨s, hs, hex, hafter⟩ | ⟨-, h⟩
  · cases s with
    | createCheckpoint cp =>
      by_cases hpos : e.before.hasCheckpoint cp = true
      · refine .inl ?_
        have hpos' : (e.before.advance e.ctx.elapsed).hasCheckpoint cp = true := hpos
        rw [hafter, AuditDbStmt.exec, if_pos hpos']
        rfl
      · refine .inr ⟨cp, hs, hex, Bool.not_eq_true _ ▸ hpos, ?_⟩
        have hpos' : ¬ (e.before.advance e.ctx.elapsed).hasCheckpoint cp = true := hpos
        rw [hafter, AuditDbStmt.exec, if_neg hpos']
        rfl
    | writeEvent row =>
      refine .inl ?_
      rw [hafter, AuditDbStmt.exec]
      split <;> rfl
    | _ => exact .inl (by rw [hafter]; rfl)
  · exact .inl h

theorem audit_exec_of_none {ctx : AuditCtx} (h : ctx.fault = none) (s : AuditDbStmt)
    (store : AuditStore) :
    AuditStmt.exec ctx (.db s) store = s.exec ctx (store.advance ctx.elapsed) := by
  obtain ⟨elapsed, fault, ρ, subject⟩ := ctx
  cases h
  rfl

/-- What a statement that did not fail answered. -/
theorem audit_resp_ok {ctx : AuditCtx} {s : AuditDbStmt} {store : AuditStore} {a : s.Reply}
    (h : (AuditStmt.exec ctx (.db s) store).1 = .ok a) :
    ctx.fault = none ∧ (s.exec ctx (store.advance ctx.elapsed)).1 = .ok a := by
  obtain ⟨elapsed, fault, ρ, subject⟩ := ctx
  cases fault with
  | none => exact ⟨rfl, h⟩
  | some f => cases f <;> cases h

/-- A row whose writer is told so has been added. -/
theorem appends_of_ok {ctx : AuditCtx} {row : ActivityRow} {store : AuditStore}
    (h : (AuditStmt.exec ctx (.db (.writeEvent row)) store).1 = .ok ()) :
    Appends ⟨ctx, .db (.writeEvent row), store⟩ row ∧ ctx.fault = none := by
  obtain ⟨hf, hok⟩ := audit_resp_ok h
  have hpos : store.hasPosition row = false := by
    cases hp : store.hasPosition row with
    | false => rfl
    | true =>
      have hp' : (store.advance ctx.elapsed).hasPosition row = true := hp
      rw [AuditDbStmt.exec, if_pos hp'] at hok
      cases hok
  have hpos' : ¬ (store.advance ctx.elapsed).hasPosition row = true := by
    rw [Bool.not_eq_true]
    exact hpos
  refine ⟨⟨rfl, .inl hf, hpos, ?_⟩, hf⟩
  show (AuditStmt.exec ctx (.db (.writeEvent row)) store).2.activity = store.activity ++ [row]
  rw [audit_exec_of_none hf, AuditDbStmt.exec, if_neg hpos']
  rfl

end SoulAuth
