import SoulAuth.Services.AuditLogger

/-! # The audit queue

`record` puts an event into a bounded queue; when there is no place, a task
of its own waits for one. `flush` puts a mark into the queue and returns
when the writer has come to it. The calls are numbered in their order, and
the queue holds their numbers.
-/

namespace SoulAuth

/-- `QUEUE_CAPACITY`. -/
def queueCapacity : Nat := 4096

/-- `Msg`, by the number of the call. -/
inductive QueuedMsg
  | event (n : Nat)
  | flush (f : Nat)
  deriving DecidableEq

/-- How far a call of `flush` has come. -/
inductive FlushState
  /-- It waits for a place in the queue. -/
  | sending
  /-- It waits for the writer, for `FLUSH_TIMEOUT` at most. -/
  | waiting
  | returned
  | timedOut
  deriving DecidableEq

/-- A call of `flush`, and how many calls of `record` had returned before. -/
structure FlushCall where
  recorded : Nat
  state : FlushState
  deriving DecidableEq

/-- The queue, the tasks around it, and what has become of the events. -/
structure AuditQueue where
  /-- The events of the calls of `record`. -/
  events : List AuditEvent
  queue : List QueuedMsg
  /-- The events whose tasks wait for a place. -/
  overflow : List Nat
  /-- The event that the writer has taken. -/
  writing : Option Nat
  /-- The receiving end of the queue is gone. -/
  stopped : Bool
  flushes : List FlushCall
  written : List Nat
  /-- The events that `mark_dropped` has counted. -/
  dropped : List Nat
  health : AuditHealth

namespace AuditQueue

/-- The queue when the process starts. -/
def init : AuditQueue := ⟨[], [], [], none, false, [], [], [], .init⟩

/-- A message can be sent at once. -/
def HasRoom (q : AuditQueue) : Prop := q.queue.length < queueCapacity

instance (q : AuditQueue) : Decidable q.HasRoom :=
  inferInstanceAs (Decidable (q.queue.length < queueCapacity))

/-- `mark_dropped` for an event. -/
def drop (q : AuditQueue) (n : Nat) : AuditQueue :=
  { q with dropped := q.dropped ++ [n], health := q.health.markDropped }

/-- The state of a call of `flush` changes. -/
def setFlush (q : AuditQueue) (f : Nat) (state : FlushState) : AuditQueue :=
  { q with flushes := q.flushes.modify f fun call => { call with state := state } }

/-- `record`. `reserved` tells that the free places are reserved for senders
    that have waited; `try_send` finds the queue full then, too. -/
def record (q : AuditQueue) (event : AuditEvent) (reserved : Bool) : AuditQueue :=
  let n := q.events.length
  let q := { q with events := q.events ++ [event] }
  if q.stopped then q.drop n
  else if q.HasRoom ∧ reserved = false then { q with queue := q.queue ++ [QueuedMsg.event n] }
  else { q with overflow := q.overflow ++ [n] }

/-- The task that `record` has spawned sends its event. -/
def resend (q : AuditQueue) (n : Nat) : AuditQueue :=
  if n ∈ q.overflow then
    if q.stopped then { q with overflow := q.overflow.erase n }.drop n
    else if q.HasRoom then
      { q with overflow := q.overflow.erase n, queue := q.queue ++ [QueuedMsg.event n] }
    else q
  else q

/-- `flush` is called. -/
def flush (q : AuditQueue) : AuditQueue :=
  { q with flushes := q.flushes ++ [⟨q.events.length, .sending⟩] }

/-- `flush` sends its message; without a receiver it returns. -/
def enter (q : AuditQueue) (f : Nat) : AuditQueue :=
  if (q.flushes[f]?).map FlushCall.state = some .sending then
    if q.stopped then q.setFlush f .returned
    else if q.HasRoom then
      let q := { q with queue := q.queue ++ [QueuedMsg.flush f] }
      q.setFlush f .waiting
    else q
  else q

/-- The writer takes the next message. A mark is answered at once; its call
    may have given up. -/
def receive (q : AuditQueue) : AuditQueue :=
  if q.stopped ∨ q.writing ≠ none then q
  else
    match q.queue with
    | [] => q
    | .event n :: queue => { q with queue := queue, writing := some n }
    | .flush f :: queue =>
      let q := { q with queue := queue }
      if (q.flushes[f]?).map FlushCall.state = some .waiting then q.setFlush f .returned else q

/-- The writer is done with its event: it is written or dropped. -/
def finish (q : AuditQueue) (written : Bool) : AuditQueue :=
  match q.writing with
  | none => q
  | some n =>
    let q := { q with writing := none }
    if written then { q with written := q.written ++ [n] } else q.drop n

/-- `flush` gives up after `FLUSH_TIMEOUT`. -/
def timeout (q : AuditQueue) (f : Nat) : AuditQueue :=
  if (q.flushes[f]?).map FlushCall.state = some .waiting then
    { q.setFlush f .timedOut with health := q.health.markDropped }
  else q

/-- The writer ends, and what it had not finished is gone. The calls of
    `flush` that wait are told that no answer will come, and return. -/
def stop (q : AuditQueue) : AuditQueue :=
  { q with
    stopped := true
    queue := []
    writing := none
    flushes := q.flushes.map fun call =>
      if call.state = .waiting then { call with state := .returned } else call }

end AuditQueue

/-- The steps of the tasks. -/
inductive QueueAction
  | record (event : AuditEvent) (reserved : Bool)
  | resend (n : Nat)
  | flush
  | enter (f : Nat)
  | receive
  | finish (written : Bool)
  | timeout (f : Nat)
  | stop

namespace AuditQueue

/-- What one step does. -/
def next (q : AuditQueue) : QueueAction → AuditQueue
  | .record event reserved => q.record event reserved
  | .resend n => q.resend n
  | .flush => q.flush
  | .enter f => q.enter f
  | .receive => q.receive
  | .finish written => q.finish written
  | .timeout f => q.timeout f
  | .stop => q.stop

/-- A run of the tasks. -/
def run (q : AuditQueue) (as : List QueueAction) : AuditQueue := as.foldl next q

end AuditQueue

end SoulAuth
