import Mathlib.Data.List.Sort
import OrderService.Entities
import OrderService.Interleaving.RelyGuarantee
import OrderService.Interleaving.ReadCommitted

/-! The workers that drain the outbox of a region, beside the transactions that insert into it. -/
namespace OrderService
open ReadCommitted Interleaving

section Table

/-- A row of `events_outbox`. -/
structure OutboxRecord extends OutboxRow where
  eventId : String
  dispatchedAt : Option Time := none
  attempts : Nat := 0
  lastError : Option String := none

inductive OutboxWrite where
  | insert (row : OutboxRecord)
  | markDispatched (id : Nat) (now : Time)
  | markFailed (id : Nat) (err : String)

def OutboxWrite.apply : OutboxWrite → List OutboxRecord → List OutboxRecord
  | .insert row, rows => rows ++ [row]
  | .markDispatched id now, rows =>
    rows.map fun r => if r.id = id then { r with dispatchedAt := some now } else r
  | .markFailed id err, rows => rows.map fun r =>
      if r.id = id then { r with attempts := r.attempts + 1, lastError := some err } else r

/-- A new row is seen by nobody else before its transaction commits. -/
def OutboxWrite.key : OutboxWrite → Option Nat
  | .insert _ => none
  | .markDispatched id _ => some id
  | .markFailed id _ => some id

def outboxEngine : Engine (List OutboxRecord) OutboxWrite Nat :=
  ⟨OutboxWrite.apply, OutboxWrite.key⟩

end Table

section Runtime

/-- The message that is published for a row. -/
structure OutboxEnvelope where
  eventId : String
  eventType : EventType
  occurredAt : Time
  aggregateType : String
  aggregateId : String
  region : String
  payload : OutboxPayload

/-- What happened, in its order: a message was given to the broker, who confirmed it or not; the
transaction of a run was committed, with the events whose rows it stamped, or rolled back. -/
inductive DrainEvent where
  | published (run : Nat) (message : OutboxEnvelope) (confirmed : Bool)
  | committed (run : Nat) (stamped : List String)
  | rolledBack (run : Nat)

structure OutboxWorld where
  store : Store Nat (List OutboxRecord) OutboxWrite Nat
  clock : Time := 0
  aborted : Nat → Bool := fun _ => false
  trace : List DrainEvent := []

/-- The awaited operations of a run. `insert` is the commit of a transaction of the services that
inserted the rows. -/
inductive DrainOp where
  | start
  | commit
  | rollback
  | now
  | claimBatch (limit : Nat)
  | markDispatched (id : Nat) (now : Time)
  | markFailed (id : Nat) (err : String)
  | publish (exchange : String) (routingKey : EventType) (message : OutboxEnvelope)
  | insert (rows : List OutboxRecord)

abbrev DrainOp.Res : DrainOp → Type
  | .now => Time
  | .claimBatch _ => List OutboxRecord
  | _ => Unit

/-- Whether the operation fails, and with what message of the broker; a commit whose answer is
lost may have been applied. -/
structure DrainEnv where
  fail : Bool := false
  message : String := ""
  applied : Bool := false

variable (w : OutboxWorld) (p : Nat)

/-- The rows that `FOR UPDATE SKIP LOCKED` of the run can take. -/
def claimable (db : List OutboxRecord) : List OutboxRecord :=
  db.filter fun r => r.dispatchedAt.isNone && !w.store.heldByOther p r.id

def OutboxWorld.claimBatch (limit : Nat) (db : List OutboxRecord) :
    Answer OutboxWrite Nat (List OutboxRecord) :=
  let rows := ((claimable w p db).insertionSort fun a b => a.id ≤ b.id).take limit
  ⟨rows, [], rows.map fun r => r.id⟩

/-- A statement of the open transaction. An error aborts the transaction: the server refuses
whatever follows but its end. -/
def OutboxWorld.statement {ρ : Type} (e : DrainEnv)
    (ask : List OutboxRecord → Answer OutboxWrite Nat ρ) : Option (Except Err ρ × OutboxWorld) :=
  if w.aborted p then some (.error .failed, w)
  else if e.fail then
    some (.error .failed, { w with aborted := Function.update w.aborted p true })
  else (w.store.query outboxEngine p ask).map fun a =>
    match a.1 with
    | none => (.error .completed, w)
    | some r => (.ok r, { w with store := a.2 })

/-- The events of the rows that the transaction has stamped. -/
def OutboxWorld.stamped (log : List OutboxWrite) : List String :=
  (w.store.db.filter fun r => log.any fun x =>
    match x with
    | .markDispatched id _ => r.id = id
    | _ => false).map fun r => r.eventId

/-- Ends the transaction without its writes. -/
def OutboxWorld.rolledBack : OutboxWorld :=
  { w with
    store := w.store.rollback p
    trace := match w.store.txn p with
      | .active _ => w.trace ++ [.rolledBack p]
      | _ => w.trace }

def OutboxWorld.committed : Option OutboxWorld :=
  (w.store.commit outboxEngine p).map fun s =>
    { w with store := s, trace := w.trace ++ [.committed p (w.stamped (w.store.txn p).log)] }

/-- The rows have new ids and new event ids, and were never dispatched. -/
def OutboxWorld.fresh (rows : List OutboxRecord) : Bool :=
  (rows.all fun r => r.dispatchedAt.isNone) &&
    decide ((w.store.db ++ rows).map fun r => r.id).Nodup &&
    decide ((w.store.db ++ rows).map fun r => r.eventId).Nodup

/-- `COMMIT` of an aborted transaction rolls it back, and answers so. -/
def drainExec (p : Nat) :
    (o : DrainOp) → DrainEnv → OutboxWorld → Option (Except Err o.Res × OutboxWorld)
  | .now, _, w => some (.ok w.clock, w)
  | .start, e, w =>
    if e.fail then some (.error .failed, w)
    else some (.ok (), { w with
      store := w.store.start p, aborted := Function.update w.aborted p false })
  | .rollback, _, w => some (.ok (), w.rolledBack p)
  | .commit, e, w =>
    if w.aborted p then some (.ok (), w.rolledBack p)
    else if e.fail && !e.applied then some (.error .failed, w.rolledBack p)
    else match w.committed p with
      | none => some (.error .completed, w)
      | some w' => some (if e.fail then .error .failed else .ok (), w')
  | .claimBatch limit, e, w => w.statement p e (w.claimBatch p limit)
  | .markDispatched id now, e, w =>
    w.statement p e fun _ => ⟨(), [.markDispatched id now], []⟩
  | .markFailed id err, e, w => w.statement p e fun _ => ⟨(), [.markFailed id err], []⟩
  | .publish _ _ message, e, w =>
    some (if e.fail then .error (.error e.message) else .ok (),
      { w with trace := w.trace ++ [.published p message (!e.fail)] })
  | .insert rows, _, w =>
    if w.fresh rows then
      (w.store.autocommit outboxEngine p fun _ => ⟨(), rows.map .insert, []⟩).map fun a =>
        (.ok (), { w with store := a.2 })
    else none

/-- Time passes by itself. -/
def outboxMachine : Machine Nat DrainOp DrainOp.Res Err OutboxWorld DrainEnv Nat where
  exec := drainExec
  crash p w := w.rolledBack p
  ext d w := { w with clock := w.clock + d }

end Runtime

section Programs

abbrev DrainSvc (α : Type) := Prog DrainOp DrainOp.Res Err α

def awaitDrain (o : DrainOp) : DrainSvc o.Res := Prog.perform o

def claimBatch (limit : Nat) : DrainSvc (List OutboxRecord) := awaitDrain (.claimBatch limit)

def markDispatched (id : Nat) : DrainSvc Unit := do
  let dispatchedAt ← awaitDrain .now
  awaitDrain (.markDispatched id dispatchedAt)

def markFailed (id : Nat) (err : String) : DrainSvc Unit :=
  awaitDrain (.markFailed id (String.ofList (err.toList.take 2000)))

def outboxEnvelope (region : String) (row : OutboxRecord) (occurredAt : Time) : OutboxEnvelope where
  eventId := row.eventId
  eventType := row.eventType
  occurredAt := occurredAt
  aggregateType := row.aggregateType
  aggregateId := row.aggregateId
  region := region
  payload := row.payload

/-- One round of the loop; `false` is its `break`. -/
def publishRow (exchange region : String) (row : OutboxRecord) : DrainSvc Bool := do
  let occurredAt ← awaitDrain .now
  tryCatch
    (do
      awaitDrain (.publish exchange row.eventType (outboxEnvelope region row occurredAt))
      markDispatched row.id
      pure true)
    fun err => do
      markFailed row.id err.message
      pure false

def publishRows (exchange region : String) : List OutboxRecord → DrainSvc Unit
  | [] => pure ()
  | row :: rows => do
    let goOn ← publishRow exchange region row
    if goOn then publishRows exchange region rows else pure ()

/-- `drainOutboxForRegion`. -/
def drainOutboxForRegion (exchange region : String) (batchSize : Nat) : DrainSvc Unit := do
  awaitDrain .start
  tryCatch
    (do
      let rows ← claimBatch batchSize
      if rows.length = 0 then awaitDrain .commit
      else do
        publishRows exchange region rows
        awaitDrain .commit)
    fun err => do
      awaitDrain .rollback
      throw err

/-- A run of a worker, or a transaction that inserts. -/
inductive OutboxWork where
  | drain (batchSize : Nat)
  | insert (rows : List OutboxRecord)

def OutboxWork.prog (exchange region : String) : OutboxWork → DrainSvc Unit
  | .drain batchSize => drainOutboxForRegion exchange region batchSize
  | .insert rows => awaitDrain (.insert rows)

/-- The runs on a region, none of which has started. -/
def draining (exchange region : String) (work : Nat → Option OutboxWork) (w : OutboxWorld) :
    Sys Nat DrainOp DrainOp.Res Err OutboxWorld Unit :=
  ⟨w, fun p => (work p).map (OutboxWork.prog exchange region)⟩

end Programs

end OrderService
