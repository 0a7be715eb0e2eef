import Mathlib.Data.List.Sort
import OrderService.Interleaving.OnConflict
import OrderService.Interleaving.RelyGuarantee
import OrderService.Tables

/-! The worker that moves the rows of former years from the hot cluster of a region to its archive
cluster. -/
namespace OrderService
open ReadCommitted Interleaving

section Calendar

def msPerDay : Nat := 24 * 60 * 60 * 1000

/-- The first moment of the year `1970 + n`. -/
def newYear (n : Nat) : Time := msPerDay * (365 * n + (n + 1) / 4 + (n + 369) / 400 - (n + 69) / 100)

/-- `date_trunc('year', t)`: the last new year that is not after `t`. -/
def dateTruncYear (t : Time) : Time := newYear (Nat.findGreatest (fun n => newYear n ≤ t) (t / (365 * msPerDay)))

end Calendar

section Tables

deriving instance DecidableEq for OrderItemData, OrderItemEntity, PaymentSessionData,
  PaymentSessionEntity, TransactionData, TransactionEntity, AgentEarningData, AgentEarningEntity,
  WebhookEventData, PaymentWebhookEventEntity

inductive ArchivalTable where
  | agentEarnings
  | paymentWebhookEvents
  | paymentSessions
  | transactions
  | orderItems
  | orders
  deriving DecidableEq

/-- `ARCHIVAL_TABLES`: children before parents. -/
def archivalTables : List ArchivalTable :=
  [.agentEarnings, .paymentWebhookEvents, .paymentSessions, .transactions, .orderItems, .orders]

inductive ArchivalRow where
  | agentEarning (row : AgentEarningEntity)
  | webhookEvent (row : PaymentWebhookEventEntity)
  | paymentSession (row : PaymentSessionEntity)
  | transaction (row : TransactionEntity)
  | orderItem (row : OrderItemEntity)
  | order (row : OrderEntity)
  deriving DecidableEq

def ArchivalRow.id : ArchivalRow → Nat
  | .agentEarning row => row.id
  | .webhookEvent row => row.id
  | .paymentSession row => row.id
  | .transaction row => row.id
  | .orderItem row => row.id
  | .order row => row.id

/-- The column that says when a row was created. -/
def ArchivalRow.tsColumn : ArchivalRow → Time
  | .agentEarning row => row.earnedAt
  | .webhookEvent row => row.receivedAt
  | .paymentSession row => row.createdAt
  | .transaction row => row.createdAt
  | .orderItem row => row.createdAt
  | .order row => row.createdAt

/-- Two rows that a unique index does not let stand beside each other: a primary key, or one of
`uq_agent_earnings_order_id`, `uq_payment_webhook_events_provider_event_id`,
`uq_payment_sessions_provider_session_id` and `uq_transactions_idempotency_key`. -/
def ArchivalRow.conflicts : ArchivalRow → ArchivalRow → Bool
  | .agentEarning a, .agentEarning b => a.id = b.id || a.orderId = b.orderId
  | .webhookEvent a, .webhookEvent b =>
    a.id = b.id || (a.providerId = b.providerId && a.providerEventId = b.providerEventId)
  | .paymentSession a, .paymentSession b =>
    a.id = b.id || a.providerSessionId = b.providerSessionId
  | .transaction a, .transaction b =>
    a.id = b.id || (a.idempotencyKey.isSome && a.idempotencyKey = b.idempotencyKey)
  | .orderItem a, .orderItem b => a.id = b.id
  | .order a, .order b => a.id = b.id && a.createdAt = b.createdAt
  | _, _ => false

def Db.rows (db : Db) : ArchivalTable → List ArchivalRow
  | .agentEarnings => db.agentEarnings.map .agentEarning
  | .paymentWebhookEvents => db.webhookEvents.map .webhookEvent
  | .paymentSessions => db.paymentSessions.map .paymentSession
  | .transactions => db.transactions.map .transaction
  | .orderItems => db.orderItems.map .orderItem
  | .orders => db.orders.map .order

/-- `hot(name).whereIn("id", ids).delete()`. -/
def Db.deleteIds (db : Db) (ids : List Nat) : ArchivalTable → Db
  | .agentEarnings => { db with agentEarnings := db.agentEarnings.filter fun r => r.id ∉ ids }
  | .paymentWebhookEvents =>
    { db with webhookEvents := db.webhookEvents.filter fun r => r.id ∉ ids }
  | .paymentSessions =>
    { db with paymentSessions := db.paymentSessions.filter fun r => r.id ∉ ids }
  | .transactions => { db with transactions := db.transactions.filter fun r => r.id ∉ ids }
  | .orderItems => { db with orderItems := db.orderItems.filter fun r => r.id ∉ ids }
  | .orders => { db with orders := db.orders.filter fun r => r.id ∉ ids }

/-- The rows of former years, the lowest ids first. -/
def Db.priorYears (db : Db) (table : ArchivalTable) (now : Time) (limit : Nat) :
    List ArchivalRow :=
  (((db.rows table).filter fun r => r.tsColumn < dateTruncYear now).insertionSort
    fun a b => a.id ≤ b.id).take limit

end Tables

section Runtime

/-- The two clusters of a region. `picked p` and `deleted` are ghosts: the batch that run `p`
selected last, and the rows that the worker deleted, as they were in the hot cluster. -/
structure Clusters where
  hot : Db
  archive : List ArchivalRow := []
  clock : Time := 0
  picked : Nat → List ArchivalRow := fun _ => []
  deleted : List ArchivalRow := []

inductive ArchivalOp where
  | clock
  | selectBatch (table : ArchivalTable) (limit : Nat)
  | insertIgnoring (rows : List ArchivalRow)
  | deleteIds (table : ArchivalTable) (ids : List Nat)

abbrev ArchivalOp.Res : ArchivalOp → Type
  | .clock => Time
  | .selectBatch .. => List ArchivalRow
  | _ => Unit

/-- The time that passes before an operation, and whether it fails; a statement whose answer is
lost may have been applied. -/
structure ArchivalEnv where
  elapsed : Nat := 0
  fail : Bool := false
  applied : Bool := false

/-- A statement that writes, and commits by itself. -/
def Clusters.written (w : Clusters) (e : ArchivalEnv) (done : Clusters) :
    Except Err Unit × Clusters :=
  if e.fail then (.error .failed, if e.applied then done else w) else (.ok (), done)

def archivalExec (p : Nat) :
    (o : ArchivalOp) → ArchivalEnv → Clusters → Option (Except Err o.Res × Clusters)
  | .clock, e, w => some (.ok (w.clock + e.elapsed), { w with clock := w.clock + e.elapsed })
  | .selectBatch table limit, e, w =>
    if e.fail then some (.error .failed, { w with clock := w.clock + e.elapsed })
    else
      let rows := w.hot.priorYears table (w.clock + e.elapsed) limit
      some (.ok rows, { w with
        clock := w.clock + e.elapsed, picked := Function.update w.picked p rows })
  | .insertIgnoring rows, e, w =>
    let w₁ := { w with clock := w.clock + e.elapsed }
    some (w₁.written e
      { w₁ with archive := insertIgnoring ArchivalRow.conflicts w.archive rows })
  | .deleteIds table ids, e, w =>
    let w₁ := { w with clock := w.clock + e.elapsed }
    some (w₁.written e { w₁ with
      hot := w.hot.deleteIds ids table
      deleted := w.deleted ++ (w.hot.rows table).filter fun r => r.id ∈ ids })

/-- The other operations commit whatever they write in the hot cluster. -/
def archivalMachine : Machine Nat ArchivalOp ArchivalOp.Res Err Clusters ArchivalEnv (List Write) where
  exec := archivalExec
  crash _ w := w
  ext log w := { w with hot := engine.applyAll log w.hot }

end Runtime

section Programs

abbrev ArchivalSvc (α : Type) := Prog ArchivalOp ArchivalOp.Res Err α

def awaitArchival (o : ArchivalOp) : ArchivalSvc o.Res := Prog.perform o

/-- The `while (true)` over the batches of a table, for as many rounds as there is fuel; a run that
has used it up stops where it is. The result is how many rows were moved, and whether the time is
up. -/
def sweepTable (batchSize maxRuntimeMs startedAt : Nat) (table : ArchivalTable) :
    Nat → Nat → ArchivalSvc (Nat × Bool)
  | 0, _ => throw .failed
  | fuel + 1, moved => do
    let clock ← awaitArchival .clock
    if startedAt + maxRuntimeMs ≤ clock then pure (moved, true)
    else do
      let rows ← awaitArchival (.selectBatch table batchSize)
      if rows.length = 0 then pure (moved, false)
      else do
        awaitArchival (.insertIgnoring rows)
        awaitArchival (.deleteIds table (rows.map ArchivalRow.id))
        sweepTable batchSize maxRuntimeMs startedAt table fuel (moved + rows.length)

def sweepTables (batchSize maxRuntimeMs startedAt fuel : Nat) :
    List ArchivalTable → List (ArchivalTable × Nat) →
      ArchivalSvc (List (ArchivalTable × Nat) × Bool)
  | [], moved => pure (moved, false)
  | table :: tables, moved => do
    let swept ← sweepTable batchSize maxRuntimeMs startedAt table fuel 0
    if swept.2 then pure (moved ++ [(table, swept.1)], true)
    else sweepTables batchSize maxRuntimeMs startedAt fuel tables (moved ++ [(table, swept.1)])

/-- `env.archival`, apart from its schedule. -/
structure ArchivalSettings where
  batchSize : Nat
  maxRuntimeMin : Nat

structure ArchiveRunOptions where
  batchSize : Option Nat := none
  maxRuntimeMs : Option Nat := none

structure ArchiveRunResult where
  region : String
  moved : List (ArchivalTable × Nat)
  totalMoved : Nat
  timedOut : Bool

def archiveRegion (settings : ArchivalSettings) (fuel : Nat) (region : String)
    (opts : ArchiveRunOptions) : ArchivalSvc ArchiveRunResult := do
  let batchSize := opts.batchSize.getD settings.batchSize
  let maxRuntimeMs := opts.maxRuntimeMs.getD (settings.maxRuntimeMin * 60000)
  let startedAt ← awaitArchival .clock
  let swept ← sweepTables batchSize maxRuntimeMs startedAt fuel archivalTables []
  let _ ← awaitArchival .clock
  pure ⟨region, swept.1, (swept.1.map Prod.snd).sum, swept.2⟩

end Programs

end OrderService
