import OrderService.Entities
import OrderService.Interleaving.ReadCommitted

/-! The hot shard of one region: its tables, the row writes of the repositories and the
statements they send. `db(region)` resolves to this shard; the calls of another region run on
another database. -/
namespace OrderService
open ReadCommitted

structure Db where
  orders : List OrderEntity := []
  orderItems : List OrderItemEntity := []
  paymentProviders : List PaymentProviderEntity := []
  paymentSessions : List PaymentSessionEntity := []
  transactions : List TransactionEntity := []
  restaurantBalances : List RestaurantBalanceEntity := []
  agentEarnings : List AgentEarningEntity := []
  webhookEvents : List PaymentWebhookEventEntity := []
  eventsOutbox : List OutboxRow := []

/-- A row or a unique key that a transaction can hold. -/
inductive Key where
  | order (publicId : String)
  | session (id : Nat)
  | providerSession (providerSessionId : String)
  | transaction (id : Nat)
  | idempotency (key : String)
  | balance (restaurantId : Nat) (currency : String)
  | earning (orderId : Nat)
  | webhookEvent (providerId : Nat) (providerEventId : String)
  | webhookRow (id : Nat)
  deriving DecidableEq

inductive Write where
  | insertOrder (row : OrderEntity)
  | setOrderStatus (publicId : String) (status : OrderStatus) (stamp : Option Stamp) (now : Time)
  | assignOrder (publicId : String) (agentId : Nat) (now : Time)
  | insertOrderItem (row : OrderItemEntity)
  | insertSession (row : PaymentSessionEntity)
  | setSessionStatus (id : Nat) (status : PaymentSessionStatus) (now : Time)
  | insertTransaction (row : TransactionEntity)
  | setTransactionStatus (id : Nat) (status : TransactionStatus) (now : Time)
  | markRefunded (id : Nat) (now : Time)
  | addBalance (restaurantId : Nat) (region currency : String) (delta : Int)
  | insertEarning (row : AgentEarningEntity)
  | insertWebhookEvent (row : PaymentWebhookEventEntity)
  | setWebhookEvent (id : Nat) (processedAt : Option Time) (processError : Option String)
  | insertOutbox (row : OutboxRow)

def OrderEntity.withStatus (o : OrderEntity) (status : OrderStatus) (stamp : Option Stamp)
    (now : Time) : OrderEntity :=
  match stamp with
  | none => { o with status := status, updatedAt := now }
  | some c => ({ o with status := status, updatedAt := now } : OrderEntity).stamp now c

def OrderEntity.assignTo (o : OrderEntity) (agentId : Nat) (now : Time) : OrderEntity :=
  { o with
    deliveryAgentId := some agentId
    status := .assigned
    assignedAt := some now
    updatedAt := now }

/-- The `WHERE` of `claimReadyOrderForAgent`, apart from the id. -/
def OrderEntity.claimable (o : OrderEntity) : Bool :=
  o.status = .ready && o.deliveryAgentId.isNone

def balanceOf (restaurantId : Nat) (currency : String) (b : RestaurantBalanceEntity) : Bool :=
  b.restaurantId = restaurantId && b.currency = currency

def Write.apply : Write → Db → Db
  | .insertOrder row, db => { db with orders := db.orders ++ [row] }
  | .setOrderStatus publicId status stamp now, db =>
    { db with orders := db.orders.map fun o =>
        if o.publicId = publicId then o.withStatus status stamp now else o }
  | .assignOrder publicId agentId now, db =>
    { db with orders := db.orders.map fun o =>
        if o.publicId = publicId ∧ o.claimable then o.assignTo agentId now else o }
  | .insertOrderItem row, db => { db with orderItems := db.orderItems ++ [row] }
  | .insertSession row, db => { db with paymentSessions := db.paymentSessions ++ [row] }
  | .setSessionStatus id status now, db =>
    { db with paymentSessions := db.paymentSessions.map fun s =>
        if s.id = id then { s with status := status, updatedAt := now } else s }
  | .insertTransaction row, db => { db with transactions := db.transactions ++ [row] }
  | .setTransactionStatus id status now, db =>
    { db with transactions := db.transactions.map fun t =>
        if t.id = id then { t with status := status, updatedAt := now } else t }
  | .markRefunded id now, db =>
    { db with transactions := db.transactions.map fun t =>
        if t.id = id then { t with isRefunded := true, updatedAt := now } else t }
  | .addBalance restaurantId region currency delta, db =>
    { db with restaurantBalances :=
        if db.restaurantBalances.any (balanceOf restaurantId currency) then
          db.restaurantBalances.map fun b =>
            if balanceOf restaurantId currency b then { b with balance := b.balance + delta } else b
        else db.restaurantBalances ++ [⟨restaurantId, region, currency, delta⟩] }
  | .insertEarning row, db => { db with agentEarnings := db.agentEarnings ++ [row] }
  | .insertWebhookEvent row, db => { db with webhookEvents := db.webhookEvents ++ [row] }
  | .setWebhookEvent id processedAt processError, db =>
    { db with webhookEvents := db.webhookEvents.map fun e =>
        if e.id = id then { e with processedAt := processedAt, processError := processError } else e }
  | .insertOutbox row, db => { db with eventsOutbox := db.eventsOutbox ++ [row] }

def Write.key : Write → Option Key
  | .insertOrder row => some (.order row.publicId)
  | .setOrderStatus publicId _ _ _ => some (.order publicId)
  | .assignOrder publicId _ _ => some (.order publicId)
  | .insertOrderItem _ => none
  | .insertSession row => some (.providerSession row.providerSessionId)
  | .setSessionStatus id _ _ => some (.session id)
  | .insertTransaction row => row.idempotencyKey.map .idempotency
  | .setTransactionStatus id _ _ => some (.transaction id)
  | .markRefunded id _ => some (.transaction id)
  | .addBalance restaurantId _ currency _ => some (.balance restaurantId currency)
  | .insertEarning row => some (.earning row.orderId)
  | .insertWebhookEvent row => some (.webhookEvent row.providerId row.providerEventId)
  | .setWebhookEvent id _ _ => some (.webhookRow id)
  | .insertOutbox _ => none

def engine : Engine Db Write Key := ⟨Write.apply, Write.key⟩

/-- The `BIGSERIAL` sequences; a rolled back insert does not give its number back. -/
structure Seqs where
  orders : Nat := 1
  orderItems : Nat := 1
  paymentSessions : Nat := 1
  transactions : Nat := 1
  agentEarnings : Nat := 1
  webhookEvents : Nat := 1
  eventsOutbox : Nat := 1

/-- One statement of a repository. -/
inductive Sql where
  | createOrder (data : OrderData) (now : Time)
  | findOrderByPublicId (publicId : String)
  | findOrderById (id : Nat)
  | updateOrderStatus (publicId : String) (status : OrderStatus) (stamp : Option Stamp) (now : Time)
  | claimReadyOrderForAgent (publicId : String) (agentId : Nat) (now : Time)
  | findOrdersByDeliveryAgent (agentId : Nat) (statuses : List OrderStatus) (limit : Nat)
  | findReadyUnassigned (limit : Nat)
  | findRestaurantOwnerId (restaurantId : Nat) (region : String)
  | bulkInsertItems (items : List OrderItemData) (now : Time)
  | findItemsByOrderIds (orderIds : List Nat)
  | findProviderByName (name : String)
  | createPaymentSession (data : PaymentSessionData) (now : Time)
  | findPaymentSessionByOrderId (orderId : Nat)
  | updatePaymentSessionStatus (id : Nat) (status : PaymentSessionStatus) (now : Time)
  | insertWebhookEvent (data : WebhookEventData) (now : Time)
  | updateWebhookEventStatus (id : Nat) (processedAt : Option Time) (processError : Option String)
  | createTransaction (data : TransactionData) (now : Time)
  | findTransactionById (id : Nat)
  | findTransactionByProviderReference (refId : String)
  | findTransactionByOrderAndType (orderId : Nat) (transactionType : TransactionType)
  | findTransactionByIdempotencyKey (key : String)
  | updateTransactionStatus (id : Nat) (status : TransactionStatus) (now : Time)
  | markTransactionAsRefunded (id : Nat) (now : Time)
  | lockBalance (restaurantId : Nat) (currency : String)
  | upsertBalance (restaurantId : Nat) (region currency : String) (delta : Int)
  | insertEarning (data : AgentEarningData)
  | findEarningByOrder (orderId : Nat)
  | insertOutboxEvent (input : OutboxInput)

abbrev Sql.Res : Sql → Type
  | .createOrder .. => OrderEntity
  | .findOrderByPublicId .. => Option OrderEntity
  | .findOrderById .. => Option OrderEntity
  | .updateOrderStatus .. => Option OrderEntity
  | .claimReadyOrderForAgent .. => Option OrderEntity
  | .findOrdersByDeliveryAgent .. => List OrderEntity
  | .findReadyUnassigned .. => List OrderEntity
  | .findRestaurantOwnerId .. => Option Nat
  | .bulkInsertItems .. => List OrderItemEntity
  | .findItemsByOrderIds .. => List OrderItemEntity
  | .findProviderByName .. => Option PaymentProviderEntity
  | .createPaymentSession .. => PaymentSessionEntity
  | .findPaymentSessionByOrderId .. => Option PaymentSessionEntity
  | .updatePaymentSessionStatus .. => Option PaymentSessionEntity
  | .insertWebhookEvent .. => Option PaymentWebhookEventEntity
  | .updateWebhookEventStatus .. => Unit
  | .createTransaction .. => Option TransactionEntity
  | .findTransactionById .. => Option TransactionEntity
  | .findTransactionByProviderReference .. => Option TransactionEntity
  | .findTransactionByOrderAndType .. => Option TransactionEntity
  | .findTransactionByIdempotencyKey .. => Option TransactionEntity
  | .updateTransactionStatus .. => Option TransactionEntity
  | .markTransactionAsRefunded .. => Unit
  | .lockBalance .. => Option RestaurantBalanceEntity
  | .upsertBalance .. => Unit
  | .insertEarning .. => Option AgentEarningEntity
  | .findEarningByOrder .. => Option AgentEarningEntity
  | .insertOutboxEvent .. => Unit

/-- The first row with the largest key: `ORDER BY key DESC ... LIMIT 1`. -/
def firstDesc {α : Type} (key : α → Nat) : List α → Option α
  | [] => none
  | a :: as =>
    match firstDesc key as with
    | none => some a
    | some b => if key a < key b then some b else some a

/-- `ORDER BY ... ASC` puts the rows without a value last, and `DESC` puts them first. -/
def ascending : Option Time → Option Time → Bool
  | some a, some b => a ≤ b
  | some _, none => true
  | none, some _ => false
  | none, none => true

/-- `value || null` for a number: zero is stored as null. -/
def orNull : Option Nat → Option Nat
  | some 0 => none
  | n => n

/-- `value || null` for a string. -/
def orNullText : Option String → Option String
  | some "" => none
  | s => s

def OrderData.toEntity (d : OrderData) (id ownerId : Nat) (now : Time) : OrderEntity where
  id := id
  region := d.region
  publicId := d.publicId
  countryCode := d.countryCode
  restaurantId := d.restaurantId
  restaurantOwnerId := ownerId
  branchId := d.branchId
  customerId := d.customerId
  customerAddressId := d.customerAddressId
  deliveryLat := d.deliveryLat
  deliveryLng := d.deliveryLng
  deliveryAddressTextSnapshot := d.deliveryAddressTextSnapshot
  branchLat := d.branchLat
  branchLng := d.branchLng
  status := d.status
  subtotal := d.subtotal
  deliveryFee := d.deliveryFee
  serviceFee := d.serviceFee
  total := d.total
  commission := 0
  currency := d.currency
  paymentMethod := d.paymentMethod
  deliveryAgentId := none
  createdAt := now
  updatedAt := now
  acceptedAt := none
  rejectedAt := none
  readyAt := none
  assignedAt := none
  pickedAt := none
  deliveredAt := none
  cancelledAt := none

/-- The row that `createTransaction` inserts. -/
def TransactionData.toEntity (d : TransactionData) (id : Nat) (now : Time) : TransactionEntity :=
  { d with
    orderId := orNull d.orderId
    providerId := orNull d.providerId
    providerReferenceId := orNullText d.providerReferenceId
    srcAccId := orNull d.srcAccId
    dstAccId := orNull d.dstAccId
    refundedPaymentId := orNull d.refundedPaymentId
    idempotencyKey := orNullText d.idempotencyKey
    id := id
    createdAt := now
    updatedAt := now }

def itemRows (items : List OrderItemData) (first : Nat) (now : Time) : List OrderItemEntity :=
  items.mapIdx fun i d => { d with id := first + i, createdAt := now }

def Db.order (db : Db) (publicId : String) : Option OrderEntity :=
  db.orders.find? (fun o => o.publicId = publicId)

/-- The row that the guarded update of an order finds. -/
def Db.claimableOrder (db : Db) (publicId : String) : Option OrderEntity :=
  db.orders.find? fun o => o.publicId = publicId ∧ o.claimable

def Db.balance (db : Db) (restaurantId : Nat) (currency : String) :
    Option RestaurantBalanceEntity :=
  db.restaurantBalances.find? (balanceOf restaurantId currency)

def Db.idempotent (db : Db) (key : String) : Option TransactionEntity :=
  db.transactions.find? (fun t => t.idempotencyKey = some key)

def Db.transactionOf (db : Db) (orderId : Nat) (transactionType : TransactionType) :
    Option TransactionEntity :=
  db.transactions.find? fun t => t.orderId = some orderId && t.transactionType = transactionType

/-- A statement that only reads. -/
def reading {ρ : Type} (r : ρ) : Answer Write Key (Except Err ρ) := ⟨.ok r, [], []⟩

/-- A statement that writes and returns. -/
def writing {ρ : Type} (r : ρ) (ws : List Write) : Answer Write Key (Except Err ρ) :=
  ⟨.ok r, ws, []⟩

/-- What the statement does on the tables it sees. `clock` is the database's `NOW()`. A constraint
violation rejects it. -/
def Sql.eval (seqs : Seqs) (clock : Time) :
    (q : Sql) → Db → Answer Write Key (Except Err q.Res)
  | .createOrder data now, _ =>
    match data.restaurantOwnerId with
    | none => ⟨.error .failed, [], []⟩
    | some ownerId =>
      writing (data.toEntity seqs.orders ownerId now)
        [.insertOrder (data.toEntity seqs.orders ownerId now)]
  | .findOrderByPublicId publicId, db => reading (db.order publicId)
  | .findOrderById id, db => reading (db.orders.find? fun o => o.id = id)
  | .updateOrderStatus publicId status stamp now, db =>
    match db.order publicId with
    | none => reading none
    | some o => writing (some (o.withStatus status stamp now))
        [.setOrderStatus publicId status stamp now]
  | .claimReadyOrderForAgent publicId agentId now, db =>
    match db.claimableOrder publicId with
    | none => reading none
    | some o => writing (some (o.assignTo agentId now)) [.assignOrder publicId agentId now]
  | .findOrdersByDeliveryAgent agentId statuses limit, db =>
    reading (((db.orders.filter fun o => o.deliveryAgentId = some agentId &&
      statuses.contains o.status).mergeSort fun a b => ascending b.assignedAt a.assignedAt).take
        limit)
  | .findReadyUnassigned limit, db =>
    reading (((db.orders.filter OrderEntity.claimable).mergeSort fun a b =>
      ascending a.readyAt b.readyAt).take limit)
  | .findRestaurantOwnerId restaurantId region, db =>
    reading ((firstDesc OrderEntity.createdAt (db.orders.filter fun o =>
      o.restaurantId = restaurantId && o.region = region)).map OrderEntity.restaurantOwnerId)
  | .bulkInsertItems items now, _ =>
    if items.all fun i => 0 < i.quantity then
      writing (itemRows items seqs.orderItems now)
        ((itemRows items seqs.orderItems now).map .insertOrderItem)
    else ⟨.error .failed, [], []⟩
  | .findItemsByOrderIds orderIds, db =>
    reading (db.orderItems.filter fun i => orderIds.contains i.orderId)
  | .findProviderByName name, db => reading (db.paymentProviders.find? fun p => p.name = name)
  | .createPaymentSession data now, db =>
    if db.paymentSessions.any fun s => s.providerSessionId = data.providerSessionId then
      ⟨.error .failed, [], []⟩
    else
      writing { data with id := seqs.paymentSessions, createdAt := now, updatedAt := now }
        [.insertSession { data with id := seqs.paymentSessions, createdAt := now, updatedAt := now }]
  | .findPaymentSessionByOrderId orderId, db =>
    reading (firstDesc PaymentSessionEntity.id (db.paymentSessions.filter fun s =>
      s.orderId = orderId && (s.status = .initialized || s.status = .pending)))
  | .updatePaymentSessionStatus id status now, db =>
    match db.paymentSessions.find? (fun s => s.id = id) with
    | none => reading none
    | some s => writing (some { s with status := status, updatedAt := now })
        [.setSessionStatus id status now]
  | .insertWebhookEvent data now, db =>
    if db.webhookEvents.any fun e =>
        e.providerId = data.providerId && e.providerEventId = data.providerEventId then
      reading none
    else
      writing (some { data with
          id := seqs.webhookEvents, receivedAt := now, processedAt := none, processError := none })
        [.insertWebhookEvent { data with
          id := seqs.webhookEvents, receivedAt := now, processedAt := none, processError := none }]
  | .updateWebhookEventStatus id processedAt processError, _ =>
    writing () [.setWebhookEvent id processedAt processError]
  | .createTransaction data now, db =>
    match (orNullText data.idempotencyKey).bind db.idempotent with
    | some _ => reading none
    | none => writing (some (data.toEntity seqs.transactions now))
        [.insertTransaction (data.toEntity seqs.transactions now)]
  | .findTransactionById id, db => reading (db.transactions.find? fun t => t.id = id)
  | .findTransactionByProviderReference refId, db =>
    reading (db.transactions.find? fun t => t.providerReferenceId = some refId)
  | .findTransactionByOrderAndType orderId transactionType, db =>
    reading (db.transactionOf orderId transactionType)
  | .findTransactionByIdempotencyKey key, db => reading (db.idempotent key)
  | .updateTransactionStatus id status now, db =>
    match db.transactions.find? (fun t => t.id = id) with
    | none => reading none
    | some t => writing (some { t with status := status, updatedAt := now })
        [.setTransactionStatus id status now]
  | .markTransactionAsRefunded id now, _ => writing () [.markRefunded id now]
  | .lockBalance restaurantId currency, db =>
    match db.balance restaurantId currency with
    | none => reading none
    | some b => ⟨.ok (some b), [], [.balance restaurantId currency]⟩
  | .upsertBalance restaurantId region currency delta, _ =>
    writing () [.addBalance restaurantId region currency delta]
  | .insertEarning data, db =>
    if db.agentEarnings.any fun e => e.orderId = data.orderId then reading none
    else writing (some { data with id := seqs.agentEarnings, earnedAt := clock })
      [.insertEarning { data with id := seqs.agentEarnings, earnedAt := clock }]
  | .findEarningByOrder orderId, db =>
    reading (db.agentEarnings.find? fun e => e.orderId = orderId)
  | .insertOutboxEvent input, _ =>
    writing () [.insertOutbox { input with id := seqs.eventsOutbox, createdAt := clock }]

/-- The sequences after the statement. -/
def Sql.bump (seqs : Seqs) : Sql → Seqs
  | .createOrder .. => { seqs with orders := seqs.orders + 1 }
  | .bulkInsertItems items _ => { seqs with orderItems := seqs.orderItems + items.length }
  | .createPaymentSession .. => { seqs with paymentSessions := seqs.paymentSessions + 1 }
  | .insertWebhookEvent .. => { seqs with webhookEvents := seqs.webhookEvents + 1 }
  | .createTransaction .. => { seqs with transactions := seqs.transactions + 1 }
  | .insertEarning .. => { seqs with agentEarnings := seqs.agentEarnings + 1 }
  | .insertOutboxEvent .. => { seqs with eventsOutbox := seqs.eventsOutbox + 1 }
  | _ => seqs

end OrderService
