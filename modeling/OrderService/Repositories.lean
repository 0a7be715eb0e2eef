import OrderService.Runtime

/-! The repository functions: one statement each, and what they make of its reply. A function
that decodes `toEntity(row)` without a check rejects when no row came back. -/
namespace OrderService

section Orders

def createOrder (data : OrderData) (c : Conn) : Svc OrderEntity := do
  let createdAt ← now
  sql c (.createOrder data createdAt)

def findOrderByPublicId (publicId : String) (c : Conn) : Svc (Option OrderEntity) :=
  sql c (.findOrderByPublicId publicId)

def updateOrderStatus (publicId : String) (status : OrderStatus) (c : Conn)
    (timestampColumn : Option Stamp) : Svc OrderEntity := do
  let updatedAt ← now
  let row ← sql c (.updateOrderStatus publicId status timestampColumn updatedAt)
  toEntity row

def claimReadyOrderForAgent (publicId : String) (agentId : Nat) (c : Conn) :
    Svc (Option OrderEntity) := do
  let assignedAt ← now
  sql c (.claimReadyOrderForAgent publicId agentId assignedAt)

def findOrdersByDeliveryAgent (agentId : Nat) (statuses : List OrderStatus) (limit : Nat)
    (c : Conn) : Svc (List OrderEntity) :=
  sql c (.findOrdersByDeliveryAgent agentId statuses limit)

def findReadyUnassigned (limit : Nat) (c : Conn) : Svc (List OrderEntity) :=
  sql c (.findReadyUnassigned limit)

/-- A zero owner id counts as none. -/
def findRestaurantOwnerId (restaurantId : Nat) (region : String) (c : Conn) :
    Svc (Option Nat) := do
  let row ← sql c (.findRestaurantOwnerId restaurantId region)
  pure (orNull row)

def bulkInsertItems (items : List OrderItemData) (c : Conn) : Svc (List OrderItemEntity) := do
  let createdAt ← now
  sql c (.bulkInsertItems items createdAt)

def findItemsByOrderIds (orderIds : List Nat) (c : Conn) : Svc (List OrderItemEntity) :=
  if orderIds.isEmpty then pure [] else sql c (.findItemsByOrderIds orderIds)

end Orders

section Payments

def findProviderByName (name : String) (c : Conn) : Svc (Option PaymentProviderEntity) :=
  sql c (.findProviderByName name)

def createPaymentSession (data : PaymentSessionData) (c : Conn) : Svc PaymentSessionEntity := do
  let createdAt ← now
  sql c (.createPaymentSession data createdAt)

def findPaymentSessionByOrderId (orderId : Nat) (c : Conn) : Svc (Option PaymentSessionEntity) :=
  sql c (.findPaymentSessionByOrderId orderId)

def updatePaymentSessionStatus (id : Nat) (status : PaymentSessionStatus) (c : Conn) :
    Svc PaymentSessionEntity := do
  let updatedAt ← now
  let row ← sql c (.updatePaymentSessionStatus id status updatedAt)
  toEntity row

def insertWebhookEvent (data : WebhookEventData) (c : Conn) :
    Svc (Option PaymentWebhookEventEntity) := do
  let receivedAt ← now
  sql c (.insertWebhookEvent data receivedAt)

def updateWebhookEventStatus (id : Nat) (processedAt : Option Time) (processError : Option String)
    (c : Conn) : Svc Unit :=
  sql c (.updateWebhookEventStatus id processedAt processError)

/-- On a taken idempotency key nothing comes back, and decoding it throws. -/
def createTransaction (data : TransactionData) (c : Conn) : Svc TransactionEntity := do
  let createdAt ← now
  let row ← sql c (.createTransaction data createdAt)
  toEntity row

def findTransactionById (id : Nat) (c : Conn) : Svc (Option TransactionEntity) :=
  sql c (.findTransactionById id)

def findTransactionByProviderReference (refId : String) (c : Conn) :
    Svc (Option TransactionEntity) :=
  sql c (.findTransactionByProviderReference refId)

def findTransactionByOrderAndType (orderId : Nat) (transactionType : TransactionType) (c : Conn) :
    Svc (Option TransactionEntity) :=
  sql c (.findTransactionByOrderAndType orderId transactionType)

def findTransactionByIdempotencyKey (key : String) (c : Conn) : Svc (Option TransactionEntity) :=
  sql c (.findTransactionByIdempotencyKey key)

def updateTransactionStatus (id : Nat) (status : TransactionStatus) (c : Conn) :
    Svc TransactionEntity := do
  let updatedAt ← now
  let row ← sql c (.updateTransactionStatus id status updatedAt)
  toEntity row

def markTransactionAsRefunded (id : Nat) (c : Conn) : Svc Unit := do
  let updatedAt ← now
  sql c (.markTransactionAsRefunded id updatedAt)

end Payments

section Finance

/-- `SELECT ... FOR UPDATE`. -/
def lockBalance (restaurantId : Nat) (currency : String) (c : Conn) :
    Svc (Option RestaurantBalanceEntity) :=
  sql c (.lockBalance restaurantId currency)

def upsertBalance (restaurantId : Nat) (region currency : String) (delta : Int) (c : Conn) :
    Svc Unit :=
  sql c (.upsertBalance restaurantId region currency delta)

/-- A second earning of an order is ignored, and the first one returned. -/
def insertEarning (data : AgentEarningData) (c : Conn) : Svc AgentEarningEntity := do
  let row ← sql c (.insertEarning data)
  match row with
  | some e => pure e
  | none =>
    let existing ← sql c (.findEarningByOrder data.orderId)
    match existing with
    | none => throw (.error "Failed to insert agent earning")
    | some e => pure e

def insertOutboxEvent (c : Conn) (input : OutboxInput) : Svc Unit :=
  sql c (.insertOutboxEvent input)

end Finance

end OrderService
