import OrderService.Services.Order
import OrderService.Services.Signature

/-! `PaymentWebhookService`: a webhook of the payment provider. -/
namespace OrderService

def invalidWebhookSignatureError : AppError := ⟨"InvalidSignature", 401⟩
def malformedWebhookError : AppError := ⟨"MalformedWebhook", 400⟩

/-- What `parseEnvelope` lets through: the event, and the fields of `data`. -/
structure Envelope where
  event : Json
  data : List (String × Json)

def Json.isText (j : Json) (s : String) : Bool :=
  match j with
  | .str t => t = s
  | _ => false

/-- `rawBody` is what `JSON.parse` makes of the body, `none` where it throws. An object `data`
must hold a transaction id; what it inherits is never one. -/
def parseEnvelope (rawBody : Option Json) : Except AppError Envelope :=
  match rawBody with
  | some (.obj fields) =>
    match getField fields "event", getField fields "data" with
    | some event, some (.obj data) =>
      if event.truthy && ((getField data "transactionId").map Json.truthy).getD false then
        .ok ⟨event, data⟩
      else .error malformedWebhookError
    | _, _ => .error malformedWebhookError
  | _ => .error malformedWebhookError

/-- `data.merchantOrderId || data.orderReference`. -/
def orderReference (data : List (String × Json)) : Option Json :=
  match getField data "merchantOrderId" with
  | some v => if v.truthy then some v else getField data "orderReference"
  | none => getField data "orderReference"

/-- How a template literal shows the reference. -/
def referenceText : Option Json → String
  | none => "undefined"
  | some j => match j.text with
    | .ok s => s
    | .error _ => ""

/-- `public_id = reference`: only a string can be bound to a UUID column, and a null matches no
row. -/
def findReferencedOrder (reference : Option Json) (c : Conn) : Svc (Option OrderEntity) :=
  match reference with
  | some (.str publicId) => findOrderByPublicId publicId c
  | some .null => pure none
  | _ => throw .failed

def statusIs (data : List (String × Json)) (s : String) : Bool :=
  ((getField data "status").map fun j => j.isText s).getD false

/-- What the processing needs of an accepted webhook. -/
structure WebhookContext where
  region : String
  signature : String
  data : List (String × Json)
  transactionId : String
  provider : PaymentProviderEntity

def chargeData (ctx : WebhookContext) (order : OrderEntity) (session : PaymentSessionEntity)
    (status : TransactionStatus) (dstAccId : Nat) : TransactionData where
  region := ctx.region
  orderId := some order.id
  transactionType := .charge
  method := .online
  providerId := some ctx.provider.id
  providerReferenceId := some ctx.transactionId
  status := status
  amount := session.amount
  currency := session.currency
  srcAccId := some order.customerId
  dstAccId := some dstAccId
  idempotencyKey := some ("kashier:" ++ ctx.transactionId)

def paymentEvent (ctx : WebhookContext) (order : OrderEntity) (session : PaymentSessionEntity)
    (eventType : EventType) (occurredAt : Time) : OutboxInput where
  aggregateType := "payment"
  aggregateId := order.publicId
  eventType := eventType
  payload := .payment {
    orderId := order.publicId
    region := ctx.region
    restaurantId := order.restaurantId
    branchId := order.branchId
    customerId := order.customerId
    provider := "kashier"
    providerReferenceId := ctx.transactionId
    amount := session.amount
    currency := session.currency
    method := "online"
    occurredAt := occurredAt }

/-- The owner account of the branch; without an answer of core, or an owner in it, none. -/
def fetchRestaurantOwner (branchId : Nat) : Svc (Option Nat) :=
  tryCatch
    (do
      let branch ← getBranch branchId
      pure (orNull branch.restaurantOwnerId))
    (fun _ => pure none)

def recordCharge (ctx : WebhookContext) (order : OrderEntity) (session : PaymentSessionEntity)
    (status : TransactionStatus) (dstAccId : Nat) : Svc Unit := do
  let existingTx ← findTransactionByProviderReference ctx.transactionId .trx
  match existingTx with
  | some _ => pure ()
  | none =>
    let _ ← createTransaction (chargeData ctx order session status dstAccId) .trx
    pure ()

/-- A paid order that was waiting for its payment is placed. -/
def placePaidOrder (order : OrderEntity) : Svc (Option (OrderEntity × Nat)) :=
  if order.status = .pendingPayment then do
    let placed ← updateOrderStatus order.publicId .placed .trx none
    let items ← findItemsByOrderIds [placed.id] .trx
    insertOutboxEvent .trx (orderPlacedEvent placed items)
    pure (some (placed, items.length))
  else pure none

/-- The success branch. It answers the placed order and its number of items for the broadcast. -/
def applySuccess (ctx : WebhookContext) (order : OrderEntity) (session : PaymentSessionEntity) :
    Svc (Option (OrderEntity × Nat)) := do
  let _ ← updatePaymentSessionStatus session.id .captured .trx
  let restaurantOwnerId ← fetchRestaurantOwner order.branchId
  recordCharge ctx order session .succeeded (restaurantOwnerId.getD order.restaurantId)
  let completedAt ← now
  insertOutboxEvent .trx (paymentEvent ctx order session .paymentCompleted completedAt)
  placePaidOrder order

def applyFailure (ctx : WebhookContext) (order : OrderEntity) (session : PaymentSessionEntity) :
    Svc (Option (OrderEntity × Nat)) := do
  let _ ← updatePaymentSessionStatus session.id .failed .trx
  recordCharge ctx order session .failed order.restaurantId
  let failedAt ← now
  insertOutboxEvent .trx (paymentEvent ctx order session .paymentFailed failedAt)
  pure none

/-- The branches of the processing. Only `pay` comes this far, so the first condition decides
alone. -/
def applyEvent (event : Json) (ctx : WebhookContext) (order : OrderEntity)
    (session : PaymentSessionEntity) : Svc (Option (OrderEntity × Nat)) :=
  if event.isText "pay" || statusIs ctx.data "SUCCESS" then applySuccess ctx order session
  else if statusIs ctx.data "FAILED" then applyFailure ctx order session
  else pure none

/-- What follows the commit when the order was placed. -/
def announcePlaced (region : String) (broadcast : Option (OrderEntity × Nat)) : Svc Unit :=
  match broadcast with
  | none => pure ()
  | some (placed, _) => do
    let _ ← cache (.del (.restaurantOrders region placed.branchId))
    emit (.branch placed.branchId) .orderCreated placed.publicId
    emit (.customer placed.customerId) .orderStatusChanged placed.publicId

/-- The body of the `try`. -/
def processWebhook (event : Json) (ctx : WebhookContext) (insertedId : Nat) : Svc Unit := do
  let found ← findReferencedOrder (orderReference ctx.data) .trx
  match found with
  | none => throwApp ("Order " ++ referenceText (orderReference ctx.data) ++ " not found locally") 404
  | some order =>
    let session ← findPaymentSessionByOrderId order.id .trx
    match session with
    | none => throwApp ("No active payment session found for order " ++ order.publicId) 404
    | some session =>
      let broadcast ← applyEvent event ctx order session
      let processedAt ← now
      updateWebhookEventStatus insertedId (some processedAt) none .trx
      commit
      announcePlaced ctx.region broadcast

/-- The dedupe insert on the pool and, unless it finds the event there, the processing. -/
def receiveWebhook (event : Json) (ctx : WebhookContext) (providerEventId : String) :
    Svc Unit := do
  let inserted ← insertWebhookEvent
    ⟨ctx.region, kashierProviderId, providerEventId, ctx.signature⟩ .pool
  match inserted with
  | none => pure ()
  | some insertedEvent =>
    startTransaction
    tryCatch (processWebhook event ctx insertedEvent.id) fun error => do
      rollback
      let processedAt ← now
      updateWebhookEventStatus insertedEvent.id (some processedAt) (some error.message) .pool
      throw error

/-- `envelope.data.signatureKeys ?? []`. -/
def signatureKeysOf (data : List (String × Json)) : Json :=
  match getField data "signatureKeys" with
  | some .null => .arr []
  | some j => j
  | none => .arr []

section Receiving

-- `createHmac("sha256", key).update(message).digest("hex")`
variable (hmacSha256 : String → String → String)

/-- `PaymentWebhookService.verifyAndProcessWebhook`. -/
def verifyAndProcessWebhook (cfg : Config) (rawBody : Option Json) (signature region : String) :
    Svc Unit := do
  match parseEnvelope rawBody with
  | .error e => throw (.app e)
  | .ok envelope =>
    if !envelope.event.isText "pay" then pure ()
    else if signature = "" then throw (.app invalidWebhookSignatureError)
    else do
      let kashierProvider ← findProviderByName "kashier" .pool
      match kashierProvider with
      | none => throwApp "Kashier provider not active or configured" 400
      | some provider =>
        if !provider.isEnabled then throwApp "Kashier provider not active or configured" 400
        else do
          let isValid ← Interleaving.Prog.ofExcept
            (verifyKashierWebhookSignature hmacSha256 envelope.data signature
              (signatureKeysOf envelope.data) cfg.kashierApiKey)
          if !isValid then throw (.app invalidWebhookSignatureError)
          else do
            let transactionId ← Interleaving.Prog.ofExcept
              (((getField envelope.data "transactionId").getD .null).text)
            receiveWebhook envelope.event
              ⟨region, signature, envelope.data, transactionId, provider⟩ transactionId

end Receiving

end OrderService
