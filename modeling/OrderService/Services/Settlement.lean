import OrderService.Repositories

/-! `SettlementService`: what a delivered order moves. -/
namespace OrderService

/-- `Math.floor((amount * bps) / 10000)`. -/
def bpsOf (amount bps : Int) : Int := amount * bps / 10000

def codCollection (order : OrderEntity) : TransactionData where
  region := order.region
  orderId := some order.id
  transactionType := .codCollection
  method := .cod
  providerId := none
  providerReferenceId := none
  status := .succeeded
  amount := order.total
  currency := order.currency
  srcAccId := some order.customerId
  dstAccId := some order.restaurantOwnerId
  idempotencyKey := some ("cod-collect:" ++ order.publicId)

/-- A transfer from the restaurant owner to the platform, which has no account. -/
def platformTransfer (order : OrderEntity) (transactionType : TransactionType) (amount : Int)
    (idempotencyKey : String) : TransactionData where
  region := order.region
  orderId := some order.id
  transactionType := transactionType
  method := .system
  providerId := none
  providerReferenceId := none
  status := .succeeded
  amount := amount
  currency := order.currency
  srcAccId := some order.restaurantOwnerId
  dstAccId := none
  idempotencyKey := some idempotencyKey

def commissionTransfer (order : OrderEntity) (commission : Int) : TransactionData :=
  platformTransfer order .commission commission ("commission:" ++ order.publicId)

def serviceFeeTransfer (order : OrderEntity) : TransactionData :=
  platformTransfer order .adjustment order.serviceFee ("service-fee:" ++ order.publicId)

def deliveryFeeTransfer (order : OrderEntity) : TransactionData :=
  platformTransfer order .adjustment order.deliveryFee ("delivery-fee:" ++ order.publicId)

def deliveredEvent (order : OrderEntity) (agentId : Nat) (commission : Int) (deliveredAt : Time) :
    OutboxInput where
  aggregateType := "order"
  aggregateId := order.publicId
  eventType := .orderDelivered
  payload := .delivered {
    orderId := order.publicId
    region := order.region
    restaurantId := order.restaurantId
    branchId := order.branchId
    customerId := order.customerId
    deliveryAgentId := agentId
    total := order.total
    subtotal := order.subtotal
    deliveryFee := order.deliveryFee
    commission := commission
    currency := order.currency
    paymentMethod := order.paymentMethod
    deliveredAt := deliveredAt }

/-- The commission rate from core; without an answer it is zero. -/
def fetchCommissionBps (branchId : Nat) : Svc Int :=
  tryCatch
    (do
      let branch ← getBranch branchId
      pure (branch.commissionBps.getD 0))
    (fun _ => pure 0)

def collectCod (order : OrderEntity) (c : Conn) : Svc Unit := do
  let existingCod ← findTransactionByOrderAndType order.id .codCollection c
  match existingCod with
  | none =>
    let _ ← createTransaction (codCollection order) c
    pure ()
  | some cod =>
    if cod.status ≠ .succeeded then
      let _ ← updateTransactionStatus cod.id .succeeded c
      pure ()
    else pure ()

/-- Books the transfer unless the order has a transaction of its type. -/
def bookTransfer (order : OrderEntity) (transfer : TransactionData) (c : Conn) : Svc Unit := do
  let existing ← findTransactionByOrderAndType order.id transfer.transactionType c
  match existing with
  | none =>
    let _ ← createTransaction transfer c
    pure ()
  | some _ => pure ()

def creditRestaurant (order : OrderEntity) (netToRestaurant : Int) (c : Conn) : Svc Unit := do
  let _ ← lockBalance order.restaurantId order.currency c
  upsertBalance order.restaurantId order.region order.currency netToRestaurant c

def recordEarning (order : OrderEntity) (agentId : Nat) (amount : Int) (c : Conn) : Svc Unit := do
  let _ ← insertEarning ⟨order.region, agentId, order.id, amount, order.currency⟩ c

def settleDeliveredOrder (cfg : Config) (order : OrderEntity) (agentId : Nat) (c : Conn) :
    Svc Int := do
  let commissionBps ← fetchCommissionBps order.branchId
  let commission := bpsOf order.subtotal commissionBps
  let agentEarningAmount := bpsOf order.deliveryFee cfg.agentEarningShareBps
  onlyIf (order.paymentMethod = .cod) (collectCod order c)
  onlyIf (commission > 0) (bookTransfer order (commissionTransfer order commission) c)
  onlyIf (order.serviceFee > 0) (bookTransfer order (serviceFeeTransfer order) c)
  -- The lookup by order and type also finds the service fee booked just above.
  onlyIf (order.deliveryFee > 0) (bookTransfer order (deliveryFeeTransfer order) c)
  onlyIf (order.subtotal - commission ≠ 0)
    (creditRestaurant order (order.subtotal - commission) c)
  onlyIf (agentEarningAmount > 0) (recordEarning order agentId agentEarningAmount c)
  let deliveredAt ← now
  insertOutboxEvent c (deliveredEvent order agentId commission deliveredAt)
  pure agentEarningAmount

end OrderService
