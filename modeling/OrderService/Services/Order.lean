import OrderService.Services.OrderStatus
import OrderService.Responses

/-! `OrderService` and the payment session it opens: placing an order and changing its status. -/
namespace OrderService

def orderNotFoundError : AppError := ⟨"Order Not Found", 404⟩
def branchNotAcceptingOrdersError : AppError := ⟨"Branch Not Accepting Orders", 409⟩
def onlinePaymentNotAvailableError : AppError := ⟨"OnlinePaymentNotAvailableInRegion", 409⟩
def unAuthorisedError : AppError := ⟨"User not authorised", 403⟩

structure UnavailableItem where
  productId : Nat
  requested : Int
  available : Int

def UnavailableItem.json (u : UnavailableItem) : String :=
  "\x7b\"productId\":" ++ toString u.productId ++ ",\"requested\":" ++ toString u.requested ++
    ",\"available\":" ++ toString u.available ++ "\x7d"

def outOfStockError (offending : List UnavailableItem) : AppError :=
  ⟨"[" ++ ",".intercalate (offending.map UnavailableItem.json) ++ "] is out of stock", 409⟩

section UpdateStatus

/-- `OUTBOX_EVENT_FOR_STATUS[status]`. -/
def outboxEventForStatus : OrderStatus → Option EventType
  | .accepted => some .orderAccepted
  | .rejected => some .orderRejected
  | .cancelled => some .orderCancelled
  | _ => none

/-- `Number(null)` is zero, and `Number(undefined)` equals nothing. -/
def resolveStatusActor (actor : ActorContext) (order : OrderEntity) : Except Err StatusActor :=
  if actor.role = .systemAdmin then .ok .admin
  else if actor.role = .deliveryAgent ∧ actor.userId = order.deliveryAgentId.getD 0 then .ok .agent
  else if actor.role = .restaurantUser then
    if actor.restaurantId ≠ some order.restaurantId then .error (.app unAuthorisedError)
    else if actor.restaurantRole ≠ some "owner" ∧ order.branchId ∉ actor.branchIds.getD [] then
      .error (.app unAuthorisedError)
    else .ok .restaurantMember
  else if actor.userId = order.customerId then .ok .customer
  else .error (.app unAuthorisedError)

def buildOrderTransitionPayload (order : OrderEntity) (reason : Option String)
    (actor : StatusActor) : OrderTransitionPayload where
  orderId := order.publicId
  region := order.region
  restaurantId := order.restaurantId
  branchId := order.branchId
  customerId := order.customerId
  status := order.status
  reason := reason
  actor := actor
  occurredAt := order.updatedAt

def transitionEvent (order : OrderEntity) (eventType : EventType) (ctx : AssertTransitionContext) :
    OutboxInput where
  aggregateType := "order"
  aggregateId := order.publicId
  eventType := eventType
  payload := .transition (buildOrderTransitionPayload order ctx.reason ctx.actor)

/-- The outbox row of the new status, for the statuses that have one. -/
def emitTransition (updated : OrderEntity) (ctx : AssertTransitionContext) : Svc Unit :=
  match outboxEventForStatus updated.status with
  | none => pure ()
  | some eventType => insertOutboxEvent .pool (transitionEvent updated eventType ctx)

/-- The body of the `try` in `updateStatus`. The statements go to the pool, not to the
transaction that is open around them. -/
def writeStatus (dto : UpdateOrderStatusRequest) (order : OrderEntity) (stamp : Option Stamp)
    (ctx : AssertTransitionContext) : Svc OrderEntity := do
  let updated ← updateOrderStatus order.publicId dto.status .pool stamp
  emitTransition updated ctx
  commit
  pure updated

/-- `OrderService.updateStatus`. -/
def updateStatus (actor : ActorContext) (dto : UpdateOrderStatusRequest) (region orderId : String) :
    Svc OrderStatusResponse := do
  let found ← findOrderByPublicId orderId .pool
  match found with
  | none => throw (.app orderNotFoundError)
  | some order =>
    let statusActor ← Interleaving.Prog.ofExcept (resolveStatusActor actor order)
    let ctx : AssertTransitionContext :=
      ⟨statusActor, dto.reason, some order.createdAt, order.acceptedAt⟩
    let stamp ← assertTransition order.status dto.status ctx
    startTransaction
    let updated ← tryCatch (writeStatus dto order stamp ctx) fun e => do
      rollback
      throw e
    let _ ← cache (.del (.restaurantOrders region order.branchId))
    emit (.customer order.customerId) .orderStatusChanged updated.publicId
    emit (.branch order.branchId) .orderStatusChanged updated.publicId
    pure (.ofOrder updated)

end UpdateStatus

section PaymentSession

/-- `fromMinor(total).toFixed(2)`. -/
def majorText (minor : Int) : String :=
  let cents := minor.natAbs % 100
  (if minor < 0 then "-" else "") ++ toString (minor.natAbs / 100) ++ "." ++
    (if cents < 10 then "0" else "") ++ toString cents

/-- `PAYMENT_PROVIDER_IDS[PaymentProviderName.KASHIER]`. -/
def kashierProviderId : Nat := 0

def createSessionInput (order : OrderEntity) : CreateSessionInput where
  merchantOrderId := order.publicId
  amount := majorText order.total
  currency := order.currency
  description := "QuickBite order " ++ order.publicId
  allowedMethods := "card,wallet"
  customerReference := toString order.customerId

def sessionData (order : OrderEntity) (result : CreateSessionResult) : PaymentSessionData where
  region := order.region
  orderId := order.id
  providerId := kashierProviderId
  providerSessionId := result.providerSessionId
  redirectUrl := result.redirectUrl
  amount := order.total
  currency := order.currency
  status := .initialized

def initializePaymentSession (cfg : Config) (order : OrderEntity) : Svc PaymentInitResponse := do
  let existingSession ← findPaymentSessionByOrderId order.id .pool
  match existingSession with
  | some session => pure (.ofSession session (session.createdAt + cfg.sessionTimeoutMin * 60000))
  | none =>
    let result ← Interleaving.Prog.perform (Op.createSession (createSessionInput order))
    let newSession ← createPaymentSession (sessionData order result) .pool
    pure (.ofSession newSession (result.expiresAt.getD (newSession.createdAt + 15 * 60 * 1000)))

end PaymentSession

section PlaceOrder

/-- `normalizeRegion` and the check against the configured regions. -/
def assertRegion (cfg : Config) (candidate : String) : Except Err String :=
  let known := cfg.regions.map String.toLower
  if candidate.toLower ≠ "" ∧ candidate.toLower ∈ known then .ok candidate.toLower
  else .error (.error ("Unknown region: \"" ++ candidate ++ "\". Known: " ++
    ",".intercalate cfg.regions))

/-- `a.filter(Boolean).join(", ")` of the address parts. -/
def flattenAddress (a : CoreCustomerAddress) : String :=
  ", ".intercalate ([a.building, a.street, a.city, a.country].filter (· ≠ ""))

/-- The last product of an id wins in the map. -/
def productOf (products : List CoreBranchProduct) (productId : Nat) : Option CoreBranchProduct :=
  products.reverse.find? fun p => p.productId = productId

def itemAvailable (products : List CoreBranchProduct) (item : OrderItemInput) : Bool :=
  match productOf products item.productId with
  | none => false
  | some bp => bp.isAvailable && item.quantity ≤ bp.stock

def unavailableItems (products : List CoreBranchProduct) (items : List OrderItemInput) :
    List UnavailableItem :=
  (items.filter fun i => !itemAvailable products i).map fun i =>
    ⟨i.productId, i.quantity, ((productOf products i.productId).map CoreBranchProduct.stock).getD 0⟩

/-- The line of an available item; the order id is filled in at the insert. -/
def orderLine (region : String) (orderId : Nat) (bp : CoreBranchProduct) (quantity : Int) :
    OrderItemData where
  region := region
  orderId := orderId
  productId := bp.productId
  quantity := quantity
  unitPriceSnapshot := bp.price
  nameSnapshot := bp.name
  imageUrlSnapshot := bp.imageUrl
  lineTotal := bp.price * quantity

def orderLines (region : String) (orderId : Nat) (products : List CoreBranchProduct)
    (items : List OrderItemInput) : List OrderItemData :=
  (items.filter (itemAvailable products)).filterMap fun i =>
    (productOf products i.productId).map fun bp => orderLine region orderId bp i.quantity

def subtotalOf (lines : List OrderItemData) : Int := (lines.map OrderItemData.lineTotal).sum

def serviceFeeMinor : Int := 1000

def buildOrderPlacedPayload (order : OrderEntity) (items : List OrderItemEntity) :
    OrderPlacedPayload where
  orderId := order.publicId
  region := order.region
  countryCode := order.countryCode
  restaurantId := order.restaurantId
  branchId := order.branchId
  customerId := order.customerId
  status := order.status
  paymentMethod := order.paymentMethod
  subtotal := order.subtotal
  deliveryFee := order.deliveryFee
  serviceFee := order.serviceFee
  total := order.total
  currency := order.currency
  items := items.map fun i => ⟨i.productId, i.quantity, i.unitPriceSnapshot, i.lineTotal⟩
  placedAt := order.createdAt

def orderPlacedEvent (order : OrderEntity) (items : List OrderItemEntity) : OutboxInput where
  aggregateType := "order"
  aggregateId := order.publicId
  eventType := .orderPlaced
  payload := .placed (buildOrderPlacedPayload order items)

def placedOrderData (actor : ActorContext) (region : String) (branch : Branch)
    (address : CoreCustomerAddress) (dto : CreateOrderRequest) (publicId : String)
    (subtotal : Int) : OrderData where
  region := region
  publicId := publicId
  countryCode := branch.region
  restaurantId := branch.restaurantId
  restaurantOwnerId := branch.restaurantOwnerId
  branchId := branch.id
  customerId := actor.userId
  customerAddressId := dto.customerAddressId
  deliveryLat := address.lat
  deliveryLng := address.lng
  deliveryAddressTextSnapshot := flattenAddress address
  branchLat := branch.lat
  branchLng := branch.lng
  status := if dto.paymentMethod = .cod then .placed else .pendingPayment
  subtotal := subtotal
  deliveryFee := branch.deliveryFee
  serviceFee := serviceFeeMinor
  total := subtotal + branch.deliveryFee + serviceFeeMinor
  currency := branch.currency
  paymentMethod := dto.paymentMethod

/-- `undoReserveStock`, whose own failure is only logged. -/
def undoStock (branchId : Nat) (items : List ReserveStockItem) : Svc Unit :=
  tryCatch (Interleaving.Prog.perform (Op.undoReserveStock branchId items none)) fun _ => pure ()

/-- The body of the `try` around the order's transaction. -/
def insertOrder (data : OrderData) (lines : Nat → List OrderItemData) :
    Svc (OrderEntity × List OrderItemEntity) := do
  let order ← createOrder data .trx
  let items ← bulkInsertItems (lines order.id) .trx
  onlyIf (order.status = .placed) (insertOutboxEvent .trx (orderPlacedEvent order items))
  commit
  pure (order, items)

/-- Opens the payment session; when that fails, voids the order on the transaction object that
was committed before. -/
def openPayment (cfg : Config) (order : OrderEntity) (branchId : Nat)
    (stock : List ReserveStockItem) : Svc OrderResponsePaymentInfo :=
  tryCatch
    (do
      let session ← initializePaymentSession cfg order
      pure ⟨session.sessionId, session.providerSessionId, session.redirectUrl, session.expiresAt⟩)
    fun payErr => do
      let _ ← updateOrderStatus order.publicId .cancelled .trx (some .cancelledAt)
      undoStock branchId stock
      throw payErr

def paymentData (cfg : Config) (dto : CreateOrderRequest) (order : OrderEntity)
    (stock : List ReserveStockItem) : Svc (Option OrderResponsePaymentInfo) :=
  if dto.paymentMethod = .online then do
    let info ← openPayment cfg order dto.branchId stock
    pure (some info)
  else pure none

/-- From the stock reservation on. -/
def submitOrder (cfg : Config) (actor : ActorContext) (resolvedRegion : String) (branch : Branch)
    (address : CoreCustomerAddress) (products : List CoreBranchProduct) (dto : CreateOrderRequest) :
    Svc OrderResponse := do
  let publicId ← Interleaving.Prog.perform Op.randomUUID
  let stock := dto.items.map fun i => (⟨i.productId, i.quantity⟩ : ReserveStockItem)
  Interleaving.Prog.perform (Op.reserveStock dto.branchId stock (some publicId))
  let lines := fun orderId => orderLines resolvedRegion orderId products dto.items
  let data := placedOrderData actor resolvedRegion branch address dto publicId
    (subtotalOf (lines 0))
  startTransaction
  let placed ← tryCatch (insertOrder data lines) fun err => do
    rollback
    undoStock dto.branchId stock
    throw err
  let payment ← paymentData cfg dto placed.1 stock
  let _ ← cache (.del (.restaurantOrders resolvedRegion branch.id))
  onlyIf (dto.paymentMethod = .cod) (emit (.branch branch.id) .orderCreated placed.1.publicId)
  pure (.ofOrder placed.1 placed.2 payment)

/-- `OrderService.placeOrder`. -/
def placeOrder (cfg : Config) (actor : ActorContext) (region : Option String)
    (dto : CreateOrderRequest) : Svc OrderResponse := do
  let branch ← getBranch dto.branchId
  if !branch.isActive || !branch.acceptOrders || branch.restaurantStatus ≠ "active" then
    throw (.app branchNotAcceptingOrdersError)
  else do
    let flag ← cache (.get (.rejectFlag dto.branchId))
    if flag = some .flag then throw (.app branchNotAcceptingOrdersError)
    else do
      let resolvedRegion ← Interleaving.Prog.ofExcept
        (assertRegion cfg (region.getD branch.region))
      if dto.paymentMethod = .online ∧ resolvedRegion ∉ cfg.onlineRegions then
        throw (.app onlinePaymentNotAvailableError)
      else do
        let address ← Interleaving.Prog.perform (Op.getCustomerAddress dto.customerAddressId)
        if address.userId ≠ actor.userId then throw (.app unAuthorisedError)
        else do
          let products ← Interleaving.Prog.perform
            (Op.getBranchProducts dto.branchId (dto.items.map OrderItemInput.productId))
          if products.length ≠ dto.items.length then
            throwApp "One or more products not found in this branch" 400
          else if (unavailableItems products dto.items).isEmpty then
            submitOrder cfg actor resolvedRegion branch address products dto
          else throw (.app (outOfStockError (unavailableItems products dto.items)))

end PlaceOrder

end OrderService
