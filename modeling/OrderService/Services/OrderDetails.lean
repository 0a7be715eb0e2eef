import OrderService.Services.Routes

/-! `GET /orders/:publicId`: the details of an order, and who is shown them. -/
namespace OrderService

section Details

/-- `buildHistory`: the statuses that have a time in the row. -/
def buildHistory (order : OrderEntity) : List (OrderStatus × Time) :=
  let push (status : OrderStatus) (ts : Option Time) := (ts.map fun t => (status, t)).toList
  (if order.paymentMethod = .online then
    push .pendingPayment (some order.createdAt) ++ push .placed (some order.createdAt)
  else push .placed (some order.createdAt)) ++
    push .accepted order.acceptedAt ++ push .rejected order.rejectedAt ++
    push .ready order.readyAt ++ push .assigned order.assignedAt ++
    push .picked order.pickedAt ++ push .delivered order.deliveredAt ++
    push .cancelled order.cancelledAt

structure OrderDetailsResponse where
  order : OrderResponse
  history : List (OrderStatus × Time)

def OrderDetailsResponse.ofOrder (order : OrderEntity) (items : List OrderItemEntity) :
    OrderDetailsResponse :=
  ⟨.ofOrder order items none, buildHistory order⟩

end Details

section Service

def assertReadAccess (actor : ActorContext) (order : OrderEntity) : Except Err Unit :=
  if actor.role = .systemAdmin then .ok ()
  else if actor.userId = order.customerId then .ok ()
  else if actor.role = .restaurantUser then
    if actor.restaurantId ≠ some order.restaurantId then .error (.app unAuthorisedError)
    else if actor.restaurantRole = some "owner" then .ok ()
    else if order.branchId ∈ actor.branchIds.getD [] then .ok ()
    else .error (.app unAuthorisedError)
  else .error (.app unAuthorisedError)

/-- `OrderService.getOrder`, on the tables of the region. -/
def getOrder (actor : ActorContext) (publicId : String) (db : Db) :
    Except Err OrderDetailsResponse :=
  match db.order publicId with
  | none => .error (.app orderNotFoundError)
  | some order => do
    assertReadAccess actor order
    return .ofOrder order (db.orderItems.filter fun i => [order.id].contains i.orderId)

end Service

section Controller

/-- What `OrderController.getOrder` hands to the service: the branches of the token stand under
`branchId`, a field that the service does not read. -/
def readActor (user : ActorContext) : ActorContext := { user with branchIds := none }

/-- The request with its guards. -/
def serveGetOrder (v : Visit) (publicId : String) (db : Db) : Guarded OrderDetailsResponse := do
  let user ← authenticate v
  let region ← requireRegion v
  shard region
  match getOrder (readActor user) publicId db with
  | .error err => failWith err
  | .ok response => return response

end Controller

end OrderService
