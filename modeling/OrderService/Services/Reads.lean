import OrderService.Services.Routes

/-! What a restaurant reads: the orders of a branch, a payment and the payouts. -/
namespace OrderService

section Pages

inductive SortOrder where
  | asc
  | desc

def SortOrder.le : SortOrder → Nat → Nat → Prop
  | .asc, a, b => a ≤ b
  | .desc, a, b => b ≤ a

/-- `ORDER BY key`: rows with the same key come in an order that the database chooses. -/
structure RowOrder (α : Type) (key : α → Nat) where
  arrange : SortOrder → List α → List α
  perm : ∀ s rows, (arrange s rows).Perm rows
  sorted : ∀ s rows, (arrange s rows).Pairwise fun a b => s.le (key a) (key b)

structure PaginationMeta where
  nextCursor : Option String
  hasMore : Bool
  count : Nat

/-- The rows have their column names, so the field of the cursor is undefined in them. -/
def buildPaginationResult {α : Type} (rows : List α) (limit : Nat) : List α × PaginationMeta :=
  let hasMore := limit < rows.length
  let data := rows.take limit
  (data, ⟨if data ≠ [] ∧ hasMore then some "undefined" else none, hasMore, data.length⟩)

/-- `limit` of `parsePaginationQuery`; as a number of rows it is cut to an integer. -/
def parseLimit : JsNumber → Nat
  | .finite q => if 0 < q then (min 100 q).floor.toNat else 20
  | _ => 20

/-- A number that an integer column can be compared with; the statement fails for others. -/
def JsNumber.integer? : JsNumber → Option Int
  | .finite q => if q.den = 1 then some q.num else none
  | _ => none

end Pages

section OrderLists

/-- The query parameters of a list of orders. -/
structure ListQuery where
  status : Option String := none
  createdFrom : Option Time := none
  createdTo : Option Time := none
  cursor : Option Time := none
  limit : JsNumber := .nan
  sortOrder : SortOrder := .desc

def ListQuery.afterCursor (q : ListQuery) (o : OrderEntity) : Bool :=
  match q.cursor, q.sortOrder with
  | none, _ => true
  | some cursor, .asc => cursor < o.createdAt
  | some cursor, .desc => o.createdAt < cursor

/-- The `WHERE` of `findOrdersByBranch`, apart from the branch. -/
def ListQuery.admits (q : ListQuery) (o : OrderEntity) : Bool :=
  q.status.all (fun s => s = "" || o.status.text = s) && q.createdFrom.all (· ≤ o.createdAt) &&
    q.createdTo.all (o.createdAt < ·) && q.afterCursor o

structure OrderSummaryResponse where
  publicId : String
  status : OrderStatus
  total : Int
  currency : String
  itemsCount : Nat
  restaurantId : Nat
  branchId : Nat
  createdAt : Time

def OrderSummaryResponse.ofOrder (order : OrderEntity) (itemsCount : Nat) :
    OrderSummaryResponse where
  publicId := order.publicId
  status := order.status
  total := order.total
  currency := order.currency
  itemsCount := itemsCount
  restaurantId := order.restaurantId
  branchId := order.branchId
  createdAt := order.createdAt

structure OrdersBody where
  data : List OrderSummaryResponse
  pageInfo : PaginationMeta

variable (order : RowOrder OrderEntity OrderEntity.createdAt)

def findOrdersByBranch (branchId : JsNumber) (q : ListQuery) (db : Db) :
    Except Err (List OrderEntity × PaginationMeta) :=
  match branchId.integer? with
  | none => .error .failed
  | some id =>
    let rows := db.orders.filter fun o => (o.branchId : Int) = id && q.admits o
    .ok (buildPaginationResult ((order.arrange q.sortOrder rows).take (parseLimit q.limit + 1))
      (parseLimit q.limit))

def listRestaurantOrders (branchId : JsNumber) (q : ListQuery) (db : Db) : Except Err OrdersBody :=
  match findOrdersByBranch order branchId q db with
  | .error err => .error err
  | .ok (rows, pageInfo) =>
    .ok ⟨rows.map fun o => .ofOrder o (db.orderItems.countP fun i => i.orderId = o.id), pageInfo⟩

/-- `GET /restaurants/:restaurantId/branches/:branchId/orders`, with the branch id that the query
may give. -/
structure BranchOrdersRequest where
  restaurantId : JsNumber
  branchId : JsNumber
  queryBranchId : JsNumber := .nan
  query : ListQuery := {}

def BranchOrdersRequest.route (request : BranchOrdersRequest) : RouteRequest :=
  .listRestaurantOrders request.restaurantId request.branchId request.queryBranchId

/-- After the guards `withCache` answers with what it finds under the URL; only without a hit the
handler runs. -/
def getBranchOrders (v : Visit) (request : BranchOrdersRequest) (cached : Option OrdersBody)
    (db : Db) : Guarded OrdersBody := do
  let _ ← request.route.serve v
  match cached with
  | some body => return body
  | none =>
    match listRestaurantOrders order request.branchId request.query db with
    | .error err => failWith err
    | .ok body => return body

end OrderLists

section Payments

def paymentNotFoundError : AppError := ⟨"PaymentNotFound", 404⟩

/-- The transaction, with the restaurant of its order where it has one. -/
def findTransactionWithRestaurant (id : Int) (db : Db) :
    Option (TransactionEntity × Option Nat) :=
  (db.transactions.find? fun t => (t.id : Int) = id).map fun t =>
    (t, (db.orders.find? fun o => t.orderId = some o.id).map OrderEntity.restaurantId)

def getById (paymentId : Int) (restaurantId : JsNumber) (db : Db) : Except Err PaymentResponse :=
  match findTransactionWithRestaurant paymentId db with
  | none => .error (.app paymentNotFoundError)
  | some (transaction, owner) =>
    if owner.any fun id => !(JsNumber.ofNat id).same restaurantId then
      .error (.app unAuthorisedError)
    else .ok (.ofTransaction transaction)

/-- `GET /restaurants/:restaurantId/payments/:paymentId`. -/
def getPayment (v : Visit) (restaurantId paymentId : JsNumber) (db : Db) :
    Guarded PaymentResponse := do
  let _ ← (RouteRequest.getPayment restaurantId paymentId).serve v
  match paymentId with
  | .finite value =>
    if value ≤ 0 then refuse 400 "invalid paymentId"
    else match paymentId.integer? with
      | none => failWith .failed
      | some id =>
        match getById id restaurantId db with
        | .error err => failWith err
        | .ok response => return response
  | _ => refuse 400 "invalid paymentId"

end Payments

section Payouts

/-- The owner on the latest order of the restaurant. -/
def Db.ownerOf (db : Db) (restaurantId : Nat) (region : String) : Option Nat :=
  (firstDesc OrderEntity.createdAt (db.orders.filter fun o =>
    o.restaurantId = restaurantId && o.region = region)).map OrderEntity.restaurantOwnerId

variable (order : RowOrder TransactionEntity TransactionEntity.createdAt)

def findPayouts (ownerId : Nat) (region : String) (createdFrom createdTo : Time) (db : Db) :
    List TransactionEntity :=
  (order.arrange .desc (db.transactions.filter fun t => t.region = region &&
    t.transactionType = .payout && t.dstAccId = some ownerId &&
    createdFrom ≤ t.createdAt && t.createdAt ≤ createdTo)).take 50

def listPayouts (restaurantId : Nat) (region : String) (createdFrom createdTo : Time) (db : Db) :
    Except Err (List PayoutResponse) :=
  match orNull (db.ownerOf restaurantId region) with
  | none => .error (.app ⟨"Restaurant owner could not be resolved", 404⟩)
  | some ownerUserId =>
    .ok ((findPayouts order ownerUserId region createdFrom createdTo db).map .fromTransaction)

end Payouts

end OrderService
