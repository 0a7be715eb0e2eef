import OrderService.Entities

/-! The response DTOs of the modelled services. -/
namespace OrderService

structure OrderItemResponse where
  productId : Nat
  name : String
  imageUrl : String
  quantity : Int
  unitPrice : Int
  lineTotal : Int

structure OrderResponsePaymentInfo where
  sessionId : Nat
  providerSessionId : String
  redirectUrl : String
  expiresAt : Time

structure OrderResponse where
  publicId : String
  status : OrderStatus
  paymentMethod : PaymentMethod
  branchId : Nat
  restaurantId : Nat
  customerAddress : Int × Int × String
  subtotal : Int
  deliveryFee : Int
  serviceFee : Int
  total : Int
  currency : String
  items : List OrderItemResponse
  createdAt : Time
  payment : Option OrderResponsePaymentInfo

structure OrderStatusResponse where
  publicId : String
  status : OrderStatus
  updatedAt : Time

structure PayoutResponse where
  id : Nat
  amount : Int
  currency : String
  status : TransactionStatus
  providerReferenceId : Option String
  createdAt : Time

structure TaskPickup where
  branchId : Nat
  branchName : Option String
  lat : Option Int
  lng : Option Int
  addressText : Option String

structure DeliveryTaskResponse where
  orderPublicId : String
  status : OrderStatus
  pickup : TaskPickup
  dropoff : Int × Int × String
  total : Int
  currency : String
  paymentMethod : PaymentMethod
  assignedAt : Time
  pickedAt : Option Time
  deliveredAt : Option Time

structure PaymentInitResponse where
  sessionId : Nat
  providerSessionId : String
  redirectUrl : String
  amount : Int
  currency : String
  expiresAt : Time

def OrderItemResponse.ofItem (item : OrderItemEntity) : OrderItemResponse where
  productId := item.productId
  name := item.nameSnapshot
  imageUrl := item.imageUrlSnapshot.getD ""
  quantity := item.quantity
  unitPrice := item.unitPriceSnapshot
  lineTotal := item.lineTotal

def OrderResponse.ofOrder (order : OrderEntity) (items : List OrderItemEntity)
    (payment : Option OrderResponsePaymentInfo) : OrderResponse where
  publicId := order.publicId
  status := order.status
  paymentMethod := order.paymentMethod
  branchId := order.branchId
  restaurantId := order.restaurantId
  customerAddress := (order.deliveryLat, order.deliveryLng, order.deliveryAddressTextSnapshot)
  subtotal := order.subtotal
  deliveryFee := order.deliveryFee
  serviceFee := order.serviceFee
  total := order.total
  currency := order.currency
  items := items.map OrderItemResponse.ofItem
  createdAt := order.createdAt
  payment := payment

def OrderStatusResponse.ofOrder (order : OrderEntity) : OrderStatusResponse :=
  ⟨order.publicId, order.status, order.updatedAt⟩

def PayoutResponse.fromTransaction (tx : TransactionEntity) : PayoutResponse :=
  ⟨tx.id, tx.amount, tx.currency, tx.status, tx.providerReferenceId, tx.createdAt⟩

/-- An empty provider reference is left out. -/
def PayoutResponse.fromRow (row : TransactionEntity) : PayoutResponse :=
  let reference := match row.providerReferenceId with
    | some "" => none
    | r => r
  ⟨row.id, row.amount, row.currency, row.status, reference, row.createdAt⟩

def DeliveryTaskResponse.ofOrder (order : OrderEntity) (branch : Option Branch) :
    DeliveryTaskResponse where
  orderPublicId := order.publicId
  status := order.status
  pickup := ⟨order.branchId, branch.map Branch.name, branch.map Branch.lat, branch.map Branch.lng,
    branch.map Branch.addressText⟩
  dropoff := (order.deliveryLat, order.deliveryLng, order.deliveryAddressTextSnapshot)
  total := order.total
  currency := order.currency
  paymentMethod := order.paymentMethod
  assignedAt := order.assignedAt.getD order.createdAt
  pickedAt := order.pickedAt
  deliveredAt := order.deliveredAt

def PaymentInitResponse.ofSession (session : PaymentSessionEntity) (expiresAt : Time) :
    PaymentInitResponse :=
  ⟨session.id, session.providerSessionId, session.redirectUrl, session.amount, session.currency,
    expiresAt⟩

end OrderService
