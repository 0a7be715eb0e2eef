import Mathlib.Algebra.Order.Ring.Unbundled.Rat
import Mathlib.Algebra.Ring.Int.Defs
import Mathlib.Algebra.Ring.Nat
import Mathlib.Data.List.Lex
import OrderService.Enums

/-! Rows, request bodies, core replies and errors. Money is in minor units, times are in
milliseconds, coordinates are in units of 1e-7 degree as the columns store them. -/
namespace OrderService

abbrev Time := Nat

structure AppError where
  message : String
  statusCode : Nat
  deriving DecidableEq, Repr

/-- Why a call rejects: an `AppError`, an `Error` of the code, a failed statement, cache command
or HTTP call, a query on a completed transaction, or a property of `undefined`. -/
inductive Err where
  | app (e : AppError)
  | error (message : String)
  | failed
  | completed
  | typeError
  deriving DecidableEq, Repr

def Err.message : Err → String
  | .app e => e.message
  | .error m => m
  | .failed => "connection terminated"
  | .completed => "Transaction query already complete"
  | .typeError => "Cannot read properties of undefined"

structure OrderEntity where
  id : Nat
  region : String
  publicId : String
  countryCode : String
  restaurantId : Nat
  restaurantOwnerId : Nat
  branchId : Nat
  customerId : Nat
  customerAddressId : Nat
  deliveryLat : Int
  deliveryLng : Int
  deliveryAddressTextSnapshot : String
  branchLat : Int
  branchLng : Int
  status : OrderStatus
  subtotal : Int
  deliveryFee : Int
  serviceFee : Int
  total : Int
  commission : Int
  currency : String
  paymentMethod : PaymentMethod
  deliveryAgentId : Option Nat
  createdAt : Time
  updatedAt : Time
  acceptedAt : Option Time
  rejectedAt : Option Time
  readyAt : Option Time
  assignedAt : Option Time
  pickedAt : Option Time
  deliveredAt : Option Time
  cancelledAt : Option Time
  deriving DecidableEq, Repr

def OrderEntity.stamp (o : OrderEntity) (at' : Time) : Stamp → OrderEntity
  | .acceptedAt => { o with acceptedAt := some at' }
  | .rejectedAt => { o with rejectedAt := some at' }
  | .readyAt => { o with readyAt := some at' }
  | .assignedAt => { o with assignedAt := some at' }
  | .pickedAt => { o with pickedAt := some at' }
  | .deliveredAt => { o with deliveredAt := some at' }
  | .cancelledAt => { o with cancelledAt := some at' }

/-- The columns of an order that `createOrder` inserts; the others start out null. -/
structure OrderData where
  region : String
  publicId : String
  countryCode : String
  restaurantId : Nat
  restaurantOwnerId : Option Nat
  branchId : Nat
  customerId : Nat
  customerAddressId : Nat
  deliveryLat : Int
  deliveryLng : Int
  deliveryAddressTextSnapshot : String
  branchLat : Int
  branchLng : Int
  status : OrderStatus
  subtotal : Int
  deliveryFee : Int
  serviceFee : Int
  total : Int
  currency : String
  paymentMethod : PaymentMethod

structure OrderItemData where
  region : String
  orderId : Nat
  productId : Nat
  quantity : Int
  unitPriceSnapshot : Int
  nameSnapshot : String
  imageUrlSnapshot : Option String
  lineTotal : Int

structure OrderItemEntity extends OrderItemData where
  id : Nat
  createdAt : Time

structure PaymentProviderEntity where
  id : Nat
  name : String
  isEnabled : Bool
  priority : Nat

structure PaymentSessionData where
  region : String
  orderId : Nat
  providerId : Nat
  providerSessionId : String
  redirectUrl : String
  amount : Int
  currency : String
  status : PaymentSessionStatus

structure PaymentSessionEntity extends PaymentSessionData where
  id : Nat
  createdAt : Time
  updatedAt : Time

structure TransactionData where
  region : String
  orderId : Option Nat
  transactionType : TransactionType
  method : TransactionMethod
  providerId : Option Nat
  providerReferenceId : Option String
  status : TransactionStatus
  amount : Int
  currency : String
  srcAccId : Option Nat
  dstAccId : Option Nat
  isRefunded : Bool := false
  refundedPaymentId : Option Nat := none
  idempotencyKey : Option String := none

structure TransactionEntity extends TransactionData where
  id : Nat
  createdAt : Time
  updatedAt : Time

structure RestaurantBalanceEntity where
  restaurantId : Nat
  region : String
  currency : String
  balance : Int

structure AgentEarningData where
  region : String
  agentId : Nat
  orderId : Nat
  amount : Int
  currency : String

structure AgentEarningEntity extends AgentEarningData where
  id : Nat
  earnedAt : Time

structure WebhookEventData where
  region : String
  providerId : Nat
  providerEventId : String
  signature : String

structure PaymentWebhookEventEntity extends WebhookEventData where
  id : Nat
  receivedAt : Time
  processedAt : Option Time
  processError : Option String

structure PlacedItem where
  productId : Nat
  quantity : Int
  unitPrice : Int
  lineTotal : Int

structure OrderPlacedPayload where
  orderId : String
  region : String
  countryCode : String
  restaurantId : Nat
  branchId : Nat
  customerId : Nat
  status : OrderStatus
  paymentMethod : PaymentMethod
  subtotal : Int
  deliveryFee : Int
  serviceFee : Int
  total : Int
  currency : String
  items : List PlacedItem
  placedAt : Time

structure OrderTransitionPayload where
  orderId : String
  region : String
  restaurantId : Nat
  branchId : Nat
  customerId : Nat
  status : OrderStatus
  reason : Option String
  actor : StatusActor
  occurredAt : Time

structure OrderDeliveredPayload where
  orderId : String
  region : String
  restaurantId : Nat
  branchId : Nat
  customerId : Nat
  deliveryAgentId : Nat
  total : Int
  subtotal : Int
  deliveryFee : Int
  commission : Int
  currency : String
  paymentMethod : PaymentMethod
  deliveredAt : Time

structure PaymentPayload where
  orderId : String
  region : String
  restaurantId : Nat
  branchId : Nat
  customerId : Nat
  provider : String
  providerReferenceId : String
  amount : Int
  currency : String
  method : String
  occurredAt : Time

inductive OutboxPayload where
  | placed (p : OrderPlacedPayload)
  | transition (p : OrderTransitionPayload)
  | delivered (p : OrderDeliveredPayload)
  | payment (p : PaymentPayload)

structure OutboxInput where
  aggregateType : String
  aggregateId : String
  eventType : EventType
  payload : OutboxPayload

structure OutboxRow extends OutboxInput where
  id : Nat
  createdAt : Time

/-- The role of a token. The code names three of them; every other one is a customer to it. -/
inductive Role where
  | systemAdmin
  | restaurantUser
  | deliveryAgent
  | other (name : String)
  deriving DecidableEq, Repr

structure ActorContext where
  userId : Nat
  role : Role
  restaurantId : Option Nat
  restaurantRole : Option String
  branchIds : Option (List Nat)

structure UpdateOrderStatusRequest where
  status : OrderStatus
  reason : Option String

structure OrderItemInput where
  productId : Nat
  quantity : Int

structure CreateOrderRequest where
  branchId : Nat
  customerAddressId : Nat
  paymentMethod : PaymentMethod
  items : List OrderItemInput

/-- What the controller lets through: `CreatePayoutRequestDTO` asks for an amount of at least 1,
and an empty `Idempotency-Key` header is refused. -/
structure PayoutInput where
  restaurantId : Nat
  amount : Int
  currency : String
  region : String
  providerReferenceId : String
  idempotencyKey : String
  amount_pos : 1 ≤ amount
  idempotencyKey_ne : idempotencyKey ≠ ""

/-- `CoreBranchMetaData`: core's view of a branch. -/
structure Branch where
  id : Nat
  restaurantId : Nat
  restaurantStatus : String
  restaurantOwnerId : Option Nat
  region : String
  lat : Int
  lng : Int
  isActive : Bool
  acceptOrders : Bool
  deliveryFee : Int
  currency : String
  commissionBps : Option Int
  addressText : String
  name : String

structure CoreBranchProduct where
  productId : Nat
  name : String
  imageUrl : Option String
  price : Int
  stock : Int
  isAvailable : Bool

structure CoreCustomerAddress where
  id : Nat
  userId : Nat
  country : String
  city : String
  street : String
  building : String
  lat : Int
  lng : Int

structure ReserveStockItem where
  productId : Nat
  quantity : Int
  deriving DecidableEq

structure CreateSessionInput where
  merchantOrderId : String
  amount : String
  currency : String
  description : String
  allowedMethods : String
  customerReference : String

structure CreateSessionResult where
  providerSessionId : String
  redirectUrl : String
  expiresAt : Option Time

/-- What the controller lets through: `RefundRequestDTO` asks for an amount of at least 1. A part
of a minor unit has no place in the `INT` columns and is left out. -/
structure RefundInput where
  transactionId : Nat
  amount : Int
  region : String
  amount_pos : 1 ≤ amount

/-- A refund that the provider is asked for. `transactionId` in the body is the reference, and
`amount` the major units with two decimals. -/
structure RefundParams where
  providerReferenceId : String
  amount : Int
  currency : String

/-- The settings of `lib/config/env.ts` that the modelled services read. -/
structure Config where
  regions : List String
  onlineRegions : List String
  agentEarningShareBps : Int
  claimTtlSec : Nat
  offerTtlSec : Nat
  sessionTimeoutMin : Nat
  kashierApiKey : String
  kashierSecretKey : String
  nodeEnv : String
  radiusMeters : Nat := 5000
  candidates : Nat := 5
  maxAttempts : Nat := 3
  batch : Nat := 20

end OrderService
