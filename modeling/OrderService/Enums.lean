/-! The enumerations of `app/order/enums.ts`, `app/payment/enums.ts`, `app/agent/enums.ts`
and `lib/events/event-types.ts`. -/
namespace OrderService

inductive OrderStatus where
  | pendingPayment
  | placed
  | accepted
  | rejected
  | preparing
  | ready
  | assigned
  | picked
  | delivered
  | cancelled
  deriving DecidableEq, Repr

inductive PaymentMethod where
  | online
  | cod
  deriving DecidableEq, Repr

inductive StatusActor where
  | customer
  | restaurantMember
  | agent
  | system
  | admin
  deriving DecidableEq, Repr

inductive PaymentSessionStatus where
  | initialized
  | pending
  | authorized
  | captured
  | failed
  | expired
  | cancelled
  deriving DecidableEq, Repr

inductive TransactionType where
  | charge
  | refund
  | commission
  | payout
  | codCollection
  | adjustment
  deriving DecidableEq, Repr

inductive TransactionMethod where
  | online
  | cod
  | bankTransfer
  | system
  deriving DecidableEq, Repr

inductive TransactionStatus where
  | pending
  | succeeded
  | failed
  | reversed
  deriving DecidableEq, Repr

inductive DeliveryAction where
  | accepted
  | rejected
  | picked
  | delivered
  deriving DecidableEq, Repr

inductive EventType where
  | orderPlaced
  | orderAccepted
  | orderRejected
  | orderDelivered
  | orderCancelled
  | paymentCompleted
  | paymentFailed
  deriving DecidableEq, Repr

/-- The nullable timestamp columns of `orders`. -/
inductive Stamp where
  | acceptedAt
  | rejectedAt
  | readyAt
  | assignedAt
  | pickedAt
  | deliveredAt
  | cancelledAt
  deriving DecidableEq, Repr

def OrderStatus.text : OrderStatus → String
  | .pendingPayment => "pending_payment"
  | .placed => "placed"
  | .accepted => "accepted"
  | .rejected => "rejected"
  | .preparing => "preparing"
  | .ready => "ready"
  | .assigned => "assigned"
  | .picked => "picked"
  | .delivered => "delivered"
  | .cancelled => "cancelled"

end OrderService
