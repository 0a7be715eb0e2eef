import OrderService.Services.Assignment
import OrderService.Services.Finance
import OrderService.Services.Refund

/-! The calls that the service answers, and any number of them at the same time. -/
namespace OrderService
open Interleaving

inductive Reply where
  | placed (r : OrderResponse)
  | received
  | status (r : OrderStatusResponse)
  | task (r : DeliveryTaskResponse)
  | delivery (r : OrderEntity)
  | payout (r : PayoutResponse)
  | refunded (r : PaymentResponse)

inductive Call where
  | placeOrder (actor : ActorContext) (region : Option String) (dto : CreateOrderRequest)
  | webhook (rawBody : Option Json) (signature region : String)
  | updateStatus (actor : ActorContext) (dto : UpdateOrderStatusRequest) (region orderId : String)
  | claim (publicId : String) (agentId : Nat) (region : String)
  | adminAssign (publicId : String) (agentId : Nat) (region : String)
  | agentUpdateStatus (publicId : String) (agentId : Nat) (region : String)
      (action : DeliveryAction)
  | recordPayout (input : PayoutInput)
  | refundPayment (input : RefundInput)

section Programs
variable (hmacSha256 : String → String → String) (cfg : Config)

def Call.prog : Call → Svc Reply
  | .placeOrder actor region dto => do
    let r ← OrderService.placeOrder cfg actor region dto
    pure (.placed r)
  | .webhook rawBody signature region => do
    verifyAndProcessWebhook hmacSha256 cfg rawBody signature region
    pure .received
  | .updateStatus actor dto region orderId => do
    let r ← OrderService.updateStatus actor dto region orderId
    pure (.status r)
  | .claim publicId agentId region => do
    let r ← OrderService.claim cfg publicId agentId region
    pure (.task r)
  | .adminAssign publicId agentId region => do
    let r ← OrderService.adminAssign cfg publicId agentId region
    pure (.task r)
  | .agentUpdateStatus publicId agentId region action => do
    let r ← OrderService.agentUpdateStatus cfg publicId agentId region action
    pure (.delivery r)
  | .recordPayout input => do
    let r ← OrderService.recordPayout input
    pure (.payout r)
  | .refundPayment input => do
    let r ← OrderService.refundPayment cfg input.transactionId input.amount input.region
    pure (.refunded r)

/-- A process for each call, none of which has started. -/
def running (calls : Pid → Option Call) (w : World) : Sys Pid Op Op.Res Err World Reply :=
  ⟨w, fun p => (calls p).map (Call.prog hmacSha256 cfg)⟩

end Programs

end OrderService
