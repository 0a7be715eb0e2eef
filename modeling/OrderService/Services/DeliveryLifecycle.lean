import OrderService.Services.Settlement

/-! `DeliveryLifecycleService`: the agent picks up and delivers. -/
namespace OrderService

def markBusy (agentId : Nat) (region : String) : Svc Unit := cache (.saddBusy region agentId)

def markFree (agentId : Nat) (region : String) : Svc Unit := cache (.sremBusy region agentId)

def emitDeliveryStatus (order : OrderEntity) : Svc Unit := do
  emit (.customer order.customerId) .deliveryStatusChanged order.publicId
  emit (.branch order.branchId) .deliveryStatusChanged order.publicId

def pickup (order : OrderEntity) : Svc OrderEntity :=
  if order.status ≠ .assigned then
    throwApp ("Order must be ASSIGNED to pick up (current: " ++ order.status.text ++ ")") 409
  else do
    let updated ← updateOrderStatus order.publicId .picked .pool (some .pickedAt)
    emitDeliveryStatus updated
    pure updated

/-- The body of the `try` in `deliver`. -/
def deliverBody (cfg : Config) (order : OrderEntity) (agentId : Nat) (region : String) :
    Svc OrderEntity := do
  let updated ← updateOrderStatus order.publicId .delivered .trx (some .deliveredAt)
  let _ ← settleDeliveredOrder cfg updated agentId .trx
  commit
  markFree agentId region
  emitDeliveryStatus updated
  let _ ← cache (.del (.claim order.publicId))
  pure updated

def deliver (cfg : Config) (order : OrderEntity) (agentId : Nat) (region : String) :
    Svc OrderEntity :=
  if order.status ≠ .picked then
    throwApp ("Order must be PICKED to deliver (current: " ++ order.status.text ++ ")") 409
  else do
    startTransaction
    tryCatch (deliverBody cfg order agentId region) fun err => do
      rollback
      throw err

/-- `DeliveryLifecycleService.updateStatus`. -/
def agentUpdateStatus (cfg : Config) (orderPublicId : String) (agentId : Nat) (region : String)
    (action : DeliveryAction) : Svc OrderEntity := do
  let found ← findOrderByPublicId orderPublicId .pool
  match found with
  | none => throwApp "Order not found" 404
  | some order =>
    if order.deliveryAgentId ≠ some agentId then
      throwApp "This order is not assigned to you" 403
    else match action with
      | .picked => pickup order
      | .delivered => deliver cfg order agentId region
      | _ => throwApp "Invalid delivery action" 400

/-- `updatePosition` with its `emitPosition`. -/
def updatePosition (orderPublicId : String) (agentId : Nat) : Svc Unit := do
  let found ← findOrderByPublicId orderPublicId .pool
  match found with
  | none => throwApp "Order not found" 404
  | some order =>
    if order.deliveryAgentId ≠ some agentId then
      throwApp "This order is not assigned to you" 403
    else emit (.customer order.customerId) .deliveryPosition order.publicId

end OrderService
