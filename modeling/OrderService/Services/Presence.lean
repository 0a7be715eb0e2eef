import OrderService.Repositories

/-! `PresenceService.goOffline`. -/
namespace OrderService

def agentInActiveDeliveryError : AppError := ⟨"AgentInActiveDelivery", 409⟩

/-- `Boolean(value)` of an array: also an empty one is truthy. -/
def arrayTruthy {α : Type} (_ : List α) : Bool := true

/-- The picked orders come as an array, so the check always refuses, and neither the update of the
assigned orders nor the removal from Redis is ever reached. -/
def goOffline (agentId : Nat) : Svc Unit := do
  let active ← findOrdersByDeliveryAgent agentId [.picked] 1 .pool
  onlyIf (arrayTruthy active = true) (throw (.app agentInActiveDeliveryError))

end OrderService
