import OrderService.Calls
import OrderService.DeliverySpec
import OrderService.FreshWrite
import OrderService.SettlementResult

/-! One delivered order and any number of attempts to deliver it: how often it is settled. -/
namespace OrderService
open ReadCommitted Interleaving

section Statement

def Db.statusOf (db : Db) (publicId : String) : Option OrderStatus :=
  (db.order publicId).map OrderEntity.status

end Statement

section Settling

variable {before : Db} {order : OrderEntity} {p : Pid}

end Settling

section Runs
variable (hmacSha256 : String → String → String) (cfg : Config)

end Runs

/-- The agent reports the delivery twice. -/
def twoDeliveries : Pid → Option Call
  | 0 => some (.agentUpdateStatus "order-1" 7 "eg" .delivered)
  | 1 => some (.agentUpdateStatus "order-1" 7 "eg" .delivered)
  | _ => none

/-- Both read the picked order; the second waits for the row until the first has committed. -/
def bothReadFirst : List (Label Pid Env Ext) :=
  [.act 0 tenPercent, .act 1 tenPercent] ++ List.replicate 24 (.act 0 tenPercent) ++
    List.replicate 19 (.act 1 tenPercent)

end OrderService
