import OrderService.Rows
import OrderService.SettlementSpec

/-! What a settlement makes of the tables. -/
namespace OrderService
open ReadCommitted

section Tables
variable {seen : Db → Prop} {log part : List Write} {order : OrderEntity} {agentId : Nat}
  {share bps amount delta : Int} {transfer : TransactionData} {due : Prop}

theorem Booked.table (h : Booked seen log order transfer due part) :
    ∀ x ∈ part, x.table = .transactions := by
  cases h <;> simp [Write.table]

theorem Collected.table (h : Collected seen log order part) :
    ∀ x ∈ part, x.table = .transactions := by
  cases h <;> simp [Write.table]

theorem Earned.table (h : Earned seen log order agentId amount part) :
    ∀ x ∈ part, x.table = .agentEarnings := by
  cases h <;> simp [Write.table]

theorem creditWrites_table : ∀ x ∈ creditWrites order delta, x.table = .restaurantBalances := by
  unfold creditWrites
  split <;> simp [Write.table]

namespace Settlement
variable (s : Settlement seen log order agentId share bps) (db : Db)

/-- The amount that the restaurant gets. -/
abbrev net (_ : Settlement seen log order agentId share bps) : Int :=
  order.subtotal - bpsOf order.subtotal bps

/-- The parts that write transactions. -/
def ledger : List Write := s.cod ++ s.commission ++ s.serviceFee ++ s.deliveryFee

theorem writes_eq : s.writes
    = s.ledger ++ (creditWrites order s.net ++ (s.earning ++ [.insertOutbox s.event])) := by
  simp only [writes, ledger, List.append_assoc]

theorem ledger_table : ∀ x ∈ s.ledger, x.table = .transactions := by
  intro x hx
  simp only [ledger, List.mem_append] at hx
  rcases hx with ((hx | hx) | hx) | hx
  · exact s.collected.table x hx
  · exact s.commissionBooked.table x hx
  · exact s.serviceFeeBooked.table x hx
  · exact s.deliveryFeeBooked.table x hx

end Settlement

end Tables

end OrderService
