import OrderService.CandidateSelection

/-! What an agent who goes offline gets: always the same error, whatever the agent carries. -/
namespace OrderService
open Interleaving

section Statement

/-- The agent is on the way with an order. -/
def Delivering (agentId : Nat) (db : Db) : Prop :=
  ∃ o ∈ db.orders, o.deliveryAgentId = some agentId ∧ o.status = .picked

/-- The assigned orders of the agent are ready for another one, the rest is as it was, and the agent
is in none of the stores of Redis. -/
structure WentOffline (agentId : Nat) (region : String) (w w' : PresenceWorld) : Prop where
  orders : ∃ now, w'.world.store.db.orders
    = w.world.store.db.orders.map (OrderEntity.released agentId now)
  geo : agentId ∉ (w'.geo region).positions.map Prod.fst
  presence : w'.world.cache.entries (.presence region agentId) = none
  busy : (region, agentId) ∉ w'.world.cache.busy

/-- The error comes exactly for an agent who delivers, and changes nothing; any other agent goes
offline. -/
def OfflineAsDocumented (agentId : Nat) (region : String) (w : PresenceWorld) :
    Outcome Err Unit × PresenceWorld → Prop
  | (outcome, w') =>
    (outcome = .threw (.app agentInActiveDeliveryError) ↔ Delivering agentId w.world.store.db) ∧
      (outcome = .threw (.app agentInActiveDeliveryError) → w' = w) ∧
      (¬Delivering agentId w.world.store.db → WentOffline agentId region w w')

end Statement

section Result

/-- The check takes the list of the picked orders for true, empty or not. -/
theorem goOffline_refuses (agentId : Nat) (region : String) (w : PresenceWorld) (p : Pid) :
    presenceMachine.runFor (fun _ => {}) p (PresenceService.goOffline agentId region) w
      = (.threw (.app agentInActiveDeliveryError), w) := rfl

/-- What stands behind the check is right. -/
theorem leave_runs (agentId : Nat) (region : String) (w : PresenceWorld) (p : Pid) :
    ∃ w', presenceMachine.runFor (fun _ => {}) p (PresenceService.leave agentId region) w
        = (.returned (), w') ∧ WentOffline agentId region w w' := by
  refine ⟨_, rfl, ⟨w.world.clock, rfl⟩, ?_, ?_, ?_⟩
  · have hgeo : Function.update w.geo region ((w.geo region).remove agentId) region
        = (w.geo region).remove agentId := Function.update_self _ _ _
    change agentId ∉ (Function.update w.geo region ((w.geo region).remove agentId)
      region).positions.map Prod.fst
    rw [hgeo]
    exact (w.geo region).not_mem_remove agentId
  · exact Function.update_self (CacheKey.presence region agentId) none w.world.cache.entries
  · intro hbusy
    have hkept := List.mem_filter.mp hbusy
    exact of_decide_eq_true hkept.2 rfl

/-- While the database and Redis answer: going offline does what its contract says if and only if
the agent delivers an order. -/
theorem offline_as_documented_iff (agentId : Nat) (region : String) (w : PresenceWorld) (p : Pid) :
    OfflineAsDocumented agentId region w (presenceMachine.runFor (fun _ => {}) p
        (PresenceService.goOffline agentId region) w) ↔ Delivering agentId w.world.store.db := by
  rw [goOffline_refuses]
  constructor
  · intro hdocumented
    exact hdocumented.1.mp rfl
  · intro hdelivering
    have herror : (Outcome.threw (.app agentInActiveDeliveryError) : Outcome Err Unit)
        = .threw (.app agentInActiveDeliveryError) ↔ Delivering agentId w.world.store.db :=
      iff_of_true rfl hdelivering
    exact ⟨herror, fun _ => rfl, fun hfree => absurd hdelivering hfree⟩

/-- An agent without any order is told of an active delivery, and stays online. -/
theorem offline_refused_idle :
    let w : PresenceWorld := ⟨onePresent, fun _ => ⟨[(21, 0, 1)], by simp⟩⟩
    w.world.store.db.orders = [] ∧
      ¬OfflineAsDocumented 21 "eg" w
        (presenceMachine.runFor (fun _ => {}) 0 (PresenceService.goOffline 21 "eg") w) := by
  intro w
  refine ⟨rfl, fun hdocumented => ?_⟩
  rw [goOffline_refuses] at hdocumented
  obtain ⟨o, ho, _⟩ := hdocumented.1.mp rfl
  cases ho

end Result

end OrderService
