import Mathlib.Data.List.Sort
import Mathlib.Data.Rat.Defs
import OrderService.Interleaving.Translate
import OrderService.Services.Presence

/-! The geo set of Redis, and `PresenceService` on all of its stores. -/
namespace OrderService
open Interleaving

section Geo

/-- The members of a geo set, each with its position (longitude and latitude). -/
structure GeoSet where
  positions : List (Nat × Int × Int)
  nodup : (positions.map Prod.fst).Nodup

/-- `ZREM`. -/
def GeoSet.remove (geo : GeoSet) (agentId : Nat) : GeoSet where
  positions := geo.positions.filter fun m => m.1 ≠ agentId
  nodup := geo.nodup.sublist (List.filter_sublist.map Prod.fst)

theorem GeoSet.not_mem_remove (geo : GeoSet) (agentId : Nat) :
    agentId ∉ (geo.remove agentId).positions.map Prod.fst := by
  intro hmem
  obtain ⟨m, hm, hagent⟩ := List.mem_map.mp hmem
  have hne := of_decide_eq_true (List.mem_filter.mp hm).2
  exact hne hagent

/-- `GEOADD`: a member that is there moves. -/
def GeoSet.add (geo : GeoSet) (agentId : Nat) (place : Int × Int) : GeoSet where
  positions := (agentId, place) :: (geo.remove agentId).positions
  nodup := by
    rw [List.map_cons, List.nodup_cons]
    exact ⟨geo.not_mem_remove agentId, (geo.remove agentId).nodup⟩

-- how far two places are from each other, in metres
variable (distance : Int × Int → Int × Int → ℚ)

/-- `GEOSEARCH ... FROMLONLAT ... BYRADIUS ... ASC` without the count: the members within the
radius, the nearest first. -/
def GeoSet.within (geo : GeoSet) (place : Int × Int) (radiusMeters : Nat) : List Nat :=
  ((geo.positions.filter fun m => distance place m.2 ≤ radiusMeters).insertionSort fun m n =>
    distance place m.2 ≤ distance place n.2).map Prod.fst

end Geo

section Stores

/-- The world with the geo sets of the regions. -/
structure PresenceWorld where
  world : World
  geo : String → GeoSet

inductive PresenceOp where
  | geoadd (region : String) (lng lat : Int) (agentId : Nat)
  | zrem (region : String) (agentId : Nat)
  -- the update that the service sends itself
  | releaseAssigned (agentId : Nat)
  | svc (o : Op)

abbrev PresenceOp.Res : PresenceOp → Type
  | .svc o => o.Res
  | _ => Unit

/-- `SET delivery_agent_id = NULL, status = READY, assigned_at = NULL, updated_at = now()` where the
order is assigned to the agent. -/
def OrderEntity.released (agentId : Nat) (now : Time) (o : OrderEntity) : OrderEntity :=
  if o.deliveryAgentId = some agentId ∧ o.status = .assigned then
    { o with deliveryAgentId := none, status := .ready, assignedAt := none, updatedAt := now }
  else o

def World.releaseAssigned (w : World) (agentId : Nat) : World :=
  { w with store := { w.store with db := { w.store.db with
      orders := w.store.db.orders.map (OrderEntity.released agentId w.clock) } } }

def execPresence (p : Pid) : (o : PresenceOp) → Env → PresenceWorld →
    Option (Except Err o.Res × PresenceWorld)
  | .geoadd region lng lat agentId, e, w =>
    if e.fail then some (.error .failed, w)
    else some (.ok (), { w with
      geo := Function.update w.geo region ((w.geo region).add agentId (lng, lat)) })
  | .zrem region agentId, e, w =>
    if e.fail then some (.error .failed, w)
    else some (.ok (), { w with
      geo := Function.update w.geo region ((w.geo region).remove agentId) })
  | .releaseAssigned agentId, e, w =>
    if e.fail then some (.error .failed, w)
    else some (.ok (), { w with world := w.world.releaseAssigned agentId })
  | .svc o, e, w => (exec p o e w.world).map fun a => (a.1, { w with world := a.2 })

def presenceMachine : Machine Pid PresenceOp PresenceOp.Res Err PresenceWorld Env Ext where
  exec := execPresence
  crash p w := { w with world := machine.crash p w.world }
  ext x w := { w with world := machine.ext x w.world }

abbrev PresenceSvc (α : Type) : Type := Prog PresenceOp PresenceOp.Res Err α

def withPresence {α : Type} (prog : Svc α) : PresenceSvc α :=
  prog.translate fun o => Prog.perform (PresenceOp.svc o)

end Stores

section Service

/-- The metadata, whose text nothing reads, and the position. -/
def PresenceService.goOnline (presenceStaleSec agentId : Nat) (region : String) (lat lng : Int) :
    PresenceSvc Unit := do
  withPresence (cache (.set (.presence region agentId) .flag presenceStaleSec))
  Prog.perform (PresenceOp.geoadd region lng lat agentId)

/-- What `goOffline` does after its check. The three commands of `Promise.all` do not meet. -/
def PresenceService.leave (agentId : Nat) (region : String) : PresenceSvc Unit := do
  Prog.perform (PresenceOp.releaseAssigned agentId)
  Prog.perform (PresenceOp.zrem region agentId)
  let _ ← Prog.perform (PresenceOp.svc (.cache (.del (.presence region agentId))))
  Prog.perform (PresenceOp.svc (.cache (.sremBusy region agentId)))

def PresenceService.goOffline (agentId : Nat) (region : String) : PresenceSvc Unit := do
  let active ← withPresence (findOrdersByDeliveryAgent agentId [.picked] 1 .pool)
  if arrayTruthy active = true then throw (.app agentInActiveDeliveryError)
  else PresenceService.leave agentId region

/-- What comes after the check is never reached. -/
theorem PresenceService.goOffline_eq (agentId : Nat) (region : String) :
    PresenceService.goOffline agentId region = withPresence (OrderService.goOffline agentId) := by
  rw [withPresence, OrderService.goOffline, Prog.translate_do]
  rfl

end Service

end OrderService
