import OrderService.Calls
import OrderService.Interleaving.Translate

/-! The connections that knex keeps for a region: a query outside a transaction takes one while it
runs, and a transaction keeps one from its start to its commit or rollback. -/
namespace OrderService
open Interleaving

section World

/-- The world with the pool: its size, whose transactions have a connection, and whose queries. -/
structure PoolWorld where
  world : World
  size : Nat
  opened : List Pid := []
  querying : List Pid := []

def PoolWorld.used (w : PoolWorld) : Nat := w.opened.length + w.querying.length

inductive PoolOp where
  | acquire (forTransaction : Bool)
  | svc (o : Op)

abbrev PoolOp.Res : PoolOp → Type
  | .acquire _ => Unit
  | .svc o => o.Res

/-- What the end of an operation gives back to the pool. -/
def release (p : Pid) : (o : Op) → Except Err o.Res → PoolWorld → PoolWorld
  | .sql .pool _, _, w => { w with querying := w.querying.erase p }
  | .start, .error _, w => { w with opened := w.opened.erase p }
  | .commit, _, w => { w with opened := w.opened.erase p }
  | .rollback, _, w => { w with opened := w.opened.erase p }
  | _, _, w => w

/-- Who finds no free connection waits, until the pool gives up on the request. -/
def execPool (p : Pid) (o : PoolOp) (e : Env) (w : PoolWorld) :
    Option (Except Err o.Res × PoolWorld) :=
  match o with
  | .acquire forTransaction =>
    if e.fail then some (.error .failed, w)
    else if w.used < w.size then
      some (.ok (), if forTransaction then { w with opened := p :: w.opened }
        else { w with querying := p :: w.querying })
    else none
  | .svc o => (exec p o e w.world).map fun a => (a.1, release p o a.1 { w with world := a.2 })

def poolMachine : Machine Pid PoolOp PoolOp.Res Err PoolWorld Env Ext where
  exec := execPool
  crash p w := { w with
    world := machine.crash p w.world
    opened := w.opened.filter fun q => q ≠ p
    querying := w.querying.filter fun q => q ≠ p }
  ext x w := { w with world := machine.ext x w.world }

abbrev PoolSvc (α : Type) : Type := Prog PoolOp PoolOp.Res Err α

end World

section Programs

def pooledOp : (o : Op) → PoolSvc o.Res
  | .sql .pool q => do
    Prog.perform (PoolOp.acquire false)
    Prog.perform (PoolOp.svc (.sql .pool q))
  | .start => do
    Prog.perform (PoolOp.acquire true)
    Prog.perform (PoolOp.svc .start)
  | o => Prog.perform (PoolOp.svc o)

/-- A service whose queries and transactions take their connections from the pool. -/
def withPool {α : Type} (prog : Svc α) : PoolSvc α := prog.translate pooledOp

/-- The parameters of `OrderService.updateStatus`. -/
structure StatusRequest where
  actor : ActorContext
  dto : UpdateOrderStatusRequest
  region : String
  orderId : String

def StatusRequest.prog (r : StatusRequest) : PoolSvc OrderStatusResponse :=
  withPool (updateStatus r.actor r.dto r.region r.orderId)

abbrev PoolSys : Type := Sys Pid PoolOp PoolOp.Res Err PoolWorld OrderStatusResponse

def servingStatuses (requests : Pid → Option StatusRequest) (w : PoolWorld) : PoolSys :=
  ⟨w, fun p => (requests p).map StatusRequest.prog⟩

end Programs

end OrderService
