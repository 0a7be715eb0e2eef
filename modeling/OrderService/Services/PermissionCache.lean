import OrderService.Runtime

/-! `PermissionCacheService` of every process, and the consumer of `rbac.permissions_changed`: the
processes share the queue and the marks in Redis, and each has a cache of its own. -/
namespace OrderService
open Interleaving

section World

/-- What core has answered, and how many events it had emitted by then. -/
structure PermissionList where
  permissions : List String
  asOf : Nat

structure CachedPermissions where
  list : PermissionList
  cachedAt : Time

/-- `toMs(1, "h")`. -/
def permissionCacheTtl : Nat := 60 * 60 * 1000

/-- `events` are the roles of the events in the order in which core has emitted them, an event
without a role being about all. `cleared` tells on which processes the cache was cleared for which
event. -/
structure RbacWorld where
  clock : Time := 0
  core : String → List String
  events : List (Option String) := []
  acked : List Nat := []
  marks : List Nat := []
  cache : Nat → String → Option CachedPermissions := fun _ _ => none
  cleared : List (Nat × Nat) := []

def RbacWorld.live (w : RbacWorld) (entry : CachedPermissions) : Bool :=
  w.clock - entry.cachedAt < permissionCacheTtl

inductive RbacOp where
  | deliver
  | trySet (eventId : Nat)
  | invalidate (eventId : Nat) (roleName : Option String)
  | ack (eventId : Nat)
  | get (roleName : String)
  | getRolePermissions (roleName : String)
  | set (roleName : String) (list : PermissionList)

abbrev RbacOp.Res : RbacOp → Type
  | .deliver => Nat × Option String
  | .trySet _ => Bool
  | .get _ => Option PermissionList
  | .getRolePermissions _ => PermissionList
  | .invalidate .. => Unit
  | .ack _ => Unit
  | .set .. => Unit

/-- Which event the broker delivers, and whether a command or a request fails. -/
structure RbacEnv where
  eventId : Nat := 0
  fail : Bool := false

/-- `if(roleName) cache.delete(roleName) else cache.clear()`. -/
def invalidated (roleName : Option String) (cache : String → Option CachedPermissions) :
    String → Option CachedPermissions :=
  match roleName with
  | none => fun _ => none
  | some role => if role = "" then fun _ => none else Function.update cache role none

/-- An operation of a task of process `node p`. The broker may deliver an event again as long as it
is not acked. -/
def execRbac (node : Pid → Nat) (p : Pid) (o : RbacOp) (e : RbacEnv) (w : RbacWorld) :
    Option (Except Err o.Res × RbacWorld) :=
  match o with
  | .deliver =>
    if e.eventId ∈ w.acked then none
    else (w.events[e.eventId]?).map fun role => (.ok (e.eventId, role), w)
  | .trySet eventId =>
    if e.fail then some (.error .failed, w)
    else if eventId ∈ w.marks then some (.ok false, w)
    else some (.ok true, { w with marks := eventId :: w.marks })
  | .invalidate eventId roleName => some (.ok (), { w with
      cache := Function.update w.cache (node p) (invalidated roleName (w.cache (node p)))
      cleared := (eventId, node p) :: w.cleared })
  | .ack eventId => some (.ok (), { w with acked := eventId :: w.acked })
  | .get roleName => some (.ok (((w.cache (node p) roleName).filter w.live).map
      CachedPermissions.list), w)
  | .getRolePermissions roleName =>
    if e.fail then some (.error .failed, w)
    else some (.ok ⟨w.core roleName, w.events.length⟩, w)
  | .set roleName list => some (.ok (), { w with
      cache := Function.update w.cache (node p)
        (Function.update (w.cache (node p)) roleName (some ⟨list, w.clock⟩)) })

/-- Time passes, core changes permissions and emits an event, a mark ends, or a process starts
anew. -/
inductive RbacExt where
  | tick (d : Nat)
  | permissionsChanged (role : Option String) (core : String → List String)
  | forget (eventId : Nat)
  | restart (node : Nat)

def rbacMachine (node : Pid → Nat) :
    Machine Pid RbacOp RbacOp.Res Err RbacWorld RbacEnv RbacExt where
  exec := execRbac node
  crash _ w := w
  ext x w :=
    match x with
    | .tick d => { w with clock := w.clock + d }
    | .permissionsChanged role core => { w with core := core, events := w.events ++ [role] }
    | .forget eventId => { w with marks := w.marks.filter fun m => m ≠ eventId }
    | .restart node => { w with cache := Function.update w.cache node fun _ => none }

abbrev RbacSvc (α : Type) : Type := Prog RbacOp RbacOp.Res Err α

end World

section Tasks

def getPermissions (roleName : String) : RbacSvc PermissionList := do
  let cached ← Prog.perform (RbacOp.get roleName)
  match cached with
  | some list => pure list
  | none => do
    let list ← Prog.perform (RbacOp.getRolePermissions roleName)
    Prog.perform (RbacOp.set roleName list)
    pure list

/-- `handleMessage` of the consumer for `rbac.permissions_changed`, whose handler cannot fail: it is
called where the mark of the event is new. -/
def consumePermissionsChanged : RbacSvc Unit := do
  let event ← Prog.perform RbacOp.deliver
  let fresh ← Prog.perform (RbacOp.trySet event.1)
  if fresh then do
    Prog.perform (RbacOp.invalidate event.1 event.2)
    Prog.perform (RbacOp.ack event.1)
  else Prog.perform (RbacOp.ack event.1)

inductive RbacTask where
  | consume
  | lookup (roleName : String)

inductive RbacReply where
  | handled
  | permissions (list : PermissionList)

def RbacTask.prog : RbacTask → RbacSvc RbacReply
  | .consume => consumePermissionsChanged >>= fun _ => pure .handled
  | .lookup roleName => getPermissions roleName >>= fun list => pure (.permissions list)

abbrev RbacSys : Type := Sys Pid RbacOp RbacOp.Res Err RbacWorld RbacReply

def servingRbac (tasks : Pid → Option RbacTask) (w : RbacWorld) : RbacSys :=
  ⟨w, fun p => (tasks p).map RbacTask.prog⟩

end Tasks

end OrderService
