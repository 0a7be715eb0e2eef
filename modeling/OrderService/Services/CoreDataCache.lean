import OrderService.Calls
import OrderService.Interleaving.Translate

/-! The branches of core in the cache: `getBranch` and `getBranchesByIds` of the branch client, and
the handlers of the core events about branches and restaurants. -/
namespace OrderService
open Interleaving

section World

/-- `core:branch:<id>` and `core:restaurant:<id>`. -/
inductive CoreKey where
  | branch (id : Nat)
  | restaurant (id : Nat)
  deriving DecidableEq

structure CoreEntry where
  branch : Branch
  expiry : Time

/-- The world of the services, and in the same Redis the core data and the reject flags, each with
the time of its end. -/
structure CoreDataWorld where
  world : World
  entry : CoreKey → Option CoreEntry := fun _ => none
  flag : Nat → Option Time := fun _ => none

def CoreDataWorld.lookup (w : CoreDataWorld) (key : CoreKey) : Option Branch :=
  ((w.entry key).filter fun e => w.world.clock < e.expiry).map CoreEntry.branch

def CoreDataWorld.rejecting (w : CoreDataWorld) (branchId : Nat) : Bool :=
  (w.flag branchId).any fun till => w.world.clock < till

inductive CoreDataOp where
  | svc (o : Op)
  | get (key : CoreKey)
  | set (key : CoreKey) (branch : Branch) (ttlSeconds : Nat)
  | del (key : CoreKey)
  | getFlag (branchId : Nat)
  | setFlag (branchId : Nat) (ttlSeconds : Nat)
  | delFlag (branchId : Nat)
  | requestBranch (branchId : Nat)
  | requestBranches (branchIds : List Nat)

abbrev CoreDataOp.Res : CoreDataOp → Type
  | .svc o => o.Res
  | .get _ => Option Branch
  | .getFlag _ => Option CacheValue
  | .requestBranch _ => Branch
  | .requestBranches _ => List Branch
  | .set .. => Unit
  | .del _ => Unit
  | .setFlag .. => Unit
  | .delFlag _ => Unit

/-- The answers of the environment, with the rows that core gives for several branches. -/
structure CoreDataEnv where
  answers : Env := {}
  branches : List Branch := []

def endsAt (clock : Time) (ttlSeconds : Nat) : Time := clock + ttlSeconds * 1000

/-- An operation other than those of the services, where it does not fail. -/
def CoreDataOp.run (w : CoreDataWorld) (e : CoreDataEnv) :
    (o : CoreDataOp) → Option (o.Res × CoreDataWorld)
  | .svc _ => none
  | .get key => some (w.lookup key, w)
  | .set key branch ttlSeconds => some ((), { w with
      entry := Function.update w.entry key (some ⟨branch, endsAt w.world.clock ttlSeconds⟩) })
  | .del key => some ((), { w with entry := Function.update w.entry key none })
  | .getFlag branchId => some (if w.rejecting branchId then some .flag else none, w)
  | .setFlag branchId ttlSeconds => some ((), { w with
      flag := Function.update w.flag branchId (some (endsAt w.world.clock ttlSeconds)) })
  | .delFlag branchId => some ((), { w with flag := Function.update w.flag branchId none })
  | .requestBranch _ => some (e.answers.branch, w)
  | .requestBranches _ => some (e.branches, w)

def execCoreData (p : Pid) (o : CoreDataOp) (e : CoreDataEnv) (w : CoreDataWorld) :
    Option (Except Err o.Res × CoreDataWorld) :=
  match o with
  | .svc o => (exec p o e.answers w.world).map fun a => (a.1, { w with world := a.2 })
  | o => if e.answers.fail then some (.error .failed, w) else (o.run w e).map fun a => (.ok a.1, a.2)

def coreDataMachine :
    Machine Pid CoreDataOp CoreDataOp.Res Err CoreDataWorld CoreDataEnv Ext where
  exec := execCoreData
  crash p w := { w with world := machine.crash p w.world }
  ext x w := { w with world := machine.ext x w.world }

abbrev CoreDataSvc (α : Type) : Type := Prog CoreDataOp CoreDataOp.Res Err α

end World

section Client

def branchCacheTtl : Nat := 60 * 60

/-- A cached branch is not asked for again; a failed `set` is only logged. -/
def getCachedBranch (branchId : Nat) : CoreDataSvc Branch := do
  let cached ← Prog.perform (CoreDataOp.get (.branch branchId))
  match cached with
  | some branch => pure branch
  | none => do
    let data ← Prog.perform (CoreDataOp.requestBranch branchId)
    tryCatch (Prog.perform (CoreDataOp.set (.branch branchId) data branchCacheTtl))
      fun _ => pure ()
    pure data

def lookupBranches : List Nat → CoreDataSvc (List (Nat × Option Branch))
  | [] => pure []
  | id :: ids => do
    let cached ← Prog.perform (CoreDataOp.get (.branch id))
    let found ← lookupBranches ids
    pure ((id, cached) :: found)

def storeBranches : List Branch → CoreDataSvc Unit
  | [] => pure ()
  | b :: bs => do
    tryCatch (Prog.perform (CoreDataOp.set (.branch b.id) b branchCacheTtl)) fun _ => pure ()
    storeBranches bs

/-- `getBranchesByIds`; its lookups and its writes are made one after another here. -/
def getBranchesByIds (branchIds : List Nat) : CoreDataSvc (List Branch) := do
  let found ← lookupBranches branchIds.dedup
  let misses := (found.filter fun f => f.2.isNone).map Prod.fst
  if misses.isEmpty then pure (found.filterMap Prod.snd)
  else do
    let data ← Prog.perform (CoreDataOp.requestBranches misses)
    storeBranches data
    pure (found.filterMap Prod.snd ++ data)

def cachedOp : (o : Op) → CoreDataSvc o.Res
  | .getBranch branchId => getCachedBranch branchId
  | .cache (.get (.rejectFlag branchId)) => Prog.perform (CoreDataOp.getFlag branchId)
  | o => Prog.perform (CoreDataOp.svc o)

/-- A service whose `getBranch` goes through the cache, and which finds the flags there. -/
def withBranchCache {α : Type} (prog : Svc α) : CoreDataSvc α := prog.translate cachedOp

end Client

section Handlers

def branchRejectFlagTtl : Nat := 7 * 24 * 60 * 60

/-- Without a branch in the payload the handlers do nothing. -/
def handleBranchUpdated (branchId : Nat) : CoreDataSvc Unit :=
  if branchId = 0 then pure ()
  else do
    Prog.perform (CoreDataOp.del (.branch branchId))
    Prog.perform (CoreDataOp.delFlag branchId)

def handleBranchDeactivated (branchId : Nat) : CoreDataSvc Unit :=
  if branchId = 0 then pure ()
  else do
    Prog.perform (CoreDataOp.del (.branch branchId))
    Prog.perform (CoreDataOp.setFlag branchId branchRejectFlagTtl)

def handleRestaurantSuspended (restaurantId : Nat) : CoreDataSvc Unit :=
  if restaurantId = 0 then pure ()
  else Prog.perform (CoreDataOp.del (.restaurant restaurantId))

end Handlers

section Calls

/-- A call of the service, a list of an agent's tasks with its branches, or the handling of a core
event. -/
inductive CoreDataCall where
  | call (c : Call)
  | readBranches (branchIds : List Nat)
  | branchUpdated (branchId : Nat)
  | branchDeactivated (branchId : Nat)
  | restaurantSuspended (restaurantId : Nat)

inductive CoreDataReply where
  | reply (r : Reply)
  | branches (found : List Branch)
  | handled

variable (hmacSha256 : String → String → String) (cfg : Config)

def CoreDataCall.prog : CoreDataCall → CoreDataSvc CoreDataReply
  | .call c => withBranchCache (c.prog hmacSha256 cfg) >>= fun r => pure (.reply r)
  | .readBranches branchIds => getBranchesByIds branchIds >>= fun found => pure (.branches found)
  | .branchUpdated branchId => handleBranchUpdated branchId >>= fun _ => pure .handled
  | .branchDeactivated branchId => handleBranchDeactivated branchId >>= fun _ => pure .handled
  | .restaurantSuspended restaurantId =>
    handleRestaurantSuspended restaurantId >>= fun _ => pure .handled

def servingCoreData (calls : Pid → Option CoreDataCall) (w : CoreDataWorld) :
    Sys Pid CoreDataOp CoreDataOp.Res Err CoreDataWorld CoreDataReply :=
  ⟨w, fun p => (calls p).map (CoreDataCall.prog hmacSha256 cfg)⟩

end Calls

end OrderService
