import OrderService.Services.Routes

/-! The shards: the region of a request, the connection of a region, and a placement that writes on
the connection of the region it resolves. -/
namespace OrderService
open ReadCommitted Interleaving

section Regions
variable (cfg : Config)

/-- `normalizeRegion`; undefined stays undefined. -/
def normalizeRegion (candidate : Option String) : Option String := candidate.map String.toLower

def isRegion (candidate : Option String) : Bool :=
  match normalizeRegion candidate with
  | none => false
  | some normalized => normalized ≠ "" && (cfg.regions.map String.toLower).contains normalized

/-- `req.region` after `resolveRegion`, from the `X-Region` header and the `region` of the query. -/
def resolveRegion (header query : Option String) : Option String :=
  match normalizeRegion (header.or query) with
  | none => none
  | some normalized =>
    if isRegion cfg (some normalized) then some normalized
    else if normalized = "all" then some "all"
    else none

end Regions

section Machine

/-- The database of a region. -/
structure Shard where
  store : Store Pid Db Write Key := Store.ofDb {}
  seqs : Seqs := {}
  seen : Pid → Option OrderStatus := fun _ => none

/-- The databases, and what all regions share: core, Redis, the clock. -/
structure Shards where
  shard : String → Shard := fun _ => {}
  shared : World := { store := Store.ofDb {} }

/-- What a service sees whose connection is `db(region)`. -/
def Shards.at (s : Shards) (region : String) : World :=
  { s.shared with
    store := (s.shard region).store
    seqs := (s.shard region).seqs
    seen := (s.shard region).seen }

def Shards.put (s : Shards) (region : String) (w : World) : Shards where
  shard := Function.update s.shard region ⟨w.store, w.seqs, w.seen⟩
  shared := w

abbrev ShardOp : Type := String × Op

abbrev ShardOp.Res (o : ShardOp) : Type := o.2.Res

/-- Each operation is one of a service with the connection of its region; a process that dies loses
its transaction in every shard. -/
def shardsMachine : Machine Pid ShardOp ShardOp.Res Err Shards Env Ext where
  exec p o e s := (exec p o.2 e (s.at o.1)).map fun a => (a.1, s.put o.1 a.2)
  crash p s :=
    { s with shard := fun region =>
        { s.shard region with store := (s.shard region).store.rollback p } }
  ext x s := { s with shared := machine.ext x s.shared }

abbrev ShardSvc (α : Type) : Type := Prog ShardOp ShardOp.Res Err α

/-- The program with the connection of the region. -/
def onShard {α : Type} (region : String) : Svc α → ShardSvc α
  | .pure a => .pure a
  | .throw err => .throw err
  | .op o k => .op (region, o) fun r => onShard region (k r)

end Machine

section Placement
variable (cfg : Config)

/-- What `placeOrder` has found out when it turns to the stock and the database. -/
structure Checked where
  resolvedRegion : String
  branch : Branch
  address : CoreCustomerAddress
  products : List CoreBranchProduct

/-- The checks of `placeOrder` on a branch. -/
def checkBranch (actor : ActorContext) (region : Option String) (dto : CreateOrderRequest)
    (branch : Branch) : Svc Checked :=
  if !branch.isActive || !branch.acceptOrders || branch.restaurantStatus ≠ "active" then
    throw (.app branchNotAcceptingOrdersError)
  else do
    let flag ← cache (.get (.rejectFlag dto.branchId))
    if flag = some .flag then throw (.app branchNotAcceptingOrdersError)
    else do
      let resolvedRegion ← Interleaving.Prog.ofExcept
        (assertRegion cfg (region.getD branch.region))
      if dto.paymentMethod = .online ∧ resolvedRegion ∉ cfg.onlineRegions then
        throw (.app onlinePaymentNotAvailableError)
      else do
        let address ← Interleaving.Prog.perform (Op.getCustomerAddress dto.customerAddressId)
        if address.userId ≠ actor.userId then throw (.app unAuthorisedError)
        else do
          let products ← Interleaving.Prog.perform
            (Op.getBranchProducts dto.branchId (dto.items.map OrderItemInput.productId))
          if products.length ≠ dto.items.length then
            throwApp "One or more products not found in this branch" 400
          else if (unavailableItems products dto.items).isEmpty then
            pure ⟨resolvedRegion, branch, address, products⟩
          else throw (.app (outOfStockError (unavailableItems products dto.items)))

/-- `placeOrder` in two parts: the second is the one that uses a connection. -/
theorem placeOrder_eq (actor : ActorContext) (region : Option String) (dto : CreateOrderRequest) :
    placeOrder cfg actor region dto = (do
      let branch ← getBranch dto.branchId
      let c ← checkBranch cfg actor region dto branch
      submitOrder cfg actor c.resolvedRegion c.branch c.address c.products dto) := by
  unfold placeOrder checkBranch
  refine congrArg (getBranch dto.branchId >>= ·) (funext fun branch => ?_)
  split_ifs with hclosed
  · rfl
  rw [Prog.do_assoc]
  refine congrArg (cache (.get (.rejectFlag dto.branchId)) >>= ·) (funext fun flag => ?_)
  split_ifs with hflag
  · rfl
  rw [Prog.do_assoc]
  refine congrArg (Interleaving.Prog.ofExcept (assertRegion cfg (region.getD branch.region)) >>= ·)
    (funext fun resolvedRegion => ?_)
  split_ifs with honline
  · rfl
  rw [Prog.do_assoc]
  refine congrArg (Interleaving.Prog.perform (Op.getCustomerAddress dto.customerAddressId) >>= ·)
    (funext fun address => ?_)
  split_ifs with huser
  · rfl
  rw [Prog.do_assoc]
  refine congrArg (Interleaving.Prog.perform (Op.getBranchProducts dto.branchId
    (dto.items.map OrderItemInput.productId)) >>= ·) (funext fun products => ?_)
  split_ifs <;> rfl

/-- `POST /orders` behind its guards. Core and Redis are asked without a connection; then the
connection is `db(resolvedRegion)`, and with the region of the order the payment session has the
same. -/
def placeOnShard (actor : ActorContext) (header query : Option String)
    (dto : CreateOrderRequest) : ShardSvc OrderResponse :=
  match resolveRegion cfg header query with
  | none => throw (.app regionNotResolvedError)
  | some region => do
    let branch ← onShard "" (getBranch dto.branchId)
    let c ← onShard "" (checkBranch cfg actor (some region) dto branch)
    onShard c.resolvedRegion
      (submitOrder cfg actor c.resolvedRegion c.branch c.address c.products dto)

end Placement

end OrderService
