import OrderService.Calls
import OrderService.Interleaving.LastWrite
import OrderService.Services.BranchProducts

/-! The writers of the product cache: the handlers of `product.stock.changed` and
`product.price.changed`, and `getBranchProducts`, one read, write or request at a time. -/
namespace OrderService
open Interleaving

section World

/-- A change that core makes to a product, which is the payload of its event. -/
inductive ProductChange where
  | stock (p : ProductStockChangedPayload)
  | price (p : ProductPriceChangedPayload)

def ProductChange.branchId : ProductChange → Nat
  | .stock p => p.branchId
  | .price p => p.branchId

def ProductChange.productId : ProductChange → Nat
  | .stock p => p.productId
  | .price p => p.productId

def ProductChange.change (c : ProductChange) (product : CoreBranchProduct) : CoreBranchProduct :=
  match c with
  | .stock p => { product with
      stock := p.newStock.getD product.stock
      isAvailable := p.isAvailable.getD product.isAvailable }
  | .price p => { product with price := p.newPrice }

/-- What the change does to the row of one product. -/
def ProductChange.apply (branchId productId : Nat) (c : ProductChange)
    (product : CoreBranchProduct) : CoreBranchProduct :=
  if c.branchId = branchId ∧ c.productId = productId then c.change product else product

/-- Core's rows at the start and its changes since, each an event in the queue; `started` of the
handlers have started. `handling` tells which event a handler has taken, `stored` which events are
in the cache, `read` how many those were when a process last read, and `fetched` how many changes
core had made when it last answered one. -/
structure ProductWorld where
  base : Nat → Nat → Option CoreBranchProduct
  changes : List ProductChange := []
  started : Nat := 0
  cache : ProductCache := fun _ _ => none
  handling : Pid → Option Nat := fun _ => none
  stored : List Nat := []
  read : Pid → Nat := fun _ => 0
  fetched : Pid → Nat := fun _ => 0

/-- The row that core has now. -/
def ProductWorld.core (w : ProductWorld) (branchId productId : Nat) : Option CoreBranchProduct :=
  (w.base branchId productId).map fun product =>
    w.changes.foldl (fun product c => c.apply branchId productId product) product

inductive ProductOp where
  | deliver
  | get (branchId productId : Nat)
  | set (branchId productId : Nat) (entry : ProductEntry)
  | request (branchId : Nat) (productIds : List Nat)

abbrev ProductOp.Res : ProductOp → Type
  | .deliver => ProductChange
  | .get .. => Option ProductEntry
  | .set .. => Unit
  | .request .. => List CoreBranchProduct

structure ProductEnv where
  fail : Bool := false

/-- A handler waits for its event; the events come in the order in which core made its changes. -/
def execProduct (p : Pid) (o : ProductOp) (e : ProductEnv) (w : ProductWorld) :
    Option (Except Err o.Res × ProductWorld) :=
  match o with
  | .deliver => (w.changes[w.started]?).map fun c =>
    (.ok c, { w with
      started := w.started + 1
      handling := Function.update w.handling p (some w.started) })
  | .get branchId productId =>
    if e.fail then some (.error .failed, w)
    else some (.ok (w.cache branchId productId),
      { w with read := Function.update w.read p w.stored.length })
  | .set branchId productId entry =>
    if e.fail then some (.error .failed, w)
    else some (.ok (), { w with
      cache := w.cache.set branchId productId (some entry)
      stored := w.stored ++ (w.handling p).toList })
  | .request branchId productIds =>
    if e.fail then some (.error .failed, w)
    else some (.ok (productIds.filterMap (w.core branchId)),
      { w with fetched := Function.update w.fetched p w.changes.length })

/-- Core changes a product, or an entry ends. -/
inductive ProductExt where
  | change (c : ProductChange)
  | expire (branchId productId : Nat)

def productMachine :
    Machine Pid ProductOp ProductOp.Res Err ProductWorld ProductEnv ProductExt where
  exec := execProduct
  crash _ w := w
  ext x w :=
    match x with
    | .change c => { w with changes := w.changes ++ [c] }
    | .expire branchId productId => { w with cache := w.cache.set branchId productId none }

abbrev ProductSvc (α : Type) : Type := Prog ProductOp ProductOp.Res Err α

end World

section Writers

def upsertProductStock (p : ProductStockChangedPayload) : ProductSvc Unit := do
  let existing ← Prog.perform (ProductOp.get p.branchId p.productId)
  Prog.perform (ProductOp.set p.branchId p.productId (mergeStock existing p))

def upsertProductPrice (p : ProductPriceChangedPayload) : ProductSvc Unit := do
  let existing ← Prog.perform (ProductOp.get p.branchId p.productId)
  Prog.perform (ProductOp.set p.branchId p.productId (mergePrice existing p))

/-- Without a branch or a product in the payload the handlers do nothing. -/
def handleProductStockChanged (p : ProductStockChangedPayload) : ProductSvc Unit :=
  if p.branchId = 0 || p.productId = 0 then pure () else upsertProductStock p

def handleProductPriceChanged (p : ProductPriceChangedPayload) : ProductSvc Unit :=
  if p.branchId = 0 || p.productId = 0 then pure () else upsertProductPrice p

def lookupProducts (branchId : Nat) : List Nat → ProductSvc (List ProductLookup)
  | [] => pure []
  | productId :: productIds => do
    let raw ← Prog.perform (ProductOp.get branchId productId)
    let found ← lookupProducts branchId productIds
    pure ((productId, raw) :: found)

/-- A failed `set` is only logged. -/
def storeProducts (branchId : Nat) : List CoreBranchProduct → ProductSvc Unit
  | [] => pure ()
  | product :: products => do
    tryCatch (Prog.perform (ProductOp.set branchId product.productId (.row product)))
      fun _ => pure ()
    storeProducts branchId products

/-- `getBranchProducts` with its operations; its lookups and its writes are made one after another
here. -/
def readBranchProducts (branchId : Nat) (productIds : List Nat) :
    ProductSvc (List CoreBranchProduct) := do
  let lookups ← lookupProducts branchId productIds.dedup
  if (missedIds lookups).isEmpty then pure (getBranchProducts lookups [])
  else do
    let data ← Prog.perform (ProductOp.request branchId (missedIds lookups))
    storeProducts branchId data
    pure (getBranchProducts lookups data)

end Writers

section Calls

/-- A handler, which takes the next event, or a call of `getBranchProducts`. -/
inductive ProductCall where
  | handler
  | getBranchProducts (branchId : Nat) (productIds : List Nat)

inductive ProductReply where
  | handled
  | products (products : List CoreBranchProduct)

def ProductChange.handle : ProductChange → ProductSvc Unit
  | .stock p => handleProductStockChanged p
  | .price p => handleProductPriceChanged p

def ProductCall.prog : ProductCall → ProductSvc ProductReply
  | .handler => do
    let c ← Prog.perform ProductOp.deliver
    c.handle
    pure .handled
  | .getBranchProducts branchId productIds =>
    readBranchProducts branchId productIds >>= fun found => pure (.products found)

abbrev ProductSys : Type := Sys Pid ProductOp ProductOp.Res Err ProductWorld ProductReply

def servingProducts (calls : Pid → Option ProductCall) (w : ProductWorld) : ProductSys :=
  ⟨w, fun p => (calls p).map ProductCall.prog⟩

end Calls

end OrderService
