import OrderService.Interleaving.Program
import OrderService.Services.BranchProducts
import OrderService.Services.Signature

/-! The product cache as text: the handlers of `product.stock.changed` and `product.price.changed`
merge whatever JSON their payloads have into whatever JSON is cached. -/
namespace OrderService
open Interleaving

section Values

/-- `p?.key` of a parsed value; of those that the handlers read, only objects have any. -/
def Json.prop : Json → String → Option Json
  | .obj fields, key => getField fields key
  | _, _ => none

/-- A parsed object by its properties. `JSON.stringify` leaves out those that are undefined. -/
abbrev JsonObject := String → Option Json

def CoreBranchProduct.json (product : CoreBranchProduct) : JsonObject :=
  getField [("productId", .num (toString product.productId)), ("name", .str product.name),
    ("imageUrl", (product.imageUrl.map Json.str).getD .null),
    ("price", .num (toString product.price)), ("stock", .num (toString product.stock)),
    ("isAvailable", .bool product.isAvailable)]

def productKey (branchId productId : String) : String :=
  "core:branch:" ++ branchId ++ ":product:" ++ productId

/-- The payload's branch and product, unless one of them is missing or falsy. -/
def Json.identified (p : Json) : Option (Json × Json) :=
  match p.prop "branchId", p.prop "productId" with
  | some branchId, some productId =>
    if branchId.truthy && productId.truthy then some (branchId, productId) else none
  | _, _ => none

/-- `productKey(p.branchId, p.productId)`, which throws where one of them cannot be a string. -/
def payloadKey (branchId productId : Json) : Except Err String := do
  let branch ← branchId.text
  let product ← productId.text
  pure (productKey branch product)

/-- `if (value !== undefined) merged[key] = value`. -/
def JsonObject.assignDefined (merged : JsonObject) (key : String) : Option Json → JsonObject
  | some value => Function.update merged key (some value)
  | none => merged

/-- What `upsertProductStock` writes over the entry that it read. -/
def mergedStock (existing : Option JsonObject) (productId p : Json) : JsonObject :=
  let merged := existing.getD fun _ => none
  let merged := merged.assignDefined "stock" (p.prop "newStock")
  let merged := merged.assignDefined "isAvailable" (p.prop "isAvailable")
  Function.update merged "productId" (some productId)

/-- What `upsertProductPrice` writes: a price that the payload lacks is left out. -/
def mergedPrice (existing : Option JsonObject) (productId p : Json) : JsonObject :=
  let merged := existing.getD fun _ => none
  let merged := Function.update merged "price" (p.prop "newPrice")
  Function.update merged "productId" (some productId)

/-- `multiplyMinor(bp.price, quantity)`, where `number` is how a value converts; nothing stands for
`NaN`. -/
def multiplyMinor (number : Json → Option Rat) (price : Option Json) (quantity : Rat) : Option Rat :=
  (price.bind number).map fun unitPriceMinor => unitPriceMinor * quantity

end Values

section Merging

variable {key : String}

theorem assignDefined_of_ne {merged : JsonObject} {value : Option Json} {other : String}
    (h : other ≠ key) : merged.assignDefined key value other = merged other := by
  cases value with
  | none => rfl
  | some v => exact Function.update_of_ne h _ _

theorem assignDefined_self {merged : JsonObject} {value : Option Json} :
    merged.assignDefined key value key = value.or (merged key) := by
  cases value with
  | none => rfl
  | some v => exact Function.update_self ..

/-- What a stock event leaves under each name that is read later. -/
theorem mergedStock_fields (existing : Option JsonObject) (productId p : Json) :
    mergedStock existing productId p "name" = (existing.getD fun _ => none) "name" ∧
      mergedStock existing productId p "price" = (existing.getD fun _ => none) "price" ∧
      mergedStock existing productId p "stock"
        = (p.prop "newStock").or ((existing.getD fun _ => none) "stock") ∧
      mergedStock existing productId p "isAvailable"
        = (p.prop "isAvailable").or ((existing.getD fun _ => none) "isAvailable") := by
  unfold mergedStock
  refine ⟨?_, ?_, ?_, ?_⟩
  · rw [Function.update_of_ne (by decide), assignDefined_of_ne (by decide),
      assignDefined_of_ne (by decide)]
  · rw [Function.update_of_ne (by decide), assignDefined_of_ne (by decide),
      assignDefined_of_ne (by decide)]
  · rw [Function.update_of_ne (by decide), assignDefined_of_ne (by decide), assignDefined_self]
  · rw [Function.update_of_ne (by decide), assignDefined_self, assignDefined_of_ne (by decide)]

theorem mergedPrice_fields (existing : Option JsonObject) (productId p : Json) :
    mergedPrice existing productId p "price" = p.prop "newPrice" ∧
      ∀ name, name ≠ "price" → name ≠ "productId" →
        mergedPrice existing productId p name = (existing.getD fun _ => none) name := by
  unfold mergedPrice
  refine ⟨?_, fun name hprice hid => ?_⟩
  · rw [Function.update_of_ne (by decide), Function.update_self]
  · rw [Function.update_of_ne hid, Function.update_of_ne hprice]

end Merging

section Runtime

abbrev JsonCache := String → Option JsonObject

inductive JsonCacheOp where
  | get (key : String)
  | set (key : String) (body : JsonObject)
  | request (branchId : Nat) (productIds : List Nat)

abbrev JsonCacheOp.Res : JsonCacheOp → Type
  | .get _ => Option JsonObject
  | .set .. => Unit
  | .request .. => List CoreBranchProduct

/-- Whether a command or a request fails, and whether a failed command was carried out; the rows
that core answers with. -/
structure JsonCacheEnv where
  fail : Bool := false
  applied : Bool := false
  rows : List CoreBranchProduct := []

def jsonCacheExec (o : JsonCacheOp) (e : JsonCacheEnv) (c : JsonCache) :
    Option (Except Err o.Res × JsonCache) :=
  match o with
  | .get key => some (if e.fail then (.error .failed, c) else (.ok (c key), c))
  | .set key body =>
    some (if e.fail then (.error .failed, if e.applied then Function.update c key (some body) else c)
      else (.ok (), Function.update c key (some body)))
  | .request _ _ => some (if e.fail then (.error .failed, c) else (.ok e.rows, c))

/-- An entry ends by itself after an hour. -/
def jsonCacheMachine :
    Machine Pid JsonCacheOp JsonCacheOp.Res Err JsonCache JsonCacheEnv String where
  exec _ := jsonCacheExec
  crash _ c := c
  ext key c := Function.update c key none

end Runtime

namespace JsonCache

abbrev Svc (α : Type) := Prog JsonCacheOp JsonCacheOp.Res Err α

def command (o : JsonCacheOp) : Svc o.Res := Prog.perform o

def upsertProductStock (branchId productId p : Json) : Svc Unit := do
  let key ← Prog.ofExcept (payloadKey branchId productId)
  let existing ← command (.get key)
  command (.set key (mergedStock existing productId p))

def upsertProductPrice (branchId productId p : Json) : Svc Unit := do
  let key ← Prog.ofExcept (payloadKey branchId productId)
  let existing ← command (.get key)
  command (.set key (mergedPrice existing productId p))

def handleProductStockChanged (payload : Json) : Svc Unit :=
  match payload.identified with
  | some p => upsertProductStock p.1 p.2 payload
  | none => pure ()

def handleProductPriceChanged (payload : Json) : Svc Unit :=
  match payload.identified with
  | some p => upsertProductPrice p.1 p.2 payload
  | none => pure ()

def rowKey (branchId productId : Nat) : String :=
  productKey (toString branchId) (toString productId)

/-- The lookups of `getBranchProducts`: what was cached under a name, and the misses. -/
def lookupProducts (branchId : Nat) : List Nat → Svc (List JsonObject × List Nat)
  | [] => pure ([], [])
  | productId :: productIds => do
    let raw ← command (.get (rowKey branchId productId))
    let found ← lookupProducts branchId productIds
    match raw with
    | none => pure (found.1, productId :: found.2)
    | some parsed =>
      if (parsed "name").isNone then pure (found.1, productId :: found.2)
      else pure (parsed :: found.1, found.2)

/-- A failed `set` is only logged. -/
def storeProducts (branchId : Nat) : List CoreBranchProduct → Svc Unit
  | [] => pure ()
  | product :: products => do
    tryCatch (command (.set (rowKey branchId product.productId) product.json)) fun _ => pure ()
    storeProducts branchId products

def getBranchProducts (branchId : Nat) (productIds : List Nat) : Svc (List JsonObject) :=
  if productIds.length = 0 then pure []
  else do
    let found ← lookupProducts branchId productIds.dedup
    if found.2.length = 0 then pure found.1
    else do
      let data ← command (.request branchId found.2)
      storeProducts branchId data
      pure (found.1 ++ data.map CoreBranchProduct.json)

/-- An event of a product with its payload, which may be any JSON value. -/
inductive Event where
  | stockChanged (payload : Json)
  | priceChanged (payload : Json)

def Event.payload : Event → Json
  | .stockChanged payload => payload
  | .priceChanged payload => payload

def Event.handle : Event → Svc Unit
  | .stockChanged payload => handleProductStockChanged payload
  | .priceChanged payload => handleProductPriceChanged payload

inductive Call where
  | event (e : Event)
  | products (branchId : Nat) (productIds : List Nat)

inductive Reply where
  | handled
  | products (products : List JsonObject)

def Call.prog : Call → Svc Reply
  | .event e => do
    e.handle
    pure .handled
  | .products branchId productIds => do
    let products ← getBranchProducts branchId productIds
    pure (.products products)

def running (calls : Pid → Option Call) (c : JsonCache) :
    Sys Pid JsonCacheOp JsonCacheOp.Res Err JsonCache Reply :=
  ⟨c, fun p => (calls p).map Call.prog⟩

end JsonCache

section Typed

/-- The entries and payloads of the typed cache as JSON. -/
def ProductEntry.json : ProductEntry → JsonObject
  | .row product => product.json
  | .partialRow productId price stock isAvailable => fun key =>
    if key = "productId" then some (.num (toString productId))
    else if key = "price" then price.map fun n => .num (toString n)
    else if key = "stock" then stock.map fun n => .num (toString n)
    else if key = "isAvailable" then isAvailable.map .bool
    else none

def ProductStockChangedPayload.json (p : ProductStockChangedPayload) : Json :=
  .obj ([("branchId", .num (toString p.branchId)), ("productId", .num (toString p.productId))] ++
    (p.newStock.map fun n => ("newStock", .num (toString n))).toList ++
    (p.isAvailable.map fun b => ("isAvailable", .bool b)).toList)

def ProductPriceChangedPayload.json (p : ProductPriceChangedPayload) : Json :=
  .obj [("branchId", .num (toString p.branchId)), ("productId", .num (toString p.productId)),
    ("newPrice", .num (toString p.newPrice))]

/-- On typed payloads the merges are the typed ones. -/
theorem mergedStock_json (existing : Option ProductEntry) (p : ProductStockChangedPayload) :
    mergedStock (existing.map ProductEntry.json) (.num (toString p.productId)) p.json
      = (mergeStock existing p).json := by
  have hstock : p.json.prop "newStock" = p.newStock.map fun n => .num (toString n) := by
    cases hs : p.newStock <;> cases ha : p.isAvailable <;>
      simp [ProductStockChangedPayload.json, Json.prop, getField, hs, ha]
  have havailable : p.json.prop "isAvailable" = p.isAvailable.map .bool := by
    cases hs : p.newStock <;> cases ha : p.isAvailable <;>
      simp [ProductStockChangedPayload.json, Json.prop, getField, hs, ha]
  funext key
  unfold mergedStock
  rw [hstock, havailable]
  by_cases hid : key = "productId"
  · subst hid
    rw [Function.update_self]
    cases existing with
    | none => rfl
    | some entry => cases entry <;> rfl
  rw [Function.update_of_ne hid]
  by_cases ha : key = "isAvailable"
  · subst ha
    rw [assignDefined_self, assignDefined_of_ne (by decide)]
    cases existing with
    | none => cases h : p.isAvailable <;> simp [mergeStock, ProductEntry.json, h]
    | some entry =>
      cases entry <;> cases h : p.isAvailable <;>
        simp [mergeStock, ProductEntry.json, CoreBranchProduct.json, getField, h]
  rw [assignDefined_of_ne ha]
  by_cases hs : key = "stock"
  · subst hs
    rw [assignDefined_self]
    cases existing with
    | none => cases h : p.newStock <;> simp [mergeStock, ProductEntry.json, h]
    | some entry =>
      cases entry <;> cases h : p.newStock <;>
        simp [mergeStock, ProductEntry.json, CoreBranchProduct.json, getField, h]
  rw [assignDefined_of_ne hs]
  cases existing with
  | none => simp [mergeStock, ProductEntry.json, hid, ha, hs]
  | some entry =>
    cases entry with
    | row product =>
      simp [mergeStock, ProductEntry.json, CoreBranchProduct.json, getField, List.find?_cons,
        Ne.symm hid, Ne.symm ha, Ne.symm hs]
    | partialRow _ _ _ _ => simp [mergeStock, ProductEntry.json, hid, ha, hs]

theorem mergedPrice_json (existing : Option ProductEntry) (p : ProductPriceChangedPayload) :
    mergedPrice (existing.map ProductEntry.json) (.num (toString p.productId)) p.json
      = (mergePrice existing p).json := by
  funext key
  have hnew : p.json.prop "newPrice" = some (.num (toString p.newPrice)) := rfl
  unfold mergedPrice
  rw [hnew]
  by_cases hid : key = "productId"
  · subst hid
    rw [Function.update_self]
    cases existing with
    | none => rfl
    | some entry => cases entry <;> rfl
  rw [Function.update_of_ne hid]
  by_cases hprice : key = "price"
  · subst hprice
    rw [Function.update_self]
    cases existing with
    | none => rfl
    | some entry => cases entry <;> rfl
  rw [Function.update_of_ne hprice]
  cases existing with
  | none => simp [mergePrice, ProductEntry.json, hid, hprice]
  | some entry =>
    cases entry with
    | row product =>
      simp [mergePrice, ProductEntry.json, CoreBranchProduct.json, getField, List.find?_cons, Ne.symm hid,
        Ne.symm hprice]
    | partialRow _ _ _ _ => simp [mergePrice, ProductEntry.json, hid, hprice]

end Typed

end OrderService
