import OrderService.Services.Order
import Mathlib.Data.List.Dedup
import Mathlib.Data.List.Perm.Subperm

/-! `getBranchProducts` of the branch client: the products of an order from the cache, and the
rest from core. -/
namespace OrderService

/-- What Redis holds under `core:branch:<branchId>:product:<productId>`: a row that was fetched
from core, which is the only way to a name, or what events have told of a product. -/
inductive ProductEntry where
  | row (product : CoreBranchProduct)
  | partialRow (productId : Nat) (price stock : Option Int) (isAvailable : Option Bool)

structure ProductStockChangedPayload where
  branchId : Nat
  productId : Nat
  newStock : Option Int
  isAvailable : Option Bool

structure ProductPriceChangedPayload where
  branchId : Nat
  productId : Nat
  newPrice : Int

/-- `upsertProductStock`: what it writes over the entry that it read. -/
def mergeStock (existing : Option ProductEntry) (p : ProductStockChangedPayload) : ProductEntry :=
  match existing with
  | none => .partialRow p.productId none p.newStock p.isAvailable
  | some (.row product) => .row { product with
      productId := p.productId
      stock := p.newStock.getD product.stock
      isAvailable := p.isAvailable.getD product.isAvailable }
  | some (.partialRow _ price stock isAvailable) =>
    .partialRow p.productId price (p.newStock.orElse fun _ => stock)
      (p.isAvailable.orElse fun _ => isAvailable)

/-- `upsertProductPrice`. -/
def mergePrice (existing : Option ProductEntry) (p : ProductPriceChangedPayload) : ProductEntry :=
  match existing with
  | none => .partialRow p.productId (some p.newPrice) none none
  | some (.row product) => .row { product with productId := p.productId, price := p.newPrice }
  | some (.partialRow _ _ stock isAvailable) =>
    .partialRow p.productId (some p.newPrice) stock isAvailable

/-- The product cache, by branch and product. -/
abbrev ProductCache := Nat → Nat → Option ProductEntry

def ProductCache.set (c : ProductCache) (branchId productId : Nat) (entry : Option ProductEntry) :
    ProductCache :=
  Function.update c branchId (Function.update (c branchId) productId entry)

/-- What the cache can come to hold. An event handler writes over what it read a while ago. -/
inductive ProductCache.Reachable : ProductCache → Prop
  | empty : Reachable fun _ _ => none
  | fetched {c : ProductCache} (branchId : Nat) (product : CoreBranchProduct) : Reachable c →
      Reachable (c.set branchId product.productId (some (.row product)))
  | stockChanged {c earlier : ProductCache} (p : ProductStockChangedPayload) : Reachable c →
      Reachable earlier →
      Reachable (c.set p.branchId p.productId
        (some (mergeStock (earlier p.branchId p.productId) p)))
  | priceChanged {c earlier : ProductCache} (p : ProductPriceChangedPayload) : Reachable c →
      Reachable earlier →
      Reachable (c.set p.branchId p.productId
        (some (mergePrice (earlier p.branchId p.productId) p)))
  | expired {c : ProductCache} (branchId productId : Nat) : Reachable c →
      Reachable (c.set branchId productId none)

/-- One product and what its lookup found. -/
abbrev ProductLookup := Nat × Option ProductEntry

def cachedProducts (lookups : List ProductLookup) : List CoreBranchProduct :=
  lookups.filterMap fun l =>
    match l.2 with
    | some (.row product) => some product
    | _ => none

/-- A partial entry has no name, and counts as a miss. -/
def missedIds (lookups : List ProductLookup) : List Nat :=
  lookups.filterMap fun l =>
    match l.2 with
    | some (.row _) => none
    | _ => some l.1

/-- `getBranchProducts`, given its lookups in the order in which they come back, and what core
answers to the request for the misses. -/
def getBranchProducts (lookups : List ProductLookup) (data : List CoreBranchProduct) :
    List CoreBranchProduct :=
  if (missedIds lookups).isEmpty then cachedProducts lookups
  else cachedProducts lookups ++ data

/-- Core answers with at most one row for each id that it is asked for, and with no others. -/
structure CoreAnswers (ids : List Nat) (data : List CoreBranchProduct) : Prop where
  distinct : (data.map CoreBranchProduct.productId).Nodup
  asked : ∀ product ∈ data, product.productId ∈ ids

/-- The products that `getBranchProducts(branchId, productIds)` may return. There is one lookup for
each id of `new Set(productIds)`, in the cache as it is when the lookup comes to it. -/
def ReturnsProducts (branchId : Nat) (productIds : List Nat) (products : List CoreBranchProduct) :
    Prop :=
  ∃ lookups data, (lookups.map Prod.fst).Perm productIds.dedup ∧
    (∀ l ∈ lookups, ∃ c : ProductCache, c.Reachable ∧ c branchId l.1 = l.2) ∧
    CoreAnswers (missedIds lookups) data ∧ products = getBranchProducts lookups data

section Cache

/-- The row is the one of the product under whose key it is. -/
def ProductCache.Keyed (c : ProductCache) : Prop :=
  ∀ branchId productId product, c branchId productId = some (.row product) →
    product.productId = productId

theorem ProductCache.Keyed.set {c : ProductCache} (h : c.Keyed) {branchId productId : Nat}
    {entry : Option ProductEntry}
    (hentry : ∀ product, entry = some (.row product) → product.productId = productId) :
    (c.set branchId productId entry).Keyed := by
  intro b i product hrow
  unfold ProductCache.set at hrow
  by_cases hb : b = branchId
  · subst hb
    rw [Function.update_self] at hrow
    by_cases hi : i = productId
    · subst hi
      rw [Function.update_self] at hrow
      exact hentry product hrow
    · rw [Function.update_of_ne hi] at hrow
      exact h b i product hrow
  · rw [Function.update_of_ne hb] at hrow
    exact h b i product hrow

theorem ProductCache.Reachable.keyed {c : ProductCache} (h : c.Reachable) : c.Keyed := by
  induction h with
  | empty =>
    intro b i product hrow
    cases hrow
  | fetched branchId product _ ih =>
    apply ih.set
    intro other hother
    cases hother
    rfl
  | stockChanged p _ _ ih _ =>
    apply ih.set
    intro product hproduct
    unfold mergeStock at hproduct
    split at hproduct <;> cases hproduct
    rfl
  | priceChanged p _ _ ih _ =>
    apply ih.set
    intro product hproduct
    unfold mergePrice at hproduct
    split at hproduct <;> cases hproduct
    rfl
  | expired branchId productId _ ih => exact ih.set fun _ h => by cases h

end Cache

section Products
variable {branchId : Nat} {productIds : List Nat} {products data : List CoreBranchProduct}
  {lookups : List ProductLookup}

theorem mem_cachedProducts {product : CoreBranchProduct} :
    product ∈ cachedProducts lookups ↔ ∃ l ∈ lookups, l.2 = some (.row product) := by
  unfold cachedProducts
  rw [List.mem_filterMap]
  constructor
  · intro h
    obtain ⟨l, hl, hrow⟩ := h
    split at hrow
    · next found hfound => exact ⟨l, hl, hfound.trans (by rw [Option.some.inj hrow])⟩
    · cases hrow
  · intro h
    obtain ⟨l, hl, hrow⟩ := h
    exact ⟨l, hl, by rw [hrow]⟩

theorem mem_missedIds {i : Nat} (h : i ∈ missedIds lookups) :
    ∃ l ∈ lookups, l.1 = i ∧ ∀ product, l.2 ≠ some (.row product) := by
  obtain ⟨l, hl, hmiss⟩ := List.mem_filterMap.mp h
  split at hmiss
  · cases hmiss
  · next hno => exact ⟨l, hl, Option.some.inj hmiss, fun product hrow => hno product hrow⟩

/-- The ids of the cached products are among the lookups in their order. -/
theorem cachedProducts_sublist
    (hkeyed : ∀ l ∈ lookups, ∀ product, l.2 = some (.row product) → product.productId = l.1) :
    ((cachedProducts lookups).map CoreBranchProduct.productId).Sublist (lookups.map Prod.fst) := by
  induction lookups with
  | nil => exact List.Sublist.slnil
  | cons l lookups ih =>
    have hrest := ih fun l' hl' => hkeyed l' (List.mem_cons_of_mem l hl')
    obtain ⟨i, entry⟩ := l
    cases hentry : entry with
    | none => exact hrest.cons i
    | some e =>
      cases e with
      | row product =>
        have hid : product.productId = i :=
          hkeyed (i, entry) List.mem_cons_self product hentry
        have hcons := hrest.cons_cons i
        simpa [cachedProducts, hid] using hcons
      | partialRow _ _ _ _ => exact hrest.cons i

/-- No product is returned twice, and none that was not asked for. -/
theorem ReturnsProducts.distinct (h : ReturnsProducts branchId productIds products) :
    (products.map CoreBranchProduct.productId).Nodup ∧
      ∀ product ∈ products, product.productId ∈ productIds := by
  obtain ⟨lookups, data, hperm, hcache, hcore, rfl⟩ := h
  have hkeyed : ∀ l ∈ lookups, ∀ product, l.2 = some (.row product) →
      product.productId = l.1 := by
    intro l hl product hrow
    obtain ⟨c, hc, hentry⟩ := hcache l hl
    exact hc.keyed branchId l.1 product (hentry.trans hrow)
  have hids : (lookups.map Prod.fst).Nodup := hperm.nodup_iff.mpr (List.nodup_dedup productIds)
  have hasked : ∀ i ∈ lookups.map Prod.fst, i ∈ productIds := by
    intro i hi
    exact List.mem_dedup.mp (hperm.mem_iff.mp hi)
  have hcached : ((cachedProducts lookups).map CoreBranchProduct.productId).Nodup :=
    hids.sublist (cachedProducts_sublist hkeyed)
  have hcachedAsked : ∀ product ∈ cachedProducts lookups, product.productId ∈ productIds := by
    intro product hproduct
    obtain ⟨l, hl, hrow⟩ := mem_cachedProducts.mp hproduct
    rw [hkeyed l hl product hrow]
    exact hasked l.1 (List.mem_map_of_mem hl)
  unfold getBranchProducts
  split_ifs
  · exact ⟨hcached, hcachedAsked⟩
  refine ⟨?_, fun product hproduct => ?_⟩
  · rw [List.map_append, List.nodup_append]
    refine ⟨hcached, hcore.distinct, fun i hi j hj heq => ?_⟩
    subst heq
    -- A product that core is asked for was not in the cache.
    obtain ⟨product, hproduct, hpid⟩ := List.mem_map.mp hi
    obtain ⟨l, hl, hrow⟩ := mem_cachedProducts.mp hproduct
    obtain ⟨fetched, hfetched, hfid⟩ := List.mem_map.mp hj
    obtain ⟨l', hl', hmiss, hno⟩ := mem_missedIds (hcore.asked fetched hfetched)
    have hsame : l = l' := by
      apply List.inj_on_of_nodup_map hids hl hl'
      rw [← hkeyed l hl product hrow, hpid, hmiss, hfid]
    rw [← hsame] at hno
    exact hno product hrow
  · rcases List.mem_append.mp hproduct with hproduct | hproduct
    · exact hcachedAsked product hproduct
    · obtain ⟨l, hl, hmiss, _⟩ := mem_missedIds (hcore.asked product hproduct)
      rw [← hmiss]
      exact hasked l.1 (List.mem_map_of_mem hl)

/-- Core can answer everything when nothing is cached. -/
theorem returnsProducts_of_distinct (hdistinct : (products.map CoreBranchProduct.productId).Nodup)
    (hasked : ∀ product ∈ products, product.productId ∈ productIds) :
    ReturnsProducts branchId productIds products := by
  have hmisses : missedIds (productIds.dedup.map fun i => (i, none)) = productIds.dedup := by
    rw [missedIds, List.filterMap_map]
    exact List.filterMap_some
  have hnone : cachedProducts (productIds.dedup.map fun i => (i, none)) = [] := by
    rw [cachedProducts, List.filterMap_map]
    exact List.filterMap_eq_nil_iff.mpr fun _ _ => rfl
  refine ⟨productIds.dedup.map fun i => (i, none), products, ?_, fun l hl => ?_, ⟨hdistinct, ?_⟩, ?_⟩
  · rw [List.map_map]
    exact .of_eq (List.map_id _)
  · obtain ⟨i, _, rfl⟩ := List.mem_map.mp hl
    exact ⟨_, .empty, rfl⟩
  · intro product hproduct
    rw [hmisses]
    exact List.mem_dedup.mpr (hasked product hproduct)
  · unfold getBranchProducts
    rw [hmisses, hnone]
    split_ifs with hempty
    · apply List.eq_nil_iff_forall_not_mem.mpr
      intro product hproduct
      have hmem := List.mem_dedup.mpr (hasked product hproduct)
      rw [List.isEmpty_iff.mp hempty] at hmem
      cases hmem
    · rfl

/-- As many products as ids: then no id was there twice. -/
theorem ReturnsProducts.nodup_ids (h : ReturnsProducts branchId productIds products)
    (hlength : products.length = productIds.length) : productIds.Nodup := by
  obtain ⟨hdistinct, hasked⟩ := h.distinct
  have hsubset : products.map CoreBranchProduct.productId ⊆ productIds := by
    intro i hi
    obtain ⟨product, hproduct, rfl⟩ := List.mem_map.mp hi
    exact hasked product hproduct
  have hperm : (products.map CoreBranchProduct.productId).Perm productIds := by
    apply (hdistinct.subperm hsubset).perm_of_length_le
    rw [List.length_map, hlength]
  exact hperm.nodup_iff.mp hdistinct

end Products

end OrderService
