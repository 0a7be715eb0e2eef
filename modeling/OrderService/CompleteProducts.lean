import OrderService.Interleaving.Finishing
import OrderService.Interleaving.Trace
import OrderService.Services.ProductPayloads

/-! A product that `getBranchProducts` returns from the cache can lack its price: the handlers store
what the payloads have, and a name is all that the cache is asked for. -/
namespace OrderService
open Interleaving

section Statement

/-- A name, a numeric price, a stock and an availability flag. -/
structure JsonObject.Complete (product : JsonObject) : Prop where
  name : ∃ text, product "name" = some (.str text)
  price : ∃ text, product "price" = some (.num text)
  stock : ∃ text, product "stock" = some (.num text)
  isAvailable : ∃ b, product "isAvailable" = some (.bool b)

/-- The key under which the handler of an event stores, unless it ignores the event or throws. -/
def JsonCache.Event.key (e : JsonCache.Event) : Option String :=
  e.payload.identified.bind fun p => (payloadKey p.1 p.2).toOption

/-- What an event says of its product has the type of the column. -/
def JsonCache.Event.WellTyped : JsonCache.Event → Prop
  | .stockChanged payload =>
    (∀ newStock ∈ payload.prop "newStock", ∃ text, newStock = .num text) ∧
      ∀ isAvailable ∈ payload.prop "isAvailable", ∃ b, isAvailable = .bool b
  | .priceChanged payload => ∃ text, payload.prop "newPrice" = some (.num text)

/-- In every interleaving of calls of `getBranchProducts` with handlers of such events, from an
empty cache, the calls return nothing but complete products. -/
def AlwaysComplete (delivered : JsonCache.Event → Prop) : Prop :=
  ∀ calls : Pid → Option JsonCache.Call, (∀ p e, calls p = some (.event e) → delivered e) →
    ∀ s, jsonCacheMachine.Reaches (fun _ _ _ _ => True) (JsonCache.running calls fun _ => none) s →
      ∀ p products, s.procs p = some (.pure (.products products)) →
        ∀ product ∈ products, product.Complete

end Statement

namespace JsonCache

section Merging

variable {existing : Option JsonObject} {productId : Json} {e : Event} {key : String}

def Event.merged (e : Event) (existing : Option JsonObject) (productId : Json) : JsonObject :=
  match e with
  | .stockChanged payload => mergedStock existing productId payload
  | .priceChanged payload => mergedPrice existing productId payload

/-- No event brings a name. -/
theorem merged_name (e : Event) (existing : Option JsonObject) (productId : Json) :
    e.merged existing productId "name" = (existing.getD fun _ => none) "name" := by
  cases e with
  | stockChanged payload => exact (mergedStock_fields existing productId payload).1
  | priceChanged payload =>
    exact (mergedPrice_fields existing productId payload).2 "name" (by decide) (by decide)

/-- Merged into a complete product, exactly the well-typed events leave one. -/
theorem merged_complete_iff {entry : JsonObject} (h : entry.Complete) (e : Event) (productId : Json) :
    (e.merged (some entry) productId).Complete ↔ e.WellTyped := by
  obtain ⟨hname, hprice, hstock, havailable⟩ := h
  cases e with
  | stockChanged payload =>
    obtain ⟨hname', hprice', hstock', havailable'⟩ :=
      mergedStock_fields (some entry) productId payload
    constructor
    · intro hmerged
      obtain ⟨_, _, hnewStock, hnewAvailable⟩ := hmerged
      rw [Event.merged, hstock'] at hnewStock
      rw [Event.merged, havailable'] at hnewAvailable
      refine ⟨fun newStock hnew => ?_, fun isAvailable hnew => ?_⟩
      · obtain ⟨text, htext⟩ := hnewStock
        rw [hnew, Option.some_or] at htext
        exact ⟨text, Option.some.inj htext⟩
      · obtain ⟨b, hb⟩ := hnewAvailable
        rw [hnew, Option.some_or] at hb
        exact ⟨b, Option.some.inj hb⟩
    · intro he
      obtain ⟨hnewStock, hnewAvailable⟩ := he
      refine ⟨?_, ?_, ?_, ?_⟩
      · rw [Event.merged, hname']
        exact hname
      · rw [Event.merged, hprice']
        exact hprice
      · rw [Event.merged, hstock']
        cases hnew : payload.prop "newStock" with
        | none => exact hstock
        | some newStock =>
          obtain ⟨text, rfl⟩ := hnewStock newStock hnew
          exact ⟨text, rfl⟩
      · rw [Event.merged, havailable']
        cases hnew : payload.prop "isAvailable" with
        | none => exact havailable
        | some isAvailable =>
          obtain ⟨b, rfl⟩ := hnewAvailable isAvailable hnew
          exact ⟨b, rfl⟩
  | priceChanged payload =>
    obtain ⟨hnewPrice, hothers⟩ := mergedPrice_fields (some entry) productId payload
    constructor
    · intro hmerged
      obtain ⟨text, htext⟩ := hmerged.price
      rw [Event.merged, hnewPrice] at htext
      exact ⟨text, htext⟩
    · intro he
      refine ⟨?_, ?_, ?_, ?_⟩
      · rw [Event.merged, hothers "name" (by decide) (by decide)]
        exact hname
      · rw [Event.merged, hnewPrice]
        exact he
      · rw [Event.merged, hothers "stock" (by decide) (by decide)]
        exact hstock
      · rw [Event.merged, hothers "isAvailable" (by decide) (by decide)]
        exact havailable

theorem row_complete (product : CoreBranchProduct) : product.json.Complete :=
  ⟨⟨_, rfl⟩, ⟨_, rfl⟩, ⟨_, rfl⟩, ⟨_, rfl⟩⟩

end Merging

section Safety

variable {delivered : Event → Prop} {key : String} {entry : JsonObject} {c c' : JsonCache}

/-- An entry with a name is a complete product, under the key of a row. -/
def Sound (key : String) (entry : JsonObject) : Prop :=
  (entry "name").isSome → entry.Complete ∧ ∃ branchId productId, key = rowKey branchId productId

/-- What the commands of a program store and get. -/
def Stores : JsonCacheOp → Prop
  | .set key body => Sound key body
  | _ => True

def Gets : (o : JsonCacheOp) → o.Res → Prop
  | .get key, found => ∀ entry ∈ found, Sound key entry
  | .set .., _ => True
  | .request .., _ => True

def AllSound (c : JsonCache) : Prop := ∀ key, ∀ entry ∈ c key, Sound key entry

theorem AllSound.update (h : AllSound c) (hentry : Sound key entry) :
    AllSound (Function.update c key (some entry)) := by
  intro other found hfound
  by_cases hkey : other = key
  · subst hkey
    rw [Function.update_self] at hfound
    rw [← Option.some.inj hfound]
    exact hentry
  · rw [Function.update_of_ne hkey] at hfound
    exact h other found hfound

theorem AllSound.expire (h : AllSound c) : AllSound (Function.update c key none) := by
  intro other found hfound
  by_cases hkey : other = key
  · subst hkey
    rw [Function.update_self] at hfound
    cases hfound
  · rw [Function.update_of_ne hkey] at hfound
    exact h other found hfound

theorem AllSound.exec {o : JsonCacheOp} {e : JsonCacheEnv} {r : Except Err o.Res} (h : AllSound c)
    (ho : Stores o) (hx : jsonCacheExec o e c = some (r, c')) :
    AllSound c' ∧ ∀ a, r = .ok a → Gets o a := by
  cases o with
  | get key =>
    simp only [jsonCacheExec] at hx
    split_ifs at hx
    · cases hx
      exact ⟨h, fun a ha => by cases ha⟩
    · cases hx
      refine ⟨h, fun a ha => ?_⟩
      cases ha
      exact h key
  | set key body =>
    simp only [jsonCacheExec] at hx
    split_ifs at hx
    · cases hx
      exact ⟨h.update ho, fun a ha => by cases ha⟩
    · cases hx
      exact ⟨h, fun a ha => by cases ha⟩
    · cases hx
      exact ⟨h.update ho, fun _ _ => trivial⟩
  | request branchId productIds =>
    simp only [jsonCacheExec] at hx
    split_ifs at hx <;> cases hx <;> exact ⟨h, fun _ _ => trivial⟩

/-- Both handlers read the entry and write it with what the event says. -/
def Event.upsert (e : Event) (branchId productId : Json) : Svc Unit := do
  let key ← Prog.ofExcept (payloadKey branchId productId)
  let existing ← command (.get key)
  command (.set key (e.merged existing productId))

theorem handle_eq (e : Event) : e.handle = match e.payload.identified with
    | some p => e.upsert p.1 p.2
    | none => pure () := by
  cases e <;> rfl

theorem handle_calls (e : Event)
    (he : ∀ branchId productId, e.key = some (rowKey branchId productId) → e.WellTyped) :
    e.handle.Calls Stores Gets fun _ => True := by
  rw [handle_eq]
  cases hid : e.payload.identified with
  | none => exact Prog.calls_pure trivial
  | some p =>
    dsimp only
    refine Prog.calls_do (Q := fun key => e.key = some key) (Prog.calls_ofExcept fun key hkey => ?_)
      fun key hkey => ?_
    · unfold Event.key
      rw [hid, Option.bind_some, hkey]
      rfl
    refine Prog.calls_do (Prog.calls_perform trivial fun _ h => h) fun existing hexisting => ?_
    refine Prog.calls_perform ?_ fun _ _ => trivial
    -- What has a name now had it before the event.
    intro hname
    rw [merged_name] at hname
    cases existing with
    | none => cases hname
    | some entry =>
      obtain ⟨hcomplete, branchId, productId, hrow⟩ := hexisting entry rfl hname
      subst hrow
      exact ⟨(merged_complete_iff hcomplete e p.2).mpr (he branchId productId hkey),
        branchId, productId, rfl⟩

theorem lookupProducts_calls (branchId : Nat) (productIds : List Nat) :
    (lookupProducts branchId productIds).Calls Stores Gets fun found =>
      ∀ product ∈ found.1, product.Complete := by
  induction productIds with
  | nil => exact Prog.calls_pure fun product h => absurd h List.not_mem_nil
  | cons productId productIds ih =>
    refine Prog.calls_do (Prog.calls_perform trivial fun _ h => h) fun raw hraw => ?_
    refine Prog.calls_do ih fun found hfound => ?_
    cases raw with
    | none => exact Prog.calls_pure hfound
    | some parsed =>
      dsimp only
      split_ifs with hname
      · exact Prog.calls_pure hfound
      · refine Prog.calls_pure fun product hproduct => ?_
        rcases List.mem_cons.mp hproduct with rfl | hproduct
        · have hsome : (product "name").isSome = true := by
            rwa [Option.isNone_iff_eq_none, ← ne_eq, ← Option.isSome_iff_ne_none] at hname
          exact (hraw product rfl hsome).1
        · exact hfound product hproduct

theorem storeProducts_calls (branchId : Nat) (products : List CoreBranchProduct) :
    (storeProducts branchId products).Calls Stores Gets fun _ => True := by
  induction products with
  | nil => exact Prog.calls_pure trivial
  | cons product products ih =>
    refine Prog.calls_do (Q := fun _ => True) (Prog.calls_catch ?_ fun _ => Prog.calls_pure trivial)
      fun _ _ => ih
    refine Prog.calls_perform ?_ fun _ _ => trivial
    exact fun _ => ⟨row_complete product, branchId, product.productId, rfl⟩

theorem getBranchProducts_calls (branchId : Nat) (productIds : List Nat) :
    (getBranchProducts branchId productIds).Calls Stores Gets fun products =>
      ∀ product ∈ products, product.Complete := by
  unfold getBranchProducts
  split_ifs
  · exact Prog.calls_pure fun product h => absurd h List.not_mem_nil
  refine Prog.calls_do (lookupProducts_calls branchId productIds.dedup) fun found hfound => ?_
  split_ifs
  · exact Prog.calls_pure hfound
  refine Prog.calls_do (Q := fun _ => True) (Prog.calls_perform trivial fun _ _ => trivial)
    fun data _ => ?_
  refine Prog.calls_do (storeProducts_calls branchId data) fun _ _ => ?_
  refine Prog.calls_pure fun product hproduct => ?_
  rcases List.mem_append.mp hproduct with hcached | hfetched
  · exact hfound product hcached
  · obtain ⟨row, _, rfl⟩ := List.mem_map.mp hfetched
    exact row_complete row

def Reply.AllComplete : Reply → Prop
  | .handled => True
  | .products found => ∀ product ∈ found, product.Complete

theorem always_complete (h : ∀ e, delivered e →
    ∀ branchId productId, e.key = some (rowKey branchId productId) → e.WellTyped) :
    AlwaysComplete delivered := by
  intro calls hdelivered s hs p products hp
  have hcalls : ∀ p prog, (running calls fun _ => none).procs p = some prog →
      prog.Calls Stores Gets Reply.AllComplete := by
    intro p prog hprog
    obtain ⟨call, hcall, rfl⟩ := Option.map_eq_some_iff.mp hprog
    cases call with
    | event e =>
      exact Prog.calls_do (handle_calls e (h e (hdelivered p e hcall)))
        fun _ _ => Prog.calls_pure trivial
    | products branchId productIds =>
      exact Prog.calls_do (getBranchProducts_calls branchId productIds)
        fun _ hcomplete => Prog.calls_pure hcomplete
  have hstart : AllSound (running calls fun _ => none).world := fun _ _ h => by cases h
  obtain ⟨_, hend⟩ := Machine.Reaches.told (P := fun _ => Stores) (Q := fun _ => Reply.AllComplete)
    hcalls (fun p o e w r w' ho _ hw hx => hw.exec ho hx) (fun _ _ hw => hw)
    (fun _ _ hw => hw.expire) hstart hs
  exact hend p _ hp

end Safety

section Defect

/-- A complete row of a product. -/
def anyRow (productId : Nat) : CoreBranchProduct := ⟨productId, "", none, 0, 0, true⟩

/-- A product is fetched, its event is handled, and it is looked up. -/
def fetchedThenChanged (e : Event) (branchId productId : Nat) : Pid → Option Call
  | 0 => some (.products branchId [productId])
  | 1 => some (.event e)
  | 2 => some (.products branchId [productId])
  | _ => none

variable {e : Event} {branchId productId : Nat} {c : JsonCache}

theorem finishes_fetch (branchId productId : Nat) :
    jsonCacheMachine.Finishes 0 (Call.products branchId [productId]).prog (fun _ => none)
      (.products [(anyRow productId).json])
      (Function.update (fun _ => none) (rowKey branchId productId) (some (anyRow productId).json)) := by
  have hdedup : [productId].dedup = [productId] := List.dedup_eq_self.mpr (List.nodup_singleton _)
  have hlookup : jsonCacheMachine.Finishes 0 (lookupProducts branchId [productId]) (fun _ => none)
      ([], [productId]) (fun _ => none) :=
    (Machine.finishes_perform (e := {}) rfl).bind ((Machine.Finishes.pure _ _).bind (.pure _ _))
  have hrequest : jsonCacheMachine.Finishes 0 (command (.request branchId [productId]))
      (fun _ => none) [anyRow productId] (fun _ => none) :=
    Machine.finishes_perform (e := { rows := [anyRow productId] }) rfl
  have hstore : jsonCacheMachine.Finishes 0 (storeProducts branchId [anyRow productId])
      (fun _ => none) ()
      (Function.update (fun _ => none) (rowKey branchId productId) (some (anyRow productId).json)) :=
    (Machine.finishes_perform (e := {}) rfl).caught.bind (.pure _ _)
  have hproducts : jsonCacheMachine.Finishes 0 (getBranchProducts branchId [productId])
      (fun _ => none) [(anyRow productId).json]
      (Function.update (fun _ => none) (rowKey branchId productId)
        (some (anyRow productId).json)) := by
    unfold getBranchProducts
    rw [if_neg (by simp), hdedup]
    exact hlookup.bind (hrequest.bind (hstore.bind (.pure _ _)))
  exact hproducts.bind (.pure _ _)

theorem finishes_event {existing : JsonObject} (hkey : e.key = some (rowKey branchId productId))
    (hcached : c (rowKey branchId productId) = some existing) :
    ∃ id, jsonCacheMachine.Finishes 1 (Call.event e).prog c .handled
      (Function.update c (rowKey branchId productId) (some (e.merged (some existing) id))) := by
  obtain ⟨p, hid, hp⟩ := Option.bind_eq_some_iff.mp hkey
  have htext : payloadKey p.1 p.2 = .ok (rowKey branchId productId) := by
    cases h : payloadKey p.1 p.2 with
    | error err =>
      rw [h] at hp
      cases hp
    | ok key =>
      rw [h] at hp
      rw [Option.some.inj hp]
  refine ⟨p.2, ?_⟩
  have hget : jsonCacheMachine.Finishes 1 (command (.get (rowKey branchId productId))) c
      (some existing) c := by
    rw [← hcached]
    exact Machine.finishes_perform (e := {}) rfl
  have hset : jsonCacheMachine.Finishes 1
      (command (.set (rowKey branchId productId) (e.merged (some existing) p.2))) c ()
      (Function.update c (rowKey branchId productId) (some (e.merged (some existing) p.2))) :=
    Machine.finishes_perform (e := {}) rfl
  have hhandle : jsonCacheMachine.Finishes 1 e.handle c ()
      (Function.update c (rowKey branchId productId) (some (e.merged (some existing) p.2))) := by
    rw [handle_eq, hid]
    dsimp only
    unfold Event.upsert
    rw [htext]
    exact (Machine.Finishes.pure _ _).bind (hget.bind hset)
  exact hhandle.bind (.pure _ _)

theorem finishes_lookup {entry : JsonObject} (hcached : c (rowKey branchId productId) = some entry)
    (hname : (entry "name").isSome = true) :
    jsonCacheMachine.Finishes 2 (Call.products branchId [productId]).prog c (.products [entry]) c := by
  have hdedup : [productId].dedup = [productId] := List.dedup_eq_self.mpr (List.nodup_singleton _)
  have hget : jsonCacheMachine.Finishes 2 (command (.get (rowKey branchId productId))) c
      (some entry) c := by
    rw [← hcached]
    exact Machine.finishes_perform (e := {}) rfl
  have hfound : ¬(entry "name").isNone = true := by
    rw [Option.isNone_iff_eq_none, ← ne_eq, ← Option.isSome_iff_ne_none]
    exact hname
  have hlookup : jsonCacheMachine.Finishes 2 (lookupProducts branchId [productId]) c
      ([entry], []) c := by
    refine hget.bind ((Machine.Finishes.pure _ _).bind ?_)
    dsimp only
    rw [if_neg hfound]
    exact .pure _ _
  have hproducts : jsonCacheMachine.Finishes 2 (getBranchProducts branchId [productId]) c
      [entry] c := by
    unfold getBranchProducts
    rw [if_neg (by simp), hdedup]
    exact hlookup.bind (.pure _ _)
  exact hproducts.bind (.pure _ _)

/-- After an event that is not well typed has been merged into a row, the row is returned. -/
theorem not_alwaysComplete {delivered : Event → Prop} (hdelivered : delivered e)
    (hkey : e.key = some (rowKey branchId productId)) (he : ¬e.WellTyped) :
    ¬AlwaysComplete delivered := by
  intro halways
  have hcalls : ∀ p e', fetchedThenChanged e branchId productId p = some (.event e') →
      delivered e' := by
    intro p e' hcall
    unfold fetchedThenChanged at hcall
    split at hcall <;> cases hcall
    exact hdelivered
  obtain ⟨id, hevent⟩ := finishes_event (c := Function.update (fun _ => none)
    (rowKey branchId productId) (some (anyRow productId).json)) hkey (Function.update_self ..)
  have hrow := row_complete (anyRow productId)
  have hname : (e.merged (some (anyRow productId).json) id "name").isSome = true := by
    rw [merged_name]
    rfl
  obtain ⟨s₁, hs₁, hw₁, _, hothers₁⟩ := (finishes_fetch branchId productId).reaches
    (s := running (fetchedThenChanged e branchId productId) fun _ => none) rfl rfl
  have hp₁ : s₁.procs 1 = some (Call.event e).prog := hothers₁ 1 (by decide)
  obtain ⟨s₂, hs₂, hw₂, _, hothers₂⟩ := hevent.reaches hw₁ hp₁
  have hp₂ : s₂.procs 2 = some (Call.products branchId [productId]).prog :=
    (hothers₂ 2 (by decide)).trans (hothers₁ 2 (by decide))
  have hmerged : s₂.world (rowKey branchId productId)
      = some (e.merged (some (anyRow productId).json) id) := by
    rw [hw₂]
    exact Function.update_self ..
  obtain ⟨s₃, hs₃, _, hp₃, _⟩ := (finishes_lookup hmerged hname).reaches rfl hp₂
  have hend := halways _ hcalls s₃ ((hs₁.trans hs₂).trans hs₃) 2 _ hp₃ _
    (List.mem_singleton.mpr rfl)
  exact he ((merged_complete_iff hrow e id).mp hend)

end Defect

end JsonCache

section Result

/-- The calls return complete products whatever handlers run beside them, if and only if the events
that are stored under the key of a row are well typed. -/
theorem cached_products_complete_iff (delivered : JsonCache.Event → Prop) :
    AlwaysComplete delivered ↔ ∀ e, delivered e → ∀ branchId productId,
      e.key = some (JsonCache.rowKey branchId productId) → e.WellTyped := by
  constructor
  · intro halways e he branchId productId hkey
    by_contra hill
    exact JsonCache.not_alwaysComplete he hkey hill halways
  · exact JsonCache.always_complete

/-- The line total of a complete product is a number, whatever number a text stands for. -/
theorem lineTotal_defined {product : JsonObject} (h : product.Complete) {number : Json → Option Rat}
    (hnumber : ∀ text, (number (.num text)).isSome) (quantity : Rat) :
    (multiplyMinor number (product "price") quantity).isSome := by
  obtain ⟨text, hprice⟩ := h.price
  rw [hprice]
  unfold multiplyMinor
  rw [Option.bind_some, Option.isSome_map]
  exact hnumber text

/-- A price event that only names its product. -/
def priceless : JsonCache.Event :=
  .priceChanged (.obj [("branchId", .num "1"), ("productId", .num "7")])

/-- The row of the product loses its price and is still returned. -/
theorem product_without_price :
    priceless.key = some (JsonCache.rowKey 1 7) ∧ ¬AlwaysComplete fun e => e.key.isSome := by
  have hkey : priceless.key = some (JsonCache.rowKey 1 7) := by decide +kernel
  have hill : ¬priceless.WellTyped := by
    intro h
    obtain ⟨text, hprice⟩ := h
    cases hprice
  refine ⟨hkey, JsonCache.not_alwaysComplete ?_ hkey hill⟩
  rw [hkey]
  rfl

end Result

end OrderService
