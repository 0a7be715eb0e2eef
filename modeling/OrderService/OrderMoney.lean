import OrderService.Broadcasts
import OrderService.LedgerEffects
import OrderService.Ownership
import OrderService.PlacementEffects
import OrderService.Services.BranchProducts

/-! The money of an order and its items. They are computed from the products that the placement was
given, of which the comparison of two lengths shows that none was asked for twice, and nothing
writes them again. -/
namespace OrderService
open ReadCommitted Interleaving

section Statement

/-- `getBranchProducts` answers what the cache and core can come to. -/
def CoreReturns (_ : Pid) (o : Op) (e : Env) (_ : World) : Prop :=
  match o with
  | .getBranchProducts branchId productIds => ReturnsProducts branchId productIds e.products
  | _ => True

structure OrderMoney where
  subtotal : Int
  deliveryFee : Int
  serviceFee : Int
  total : Int
  deriving DecidableEq

def OrderEntity.money (o : OrderEntity) : OrderMoney :=
  ⟨o.subtotal, o.deliveryFee, o.serviceFee, o.total⟩

def Db.itemsOf (db : Db) (orderId : Nat) : List OrderItemEntity :=
  db.orderItems.filter fun i => i.orderId = orderId

/-- The lines ask for what was requested, each product once, at the price that was returned for
it and within its stock. -/
structure LinesPriced (requested : List OrderItemInput) (products : List CoreBranchProduct)
    (lines : List OrderItemData) : Prop where
  asked : lines.map (fun l => (l.productId, l.quantity))
    = requested.map fun i => (i.productId, i.quantity)
  distinct : (lines.map OrderItemData.productId).Nodup
  unambiguous : (products.map CoreBranchProduct.productId).Nodup
  lineTotal : ∀ l ∈ lines, l.lineTotal = l.unitPriceSnapshot * l.quantity
  price : ∀ l ∈ lines, ∃ product ∈ products, product.productId = l.productId ∧
    l.unitPriceSnapshot = product.price ∧ l.quantity ≤ product.stock

-- The requests, and the products that were returned for them.
variable (Returned : CreateOrderRequest → List CoreBranchProduct → Prop)

/-- The sums of an order with these lines are right. -/
structure MoneyRight (money : OrderMoney) (lines : List OrderItemData) : Prop where
  total : money.total = money.subtotal + money.deliveryFee + money.serviceFee
  subtotal : money.subtotal = (lines.map OrderItemData.lineTotal).sum
  lines : ∃ dto products, Returned dto products ∧ LinesPriced dto.items products lines

/-- Every order is still there, with its money and its items. -/
def MoneyKept (db db' : Db) : Prop :=
  ∀ o ∈ db.orders, (∃ o' ∈ db'.orders, o'.id = o.id ∧ o'.money = o.money) ∧
    db'.itemsOf o.id = db.itemsOf o.id

end Statement

section Lines
variable {region : String} {orderId branchId : Nat} {products : List CoreBranchProduct}
  {items : List OrderItemInput}

theorem productOf_mem {productId : Nat} {product : CoreBranchProduct}
    (h : productOf products productId = some product) :
    product ∈ products ∧ product.productId = productId := by
  have hfound := List.find?_some h
  exact ⟨List.mem_reverse.mp (List.mem_of_find?_eq_some h), by simpa using hfound⟩

/-- An available item comes with its product. -/
theorem itemAvailable_product {item : OrderItemInput} (h : itemAvailable products item = true) :
    ∃ product ∈ products, productOf products item.productId = some product ∧
      product.productId = item.productId ∧ item.quantity ≤ product.stock := by
  unfold itemAvailable at h
  cases hproduct : productOf products item.productId with
  | none => simp [hproduct] at h
  | some product =>
    simp only [hproduct, Bool.and_eq_true, decide_eq_true_eq] at h
    obtain ⟨hmem, hid⟩ := productOf_mem hproduct
    exact ⟨product, hmem, rfl, hid, h.2⟩

theorem mem_orderLines {l : OrderItemData} (h : l ∈ orderLines region orderId products items) :
    l.orderId = orderId ∧ l.lineTotal = l.unitPriceSnapshot * l.quantity ∧
      ∃ product ∈ products, product.productId = l.productId ∧
        l.unitPriceSnapshot = product.price ∧ l.quantity ≤ product.stock := by
  obtain ⟨item, hitem, hline⟩ := List.mem_filterMap.mp h
  obtain ⟨product, hproduct, hfound, _, hstock⟩ :=
    itemAvailable_product (List.mem_filter.mp hitem).2
  rw [hfound, Option.map_some, Option.some.injEq] at hline
  subst hline
  exact ⟨rfl, rfl, product, hproduct, rfl, rfl, hstock⟩

/-- When everything is available there is a line for each item. -/
theorem orderLines_requested (h : ∀ i ∈ items, itemAvailable products i = true) :
    (orderLines region orderId products items).map (fun l => (l.productId, l.quantity))
      = items.map fun i => (i.productId, i.quantity) := by
  induction items with
  | nil => rfl
  | cons item items ih =>
    have hitem := h item List.mem_cons_self
    obtain ⟨product, _, hfound, hid, _⟩ := itemAvailable_product hitem
    have hrest := ih fun i hi => h i (List.mem_cons_of_mem item hi)
    have hcons : orderLines region orderId products (item :: items)
        = orderLine region orderId product item.quantity ::
          orderLines region orderId products items := by
      simp only [orderLines, List.filter_cons_of_pos hitem, List.filterMap_cons, hfound,
        Option.map_some]
    rw [hcons, List.map_cons, List.map_cons, hrest]
    simp only [orderLine, hid]

theorem linesPriced_orderLines
    (hproducts : ReturnsProducts branchId (items.map OrderItemInput.productId) products)
    (hlength : products.length = items.length)
    (h : ∀ i ∈ items, itemAvailable products i = true) :
    LinesPriced items products (orderLines region orderId products items) := by
  have hasked : (orderLines region orderId products items).map (fun l => (l.productId, l.quantity))
      = items.map fun i => (i.productId, i.quantity) := orderLines_requested h
  have hids : (orderLines region orderId products items).map OrderItemData.productId
      = items.map OrderItemInput.productId := by
    have hfirst := congrArg (List.map Prod.fst) hasked
    simpa [List.map_map, Function.comp_def] using hfirst
  refine ⟨hasked, ?_, hproducts.distinct.1, fun l hl => (mem_orderLines hl).2.1,
    fun l hl => (mem_orderLines hl).2.2⟩
  rw [hids]
  apply hproducts.nodup_ids
  rw [hlength, List.length_map]

theorem toData_itemRows (lines : List OrderItemData) (first : Nat) (now : Time) :
    (itemRows lines first now).map OrderItemEntity.toOrderItemData = lines := by
  unfold itemRows
  exact List.ext_getElem (by simp) (by simp)

end Lines

section Blocks
variable {Returned : CreateOrderRequest → List CoreBranchProduct → Prop} {db : Db}
  {log : List Write}

/-- The writes that insert neither an order nor an item. -/
def Write.Unpriced : Write → Prop
  | .insertOrder _ => False
  | .insertOrderItem _ => False
  | _ => True

/-- The log of a placement: an order with its items, and at most events besides. -/
structure Placement (Returned : CreateOrderRequest → List CoreBranchProduct → Prop)
    (order : OrderEntity) (items : List OrderItemEntity) (log : List Write) : Prop where
  written : ∃ events : List OutboxRow, log
    = .insertOrder order :: (items.map .insertOrderItem ++ events.map .insertOutbox)
  own : ∀ i ∈ items, i.orderId = order.id
  right : MoneyRight Returned order.money (items.map OrderItemEntity.toOrderItemData)

/-- What a commit may be. -/
def PricedBlock (Returned : CreateOrderRequest → List CoreBranchProduct → Prop)
    (log : List Write) : Prop :=
  (∀ x ∈ log, x.Unpriced) ∨ ∃ order items, Placement Returned order items log

/-- All orders are right, and all items are of orders. -/
structure MoneyInv (Returned : CreateOrderRequest → List CoreBranchProduct → Prop) (db : Db) :
    Prop where
  right : ∀ o ∈ db.orders, MoneyRight Returned o.money
    ((db.itemsOf o.id).map OrderItemEntity.toOrderItemData)
  backed : ∀ i ∈ db.orderItems, i.orderId ∈ db.orders.map OrderEntity.id

theorem moneyKept_refl (db : Db) : MoneyKept db db := fun o ho => ⟨⟨o, ho, rfl, rfl⟩, rfl⟩

theorem MoneyKept.trans {db' db'' : Db} (h : MoneyKept db db') (h' : MoneyKept db' db'') :
    MoneyKept db db'' := by
  intro o ho
  obtain ⟨⟨o', ho', hid', hmoney'⟩, hitems'⟩ := h o ho
  obtain ⟨⟨o'', ho'', hid'', hmoney''⟩, hitems''⟩ := h' o' ho'
  rw [hid'] at hitems''
  exact ⟨⟨o'', ho'', hid''.trans hid', hmoney''.trans hmoney'⟩, hitems''.trans hitems'⟩

theorem Write.Unpriced.keepsOrders {x : Write} (hx : x.Unpriced) : x.KeepsOrders := by
  cases x <;> trivial

theorem orderItems_applyAll (hlog : ∀ x ∈ log, x.Unpriced) :
    (engine.applyAll log db).orderItems = db.orderItems := by
  induction log generalizing db with
  | nil => rfl
  | cons x log ih =>
    rw [applyAll_cons, ih fun y hy => hlog y (List.mem_cons_of_mem x hy)]
    have hx := hlog x List.mem_cons_self
    cases x <;> first | rfl | exact absurd hx id

theorem money_withStatus (o : OrderEntity) (status : OrderStatus) (stamp : Option Stamp)
    (now : Time) : (o.withStatus status stamp now).money = o.money := by
  simp only [OrderEntity.money, withStatus_subtotal, withStatus_deliveryFee,
    withStatus_serviceFee, withStatus_total]

/-- Other commits leave the ids, the money and the items as they are. -/
theorem money_unpriced (hlog : ∀ x ∈ log, x.Unpriced) :
    (engine.applyAll log db).orders.map (fun o => (o.id, o.money))
      = db.orders.map fun o => (o.id, o.money) := by
  apply map_orders_applyAll
  · intro o status stamp now
    rw [withStatus_id, money_withStatus]
  · exact fun _ _ _ => rfl
  · exact fun x hx => (hlog x hx).keepsOrders

theorem exists_of_map_eq {α β : Type} {f : α → β} {as bs : List α} (h : as.map f = bs.map f)
    {a : α} (ha : a ∈ as) : ∃ b ∈ bs, f b = f a := by
  have hmem : f a ∈ bs.map f := h ▸ List.mem_map_of_mem ha
  obtain ⟨b, hb, heq⟩ := List.mem_map.mp hmem
  exact ⟨b, hb, heq⟩

theorem moneyKept_unpriced (hlog : ∀ x ∈ log, x.Unpriced) :
    MoneyKept db (engine.applyAll log db) := by
  intro o ho
  obtain ⟨o', ho', hsame⟩ := exists_of_map_eq (money_unpriced hlog).symm ho
  obtain ⟨hid, hmoney⟩ := Prod.mk.inj hsame
  exact ⟨⟨o', ho', hid, hmoney⟩, by rw [Db.itemsOf, orderItems_applyAll hlog, Db.itemsOf]⟩

theorem MoneyInv.unpriced (h : MoneyInv Returned db) (hlog : ∀ x ∈ log, x.Unpriced) :
    MoneyInv Returned (engine.applyAll log db) := by
  refine ⟨fun o ho => ?_, fun i hi => ?_⟩
  · obtain ⟨o', ho', hsame⟩ := exists_of_map_eq (money_unpriced hlog) ho
    obtain ⟨hid, hmoney⟩ := Prod.mk.inj hsame
    have hright := h.right o' ho'
    rw [hid, hmoney] at hright
    rw [Db.itemsOf, orderItems_applyAll hlog]
    exact hright
  · rw [orderItems_applyAll hlog] at hi
    have hids := map_orders_applyAll (f := OrderEntity.id) withStatus_id (fun _ _ _ => rfl)
      (fun x hx => (hlog x hx).keepsOrders) db
    rw [hids]
    exact h.backed i hi

theorem applyAll_insertItems (items : List OrderItemEntity) :
    engine.applyAll (items.map .insertOrderItem) db
      = { db with orderItems := db.orderItems ++ items } := by
  induction items generalizing db with
  | nil => simp
  | cons i items ih =>
    rw [List.map_cons, applyAll_cons, ih]
    simp [engine, Write.apply]

theorem applyAll_insertOutbox (events : List OutboxRow) :
    engine.applyAll (events.map .insertOutbox) db
      = { db with eventsOutbox := db.eventsOutbox ++ events } := by
  induction events generalizing db with
  | nil => simp
  | cons e events ih =>
    rw [List.map_cons, applyAll_cons, ih]
    simp [engine, Write.apply]

variable {order : OrderEntity} {items : List OrderItemEntity}

theorem Placement.applied (h : Placement Returned order items log) (db : Db) :
    (engine.applyAll log db).orders = db.orders ++ [order] ∧
      (engine.applyAll log db).orderItems = db.orderItems ++ items := by
  obtain ⟨events, hlog⟩ := h.written
  rw [hlog, applyAll_cons, applyAll_append, applyAll_insertItems, applyAll_insertOutbox]
  exact ⟨rfl, rfl⟩

/-- A placement leaves the items of another order alone. -/
theorem Placement.itemsOf_other (h : Placement Returned order items log) {id : Nat}
    (hid : id ≠ order.id) : (engine.applyAll log db).itemsOf id = db.itemsOf id := by
  have hnone : items.filter (fun i => i.orderId = id) = [] := by
    apply List.filter_eq_nil_iff.mpr
    intro i hi
    have horder := h.own i hi
    simp only [decide_eq_true_eq]
    omega
  rw [Db.itemsOf, (h.applied db).2, List.filter_append, hnone, List.append_nil, Db.itemsOf]

theorem Placement.itemsOf_self (h : Placement Returned order items log)
    (hnew : ∀ i ∈ db.orderItems, i.orderId ≠ order.id) :
    (engine.applyAll log db).itemsOf order.id = items := by
  have hnone : db.orderItems.filter (fun i => i.orderId = order.id) = [] :=
    List.filter_eq_nil_iff.mpr fun i hi => by simpa using hnew i hi
  have hall : items.filter (fun i => i.orderId = order.id) = items :=
    List.filter_eq_self.mpr fun i hi => by simpa using h.own i hi
  rw [Db.itemsOf, (h.applied db).2, List.filter_append, hnone, hall, List.nil_append]

/-- An order with a new id leaves the others as they are, and is right itself. -/
theorem MoneyInv.placement (h : MoneyInv Returned db)
    (hplaced : Placement Returned order items log)
    (hnew : order.id ∉ db.orders.map OrderEntity.id) :
    MoneyInv Returned (engine.applyAll log db) ∧ MoneyKept db (engine.applyAll log db) := by
  obtain ⟨horders, hitems⟩ := hplaced.applied db
  have hother : ∀ o ∈ db.orders, (engine.applyAll log db).itemsOf o.id = db.itemsOf o.id := by
    intro o ho
    apply hplaced.itemsOf_other
    intro heq
    exact hnew (heq ▸ List.mem_map_of_mem ho)
  refine ⟨⟨fun o ho => ?_, fun i hi => ?_⟩, fun o ho => ⟨⟨o, ?_, rfl, rfl⟩, hother o ho⟩⟩
  · rw [horders] at ho
    rcases List.mem_append.mp ho with ho | ho
    · rw [hother o ho]
      exact h.right o ho
    · have hself : (engine.applyAll log db).itemsOf order.id = items := by
        apply hplaced.itemsOf_self
        intro i hi heq
        exact hnew (heq ▸ h.backed i hi)
      rw [List.mem_singleton.mp ho, hself]
      exact hplaced.right
  · rw [horders, List.map_append, List.mem_append]
    rw [hitems] at hi
    rcases List.mem_append.mp hi with hi | hi
    · exact .inl (h.backed i hi)
    · exact .inr (by rw [hplaced.own i hi]; exact List.mem_singleton_self _)
  · rw [horders]
    exact List.mem_append_left _ ho

/-- A run of commits, none of which gives out an id twice. -/
theorem MoneyInv.blocks {bs : List (Pid × List Write)} (h : MoneyInv Returned db)
    (hbs : ∀ b ∈ bs, PricedBlock Returned b.2)
    (hnodup : ((engine.applyAll (bs.flatMap Prod.snd) db).orders.map OrderEntity.id).Nodup) :
    MoneyInv Returned (engine.applyAll (bs.flatMap Prod.snd) db) ∧
      MoneyKept db (engine.applyAll (bs.flatMap Prod.snd) db) := by
  induction bs generalizing db with
  | nil => exact ⟨h, moneyKept_refl db⟩
  | cons b bs ih =>
    rw [List.flatMap_cons, applyAll_append] at hnodup ⊢
    have hfirst : ((engine.applyAll b.2 db).orders.map OrderEntity.id).Nodup := by
      have hids := orderSerial.ids_applyAll (bs.flatMap Prod.snd) (engine.applyAll b.2 db)
      have hall : (orderSerial.ids (engine.applyAll (bs.flatMap Prod.snd)
        (engine.applyAll b.2 db))).Nodup := hnodup
      rw [hids] at hall
      exact hall.of_append_left
    have hstep : MoneyInv Returned (engine.applyAll b.2 db) ∧
        MoneyKept db (engine.applyAll b.2 db) := by
      rcases hbs b List.mem_cons_self with hplain | ⟨order, items, hplaced⟩
      · exact ⟨h.unpriced hplain, moneyKept_unpriced hplain⟩
      · apply h.placement hplaced
        have hids := hfirst
        rw [(hplaced.applied db).1, List.map_append, List.nodup_append] at hids
        intro hmem
        exact hids.2.2 _ hmem order.id (List.mem_singleton_self _) rfl
    have hrest := ih hstep.1 (fun c hc => hbs c (List.mem_cons_of_mem b hc)) hnodup
    exact ⟨hrest.1, hstep.2.trans hrest.2⟩

end Blocks

section Placements
variable {Returned : CreateOrderRequest → List CoreBranchProduct → Prop} {before db : Db}
  {history : List (Pid × List Write)} {ok : Pid → Op → Env → World → Prop} {p : Pid} {w : World}
  {log : List Write}

/-- Every commit is priced. -/
structure PricedInv (Returned : CreateOrderRequest → List CoreBranchProduct → Prop)
    (before db : Db) (history : List (Pid × List Write)) : Prop where
  reached : db = engine.applyAll (history.flatMap Prod.snd) before
  blocks : ∀ b ∈ history, PricedBlock Returned b.2

theorem PricedInv.commit (h : PricedInv Returned before db history)
    (hlog : PricedBlock Returned log) :
    PricedInv Returned before (engine.applyAll log db) (history ++ [(p, log)]) := by
  refine ⟨?_, fun b hb => ?_⟩
  · rw [List.flatMap_append, applyAll_append, ← h.reached]
    simp
  · rcases List.mem_append.mp hb with hb | hb
    · exact h.blocks b hb
    · rw [List.mem_singleton.mp hb]
      exact hlog

theorem priced_keptBy : KeptBy (PricedInv Returned before) p Write.Unpriced :=
  fun _ _ _ h hlog => h.commit (.inl hlog)

theorem events_of_forall {ws : List Write} (h : ∀ x ∈ ws, ∃ row, x = .insertOutbox row) :
    ∃ events : List OutboxRow, ws = events.map .insertOutbox := by
  induction ws with
  | nil => exact ⟨[], rfl⟩
  | cons x ws ih =>
    obtain ⟨row, hrow⟩ := h x List.mem_cons_self
    obtain ⟨events, hevents⟩ := ih fun y hy => h y (List.mem_cons_of_mem x hy)
    exact ⟨row :: events, by rw [hrow, hevents, List.map_cons]⟩

/-- The transaction of a placement commits the order, its lines and at most an event. -/
theorem wp_insertOrder_priced {data : OrderData} {lines : Nat → List OrderItemData}
    (hright : ∀ id, MoneyRight Returned ⟨data.subtotal, data.deliveryFee, data.serviceFee,
      data.total⟩ (lines id))
    (hown : ∀ id, ∀ l ∈ lines id, l.orderId = id) (htxn : w.store.txn p = .active [])
    {P : OrderEntity × List OrderItemEntity → World → Prop}
    (hP : ∀ a v, (∀ log, v.store.txn p ≠ .active log) → P a v) :
    wp machine ok (sharedSpec (PricedInv Returned before)) p (insertOrder data lines) (OnOk P)
      w := by
  have hS := sharedSpec_isolated (PricedInv Returned before) p
  unfold insertOrder createOrder bulkInsertItems
  apply wp_seq
  apply wp_seq
  apply wp_now_ok hS
  intro v₁ hr₁ _
  have htxn₁ : v₁.store.txn p = .active [] := (hS.sees w v₁ hr₁).1.txn.trans htxn
  apply wp_trx_ok hS htxn₁
  intro v₂ _ order _ _ htxn₂ _ _ hreply
  have hinserted : (v₂.inTrx p (.createOrder data v₁.clock)).writes = [.insertOrder order] ∧
      order.money = ⟨data.subtotal, data.deliveryFee, data.serviceFee, data.total⟩ := by
    simp only [World.inTrx, Sql.eval] at hreply ⊢
    cases howner : data.restaurantOwnerId with
    | none =>
      rw [howner] at hreply
      cases hreply
    | some ownerId =>
      simp only [howner, writing, Except.ok.injEq] at hreply
      rw [← hreply]
      exact ⟨rfl, rfl⟩
  have htxn₃ : (v₂.queried p (.createOrder data v₁.clock)).store.txn p
      = .active [.insertOrder order] := by
    rw [World.queried_txn_of_log htxn₂, hinserted.1]
    rfl
  apply wp_seq
  apply wp_seq
  apply wp_now_ok hS
  intro v₄ hr₄ _
  have htxn₄ := (hS.sees _ v₄ hr₄).1.txn.trans htxn₃
  apply wp_trx_ok hS htxn₄
  intro v₅ _ items _ _ htxn₅ _ _ hitems
  have hrows : (v₅.inTrx p (.bulkInsertItems (lines order.id) v₄.clock)).writes
      = items.map .insertOrderItem ∧
      items.map OrderItemEntity.toOrderItemData = lines order.id := by
    simp only [World.inTrx, Sql.eval] at hitems ⊢
    split_ifs at hitems ⊢ with hall
    simp only [writing, Except.ok.injEq] at hitems ⊢
    rw [← hitems]
    exact ⟨rfl, toData_itemRows _ _ _⟩
  have htxn₆ : (v₅.queried p (.bulkInsertItems (lines order.id) v₄.clock)).store.txn p
      = .active (.insertOrder order :: items.map .insertOrderItem) := by
    rw [World.queried_txn_of_log htxn₅, hrows.1]
    rfl
  apply wp_seq
  have hevent : (onlyIf (order.status = .placed)
      (insertOutboxEvent .trx (orderPlacedEvent order items))).Calls
      (Op.Appends fun x => ∃ row, x = .insertOutbox row) (fun _ _ => True) fun _ => True := by
    refine calls_onlyIf (calls_sql ?_ fun _ _ => trivial)
    intro x hx
    obtain ⟨id, clock, hrow⟩ := hx
    exact ⟨_, hrow⟩
  apply wp_mono _ (wp_appends (F := fun _ => True) hS (fun _ ho => ho) hevent
    (fun _ _ _ _ => trivial) (fun _ _ _ _ _ _ _ _ _ _ => ⟨trivial, fun _ _ => trivial⟩) htxn₆
    trivial)
  intro r v₇ hv₇
  cases r with
  | error err => trivial
  | ok _ =>
  obtain ⟨_, _, ws, htxn₇, hws⟩ := hv₇
  apply wp_seq
  apply wp_commit_shared htxn₇
  intro v₈ _ hi₈ _
  refine ⟨hi₈.2.commit (.inr ⟨order, items, ?_, fun i hi => ?_, ?_⟩), hP _ _ fun log => ?_⟩
  · obtain ⟨events, hevents⟩ := events_of_forall hws
    exact ⟨events, by rw [hevents, List.cons_append]⟩
  · apply hown order.id
    rw [← hrows.2]
    exact List.mem_map_of_mem hi
  · rw [hinserted.2, hrows.2]
    exact hright order.id
  · simp [World.committed]

variable {cfg : Config} {actor : ActorContext} {dto : CreateOrderRequest}

theorem wp_submitOrder_priced {resolvedRegion : String} {branch : Branch}
    {address : CoreCustomerAddress} {products : List CoreBranchProduct}
    (hreturned : Returned dto products)
    (hproducts : ReturnsProducts dto.branchId (dto.items.map OrderItemInput.productId) products)
    (hlength : products.length = dto.items.length)
    (havailable : ∀ i ∈ dto.items, itemAvailable products i = true) :
    wp machine ok (sharedSpec (PricedInv Returned before)) p
      (submitOrder cfg actor resolvedRegion branch address products dto)
      (OnOk fun _ _ => True) w := by
  have hS := sharedSpec_isolated (PricedInv Returned before) p
  unfold submitOrder
  apply wp_seq
  apply wp_outer_ok hS rfl
  intro _ _ publicId _ _ _ _ _ _ _ _ _
  apply wp_seq
  apply wp_outer_ok hS rfl
  intro _ _ _ _ _ _ _ _ _ _ _ _
  apply wp_seq
  apply wp_start_ok hS
  intro v₁ _ _ _
  apply wp_seq
  apply wp_catch_ok
  · apply wp_insertOrder_priced _ _ (World.start_txn v₁ p)
    · intro placed v₂ hclosed
      exact wp_pooled priced_keptBy (calls_afterPlacement fun _ => trivial) hclosed
    · -- The subtotal is summed before the order has an id.
      intro id
      refine ⟨rfl, subtotalOf_orderLines resolvedRegion 0 id products dto.items, dto, products,
        hreturned, linesPriced_orderLines hproducts hlength havailable⟩
    · exact fun id l hl => (mem_orderLines hl).1
  · intro err v
    apply wp_seq
    apply wp_rollback hS
    intro v₂ _ _ _
    apply wp_seq
    apply wp_outside hS _ fun _ _ => trivial
    exact Prog.calls_catch (calls_outer rfl) fun _ => trivial

theorem available_of_isEmpty {products : List CoreBranchProduct}
    (h : (unavailableItems products dto.items).isEmpty = true) :
    ∀ i ∈ dto.items, itemAvailable products i = true := by
  intro i hi
  rw [List.isEmpty_iff] at h
  have hnone := List.filter_eq_nil_iff.mp (List.map_eq_nil_iff.mp h) i hi
  simpa using hnone

/-- A placement prices what it commits by the products that it was given. -/
theorem wp_placeOrder_priced {region : Option String}
    (hcore : ∀ e v, ok p (.getBranchProducts dto.branchId (dto.items.map OrderItemInput.productId))
      e v → e.fail = false → ReturnsProducts dto.branchId
        (dto.items.map OrderItemInput.productId) e.products ∧ Returned dto e.products) :
    wp machine ok (sharedSpec (PricedInv Returned before)) p (placeOrder cfg actor region dto)
      (OnOk fun _ _ => True) w := by
  have hS := sharedSpec_isolated (PricedInv Returned before) p
  unfold placeOrder
  apply wp_seq
  apply wp_outside hS (calls_outer rfl)
  intro branch v₁
  split_ifs
  · trivial
  apply wp_seq
  apply wp_outside hS (calls_outer rfl)
  intro flag v₂
  split_ifs
  · trivial
  apply wp_seq
  apply wp_fromExcept
  intro resolved _
  split_ifs
  · trivial
  apply wp_seq
  apply wp_outside hS (calls_outer rfl)
  intro address v₃
  split_ifs
  · trivial
  apply wp_seq
  apply wp_outer_ok hS rfl
  intro v₄ e products v₅ _ _ hok hx _ _ _ _
  have hanswer : e.fail = false ∧ products = e.products := by
    simp only [exec, Option.some.injEq, Prod.mk.injEq] at hx
    by_cases hfail : e.fail = true
    · simp [hfail] at hx
    · simp only [hfail, Bool.false_eq_true, if_false, Except.ok.injEq] at hx
      exact ⟨Bool.eq_false_iff.mpr hfail, hx.1.symm⟩
  obtain ⟨hreturns, hreturned⟩ := hcore e v₄ hok hanswer.1
  rw [← hanswer.2] at hreturns hreturned
  split_ifs with hlength havailable
  · trivial
  · exact wp_submitOrder_priced hreturned hreturns (by omega) (available_of_isEmpty havailable)
  · trivial

end Placements

section Runs
variable (hmacSha256 : String → String → String) (cfg : Config)

/-- What `p` was given for its placement on the way from `s` to `t`. -/
def ReturnedBetween (work : Pid → Option Work) (s t : Sys Pid Op Op.Res Err World Unit)
    (dto : CreateOrderRequest) (products : List CoreBranchProduct) : Prop :=
  ∃ p actor region e w, work p = some (.call (.placeOrder actor region dto)) ∧
    machine.Happened CoreReturns s t p
      (.getBranchProducts dto.branchId (dto.items.map OrderItemInput.productId)) e w ∧
    e.fail = false ∧ e.products = products

theorem unpriced_of_mayWrite {c : Call} (hplace : ∀ actor region dto,
    c ≠ .placeOrder actor region dto) {x : Write} (h : c.MayWrite x) : x.Unpriced := by
  cases c with
  | placeOrder actor region dto => exact absurd rfl (hplace actor region dto)
  | webhook rawBody signature region => cases x <;> trivial
  | updateStatus actor dto region orderId => cases x <;> trivial
  | claim publicId agentId region | adminAssign publicId agentId region =>
    obtain ⟨now, rfl⟩ := h
    trivial
  | agentUpdateStatus publicId agentId region action =>
    cases action with
    | picked =>
      obtain ⟨_, _, _, rfl⟩ := h
      trivial
    | delivered =>
      rcases h with ⟨_, _, _, rfl⟩ | ⟨order, hx⟩
      · trivial
      · cases hx <;> trivial
    | _ => exact absurd h id
  | recordPayout input => cases x <;> trivial
  | refundPayment input => cases x <;> trivial

theorem wp_unpriced {Returned : CreateOrderRequest → List CoreBranchProduct → Prop} {before : Db}
    {ok : Pid → Op → Env → World → Prop} {p : Pid} {w : World} (hlog : w.log p = [])
    {α : Type} {prog : Svc α} (h : Within Write.Unpriced prog) :
    wp machine ok (sharedSpec (PricedInv Returned before)) p prog (OnOk fun _ _ => True) w := by
  have hempty : ∀ x ∈ w.log p, x.Unpriced := by
    intro x hx
    rw [hlog] at hx
    cases hx
  apply wp_mono _ (wp_harmless h priced_keptBy (fun _ _ _ _ _ _ _ _ _ => trivial) hempty)
  intro r w' _
  cases r <;> trivial

/-- All of them but a placement leave orders and items alone. -/
theorem wp_work_priced {work : Pid → Option Work} {s t : Sys Pid Op Op.Res Err World Unit}
    {p : Pid} {job : Work} (hjob : work p = some job) {w : World} (hlog : w.log p = []) :
    wp machine (fun p o e w => CoreReturns p o e w ∧ machine.Happened CoreReturns s t p o e w)
      (sharedSpec (PricedInv (ReturnedBetween work s t) s.world.store.db)) p
      (job.prog hmacSha256 cfg) (OnOk fun _ _ => True) w := by
  cases job with
  | updatePosition publicId agentId => exact wp_unpriced hlog within_updatePosition
  | tickRegion region =>
    exact wp_unpriced hlog (within_do within_tickRegion fun _ => trivial)
  | rejectOffer publicId agentId => exact wp_unpriced hlog within_rejectOffer
  | call c =>
    by_cases hplace : ∃ actor region dto, c = .placeOrder actor region dto
    · obtain ⟨actor, region, dto, rfl⟩ := hplace
      apply wp_seq
      apply wp_seq
      apply wp_mono _ (wp_placeOrder_priced ?_)
      · intro r w' _
        cases r <;> trivial
      · intro e v hok hfail
        exact ⟨hok.1, p, actor, region, e, v, hjob, hok.2, hfail, rfl⟩
    · have hother : ∀ actor region dto, c ≠ .placeOrder actor region dto :=
        fun actor region dto heq => hplace ⟨actor, region, dto, heq⟩
      apply wp_unpriced hlog
      refine within_do ?_ fun _ => trivial
      exact (within_mayWrite hmacSha256 cfg c).weaken fun o ho => by
        cases o with
        | sql c q => exact fun x hx => unpriced_of_mayWrite hother (ho x hx)
        | _ => trivial

theorem history_grows {ok : Pid → Op → Env → World → Prop} {α : Type}
    {t u : Sys Pid Op Op.Res Err World α} (h : machine.Reaches ok t u) :
    ∃ bs, u.world.store.history = t.world.store.history ++ bs := by
  refine Machine.Reaches.keeps ?_ ?_ ?_ ⟨[], (List.append_nil _).symm⟩ h
    (J := fun w => ∃ bs, w.store.history = t.world.store.history ++ bs)
  · intro p o e w r w' hw hx
    obtain ⟨bs, hbs⟩ := hw
    obtain ⟨cs, hcs, _⟩ := exec_history hx
    exact ⟨bs ++ cs, by rw [hcs, hbs, List.append_assoc]⟩
  · exact fun p w hw => hw
  · intro x w hw
    cases x <;> exact hw

/-- In every interleaving of all operations the sums of every order are right, its items are
different products at the prices that were returned for them, and they stay as they are. -/
theorem order_money (w : World) (hw : w.AtRest) (horders : w.store.db.orders = [])
    (hitems : w.store.db.orderItems = []) (hstarted : 0 < w.seqs.orders)
    (work : Pid → Option Work) {t : Sys Pid Op Op.Res Err World Unit}
    (h : machine.Reaches CoreReturns (working hmacSha256 cfg work w) t) :
    (∀ o ∈ t.world.store.db.orders,
      MoneyRight (ReturnedBetween work (working hmacSha256 cfg work w) t) o.money
        ((t.world.store.db.itemsOf o.id).map OrderItemEntity.toOrderItemData)) ∧
    ∀ u, machine.Reaches CoreReturns t u →
      MoneyKept t.world.store.db u.world.store.db := by
  have hpriced : ∀ v, machine.Reaches CoreReturns (working hmacSha256 cfg work w) v →
      PricedInv (ReturnedBetween work (working hmacSha256 cfg work w) v) w.store.db
        v.world.store.db v.world.store.history := by
    intro v hv
    apply shared_reaches (s := working hmacSha256 cfg work w) hw ⟨rfl, by simp⟩ _ hv.happened
    intro p prog hprog
    obtain ⟨job, hjob, rfl⟩ := Option.map_eq_some_iff.mp hprog
    apply wp_work_priced hmacSha256 cfg hjob
    change (w.store.txn p).log = []
    rw [hw.txn p]
    rfl
  have hnodup : ∀ v, machine.Reaches CoreReturns (working hmacSha256 cfg work w) v →
      (v.world.store.db.orders.map OrderEntity.id).Nodup := by
    intro v hv
    have hnumbered : orderSerial.Numbered w := by
      apply orderSerial.numbered_atRest hw hstarted <;> simp [orderSerial, horders]
    exact (orderSerial.numbered_reaches (s := working hmacSha256 cfg work w) hnumbered hv).nodup
  have hbegin : ∀ Returned, MoneyInv Returned w.store.db := by
    intro Returned
    refine ⟨fun o ho => ?_, fun i hi => ?_⟩
    · rw [horders] at ho
      cases ho
    · rw [hitems] at hi
      cases hi
  have hinv := hpriced t h
  refine ⟨?_, fun u hu => ?_⟩
  · have hids := hnodup t h
    rw [hinv.reached] at hids ⊢
    exact ((hbegin _).blocks hinv.blocks hids).1.right
  · -- What was committed until `t` is right in the longer run as well.
    have hsu := h.trans hu
    have hlater := hpriced u hsu
    obtain ⟨bs, hbs⟩ := history_grows hu
    have hfirst : ∀ b ∈ t.world.store.history, PricedBlock
        (ReturnedBetween work (working hmacSha256 cfg work w) u) b.2 := by
      intro b hb
      apply hlater.blocks
      rw [hbs]
      exact List.mem_append_left _ hb
    have hids := hnodup t h
    rw [hinv.reached] at hids
    have hright := ((hbegin _).blocks hfirst hids).1
    rw [← hinv.reached] at hright
    have hdb : u.world.store.db
        = engine.applyAll (bs.flatMap Prod.snd) t.world.store.db := by
      rw [hlater.reached, hbs, List.flatMap_append, applyAll_append, ← hinv.reached]
    have hidsu := hnodup u hsu
    rw [hdb] at hidsu ⊢
    refine (hright.blocks (fun b hb => hlater.blocks b ?_) hidsu).2
    rw [hbs]
    exact List.mem_append_right _ hb

end Runs

section Samples

def coreReturns : Pid → Op → Env → World → Bool := fun _ o e _ =>
  match o with
  | .getBranchProducts _ ids => decide (e.products.map CoreBranchProduct.productId).Nodup &&
      e.products.all fun product => ids.contains product.productId
  | _ => true

theorem coreReturns_of_check (p : Pid) (o : Op) (e : Env) (w : World)
    (h : coreReturns p o e w = true) : CoreReturns p o e w := by
  cases o with
  | getBranchProducts branchId ids =>
    simp only [coreReturns, Bool.and_eq_true, decide_eq_true_eq, List.all_eq_true,
      List.contains_iff_mem] at h
    exact returnsProducts_of_distinct h.1 h.2
  | _ => trivial

/-- Two plates of koshary and a juice are ordered for cash, and the restaurant accepts. -/
def twoDishes : Pid → Option Work
  | 0 => some (.call (.placeOrder ⟨5, .other "customer", none, none, none⟩ (some "eg")
      ⟨1, 1, .cod, [⟨3, 2⟩, ⟨4, 1⟩]⟩))
  | 1 => some (.call (.updateStatus restaurantOwner ⟨.accepted, none⟩ "eg" "order-1"))
  | _ => none

def twoDishesAnswers : Env := { kosharyAnswers with
  products := [⟨4, "juice", none, 2500, 9, true⟩, ⟨3, "koshary", none, 10000, 4, true⟩] }

theorem order_money_two_dishes :
    ∃ t, machine.run coreReturns
        (List.replicate 15 (.act 0 twoDishesAnswers) ++ List.replicate 9 (.act 1 {}))
        (working (fun _ _ => "") sampleConfig twoDishes { store := Store.ofDb {} }) = some t ∧
      t.world.store.db.orders.map (fun o => (o.status, o.subtotal, o.total))
        = [(.accepted, 22500, 25000)] ∧
      ∀ o ∈ t.world.store.db.orders, MoneyRight (ReturnedBetween twoDishes
        (working (fun _ _ => "") sampleConfig twoDishes { store := Store.ofDb {} }) t) o.money
        ((t.world.store.db.itemsOf o.id).map OrderItemEntity.toOrderItemData) := by
  have hrun : ((machine.run coreReturns
      (List.replicate 15 (.act 0 twoDishesAnswers) ++ List.replicate 9 (.act 1 {}))
      (working (fun _ _ => "") sampleConfig twoDishes { store := Store.ofDb {} })).any fun t =>
      t.world.store.db.orders.map (fun o => (o.status, o.subtotal, o.total))
        = [(.accepted, 22500, 25000)]) = true := by
    decide +kernel
  obtain ⟨t, ht, horder⟩ := (Option.any_eq_true _ _).mp hrun
  exact ⟨t, ht, of_decide_eq_true horder, (order_money _ sampleConfig { store := Store.ofDb {} }
    ⟨rfl, fun _ => rfl, rfl⟩ rfl rfl (by decide) twoDishes
    (Machine.reaches_of_run coreReturns_of_check _ ht)).1⟩

end Samples

end OrderService
