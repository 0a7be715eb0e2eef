import OrderService.ArchivalOrphans
import OrderService.Interleaving.Trimmed
import OrderService.Rows
import OrderService.WebhookSpec

/-! Tables from which the worker took rows away: which rows a statement looks at, and that it does
the same as long as those are there. -/
namespace OrderService
open ReadCommitted Interleaving

section Statement

/-- The rows of the worker's tables on which the answer and the effect of a statement rest: those
that its `WHERE` or its unique index finds, and of a `LIMIT 1` the one that comes back. -/
def Sql.found (db : Db) : Sql → List ArchivalRow
  | .findOrderByPublicId publicId => (db.orders.filter fun o => o.publicId = publicId).map .order
  | .findOrderById id => (db.orders.filter fun o => o.id = id).map .order
  | .updateOrderStatus publicId _ _ _ =>
    (db.orders.filter fun o => o.publicId = publicId).map .order
  | .claimReadyOrderForAgent publicId _ _ =>
    (db.orders.filter fun o => o.publicId = publicId ∧ o.claimable).map .order
  | .findOrdersByDeliveryAgent agentId statuses _ =>
    (db.orders.filter fun o =>
      o.deliveryAgentId = some agentId && statuses.contains o.status).map .order
  | .findReadyUnassigned _ => (db.orders.filter OrderEntity.claimable).map .order
  | .findRestaurantOwnerId restaurantId region =>
    ((firstDesc OrderEntity.createdAt (db.orders.filter fun o =>
      o.restaurantId = restaurantId && o.region = region)).map .order).toList
  | .findItemsByOrderIds orderIds =>
    (db.orderItems.filter fun i => orderIds.contains i.orderId).map .orderItem
  | .createPaymentSession data _ =>
    (db.paymentSessions.filter fun s =>
      s.providerSessionId = data.providerSessionId).map .paymentSession
  | .findPaymentSessionByOrderId orderId =>
    ((firstDesc PaymentSessionEntity.id (db.paymentSessions.filter fun s =>
      s.orderId = orderId && (s.status = .initialized || s.status = .pending))).map
        .paymentSession).toList
  | .updatePaymentSessionStatus id _ _ =>
    (db.paymentSessions.filter fun s => s.id = id).map .paymentSession
  | .insertWebhookEvent data _ =>
    (db.webhookEvents.filter fun e => e.providerId = data.providerId &&
      e.providerEventId = data.providerEventId).map .webhookEvent
  | .updateWebhookEventStatus id _ _ =>
    (db.webhookEvents.filter fun e => e.id = id).map .webhookEvent
  | .createTransaction data _ =>
    ((orNullText data.idempotencyKey).map fun key =>
      (db.transactions.filter fun t => t.idempotencyKey = some key).map .transaction).getD []
  | .findTransactionById id => (db.transactions.filter fun t => t.id = id).map .transaction
  | .findTransactionByProviderReference refId =>
    (db.transactions.filter fun t => t.providerReferenceId = some refId).map .transaction
  | .findTransactionByOrderAndType orderId transactionType =>
    (db.transactions.filter fun t =>
      t.orderId = some orderId && t.transactionType = transactionType).map .transaction
  | .findTransactionByIdempotencyKey key =>
    (db.transactions.filter fun t => t.idempotencyKey = some key).map .transaction
  | .updateTransactionStatus id _ _ =>
    (db.transactions.filter fun t => t.id = id).map .transaction
  | .markTransactionAsRefunded id _ =>
    (db.transactions.filter fun t => t.id = id).map .transaction
  | .insertEarning data =>
    (db.agentEarnings.filter fun e => e.orderId = data.orderId).map .agentEarning
  | .findEarningByOrder orderId =>
    (db.agentEarnings.filter fun e => e.orderId = orderId).map .agentEarning
  | _ => []

/-- The second tables are the first ones without some of the rows that are gone. -/
structure Trims (gone : List ArchivalRow) (db db' : Db) : Prop where
  orders : Trimmed (fun r => .order r ∈ gone) db.orders db'.orders
  orderItems : Trimmed (fun r => .orderItem r ∈ gone) db.orderItems db'.orderItems
  paymentSessions :
    Trimmed (fun r => .paymentSession r ∈ gone) db.paymentSessions db'.paymentSessions
  transactions : Trimmed (fun r => .transaction r ∈ gone) db.transactions db'.transactions
  agentEarnings : Trimmed (fun r => .agentEarning r ∈ gone) db.agentEarnings db'.agentEarnings
  webhookEvents : Trimmed (fun r => .webhookEvent r ∈ gone) db.webhookEvents db'.webhookEvents
  paymentProviders : db'.paymentProviders = db.paymentProviders
  restaurantBalances : db'.restaurantBalances = db.restaurantBalances
  eventsOutbox : db'.eventsOutbox = db.eventsOutbox
  held : ∀ row ∈ gone, ∃ table, row ∈ db.rows table

/-- The write changes the row, wherever it stands. -/
def Write.touches : Write → ArchivalRow → Prop
  | .setOrderStatus publicId _ _ _, .order o => o.publicId = publicId
  | .assignOrder publicId _ _, .order o => o.publicId = publicId ∧ o.claimable
  | .setSessionStatus id _ _, .paymentSession s => s.id = id
  | .setTransactionStatus id _ _, .transaction t => t.id = id
  | .markRefunded id _, .transaction t => t.id = id
  | .setWebhookEvent id _ _, .webhookEvent e => e.id = id
  | _, _ => False

end Statement

section Writes
variable {gone : List ArchivalRow} {db db' : Db} {x : Write}

theorem Trims.refl (db : Db) : Trims [] db db where
  orders := .refl _ _
  orderItems := .refl _ _
  paymentSessions := .refl _ _
  transactions := .refl _ _
  agentEarnings := .refl _ _
  webhookEvents := .refl _ _
  paymentProviders := rfl
  restaurantBalances := rfl
  eventsOutbox := rfl
  held := fun _ h => by cases h

theorem mem_map_fixed {α : Type} {l : List α} {f : α → α} {C : α → ArchivalRow} {row : ArchivalRow}
    (h : row ∈ l.map C) (hf : ∀ a, C a = row → f a = a) : row ∈ (l.map f).map C := by
  obtain ⟨a, ha, hrow⟩ := List.mem_map.mp h
  refine List.mem_map.mpr ⟨a, List.mem_map.mpr ⟨a, ha, hf a hrow⟩, hrow⟩

theorem mem_map_append {α : Type} {l l' : List α} {C : α → ArchivalRow} {row : ArchivalRow}
    (h : row ∈ l.map C) : row ∈ (l ++ l').map C := by
  rw [List.map_append]
  exact List.mem_append_left _ h

/-- A row that a write does not touch stays where it is. -/
theorem held_apply {row : ArchivalRow} (h : ∃ table, row ∈ db.rows table) (hx : ¬x.touches row) :
    ∃ table, row ∈ (engine.apply x db).rows table := by
  obtain ⟨table, hrow⟩ := h
  refine ⟨table, ?_⟩
  cases x with
  | insertOrder new => cases table <;> first | exact hrow | exact mem_map_append hrow
  | insertOrderItem new => cases table <;> first | exact hrow | exact mem_map_append hrow
  | insertSession new => cases table <;> first | exact hrow | exact mem_map_append hrow
  | insertTransaction new => cases table <;> first | exact hrow | exact mem_map_append hrow
  | insertEarning new => cases table <;> first | exact hrow | exact mem_map_append hrow
  | insertWebhookEvent new => cases table <;> first | exact hrow | exact mem_map_append hrow
  | setOrderStatus publicId status stamp now =>
    cases table with
    | orders =>
      refine mem_map_fixed hrow fun o ho => ?_
      subst ho
      exact if_neg hx
    | _ => exact hrow
  | assignOrder publicId agentId now =>
    cases table with
    | orders =>
      refine mem_map_fixed hrow fun o ho => ?_
      subst ho
      exact if_neg hx
    | _ => exact hrow
  | setSessionStatus id status now =>
    cases table with
    | paymentSessions =>
      refine mem_map_fixed hrow fun s hs => ?_
      subst hs
      exact if_neg hx
    | _ => exact hrow
  | setTransactionStatus id status now =>
    cases table with
    | transactions =>
      refine mem_map_fixed hrow fun t ht => ?_
      subst ht
      exact if_neg hx
    | _ => exact hrow
  | markRefunded id now =>
    cases table with
    | transactions =>
      refine mem_map_fixed hrow fun t ht => ?_
      subst ht
      exact if_neg hx
    | _ => exact hrow
  | setWebhookEvent id processedAt processError =>
    cases table with
    | paymentWebhookEvents =>
      refine mem_map_fixed hrow fun e he => ?_
      subst he
      exact if_neg hx
    | _ => exact hrow
  | _ => exact hrow

theorem trims_apply (h : Trims gone db db') (hx : ∀ row ∈ gone, ¬x.touches row) :
    Trims gone (engine.apply x db) (engine.apply x db') := by
  have hheld : ∀ row ∈ gone, ∃ table, row ∈ (engine.apply x db).rows table :=
    fun row hrow => held_apply (h.held row hrow) (hx row hrow)
  cases x with
  | insertOrder row =>
    exact { h with orders := h.orders.append (.refl _ _), held := hheld }
  | setOrderStatus publicId status stamp now =>
    refine { h with orders := h.orders.map fun o ho => ?_, held := hheld }
    exact if_neg (hx (.order o) ho)
  | assignOrder publicId agentId now =>
    refine { h with orders := h.orders.map fun o ho => ?_, held := hheld }
    exact if_neg (hx (.order o) ho)
  | insertOrderItem row =>
    exact { h with orderItems := h.orderItems.append (.refl _ _), held := hheld }
  | insertSession row =>
    exact { h with paymentSessions := h.paymentSessions.append (.refl _ _), held := hheld }
  | setSessionStatus id status now =>
    refine { h with paymentSessions := h.paymentSessions.map fun s hs => ?_, held := hheld }
    exact if_neg (hx (.paymentSession s) hs)
  | insertTransaction row =>
    exact { h with transactions := h.transactions.append (.refl _ _), held := hheld }
  | setTransactionStatus id status now =>
    refine { h with transactions := h.transactions.map fun t ht => ?_, held := hheld }
    exact if_neg (hx (.transaction t) ht)
  | markRefunded id now =>
    refine { h with transactions := h.transactions.map fun t ht => ?_, held := hheld }
    exact if_neg (hx (.transaction t) ht)
  | addBalance restaurantId region currency delta =>
    refine { h with restaurantBalances := ?_, held := hheld }
    simp only [engine, Write.apply, h.restaurantBalances]
  | insertEarning row =>
    exact { h with agentEarnings := h.agentEarnings.append (.refl _ _), held := hheld }
  | insertWebhookEvent row =>
    exact { h with webhookEvents := h.webhookEvents.append (.refl _ _), held := hheld }
  | setWebhookEvent id processedAt processError =>
    refine { h with webhookEvents := h.webhookEvents.map fun e he => ?_, held := hheld }
    exact if_neg (hx (.webhookEvent e) he)
  | insertOutbox row =>
    refine { h with eventsOutbox := ?_, held := hheld }
    simp only [engine, Write.apply, h.eventsOutbox]

theorem trims_applyAll {log : List Write} (h : Trims gone db db')
    (hlog : ∀ x ∈ log, ∀ row ∈ gone, ¬x.touches row) :
    Trims gone (engine.applyAll log db) (engine.applyAll log db') := by
  induction log generalizing db db' with
  | nil => exact h
  | cons x log ih =>
    exact ih (trims_apply h (hlog x List.mem_cons_self)) fun y hy =>
      hlog y (List.mem_cons_of_mem x hy)

end Writes

section Statements
variable {gone : List ArchivalRow} {db db' : Db} {α : Type}

theorem firstDesc_max {key : α → Nat} {l : List α} {b : α} (h : firstDesc key l = some b) :
    ∀ a ∈ l, key a ≤ key b := by
  induction l generalizing b with
  | nil => cases h
  | cons a l ih =>
    unfold firstDesc at h
    intro a' ha'
    split at h
    · next hnone =>
      cases h
      have hempty : l = [] := by
        cases l with
        | nil => rfl
        | cons c l =>
          unfold firstDesc at hnone
          split at hnone
          · cases hnone
          · split_ifs at hnone
      rw [hempty, List.mem_singleton] at ha'
      rw [ha']
    · next c hc =>
      have hrest := ih hc
      split_ifs at h with hlt <;> cases h
      · rcases List.mem_cons.mp ha' with rfl | hmem
        · exact Nat.le_of_lt hlt
        · exact hrest a' hmem
      · rcases List.mem_cons.mp ha' with rfl | hmem
        · exact Nat.le_refl _
        · exact Nat.le_trans (hrest a' hmem) (Nat.le_of_not_lt hlt)

/-- Only the row that comes back must be there. -/
theorem firstDesc_trimmed {D : α → Prop} (key : α → Nat) {l l' : List α} (h : Trimmed D l l')
    (hb : ∀ b, firstDesc key l = some b → ¬D b) : firstDesc key l' = firstDesc key l := by
  induction h with
  | nil => rfl
  | @keep a l l' hrest ih =>
    unfold firstDesc at hb ⊢
    cases hl : firstDesc key l with
    | none =>
      rw [hl] at ih
      rw [ih fun b hb => by cases hb]
    | some c =>
      simp only [hl] at hb
      by_cases hlt : key a < key c
      · rw [if_pos hlt] at hb
        rw [ih fun b hcb => by rw [hl] at hcb; exact hb b hcb, hl]
      · simp only [if_neg hlt]
        cases hl' : firstDesc key l' with
        | none => rfl
        | some c' =>
          have hle : key c' ≤ key c := firstDesc_max hl c' (hrest.subset (mem_of_firstDesc hl'))
          exact if_neg fun hlt' => hlt (Nat.lt_of_lt_of_le hlt' hle)
  | @drop a l l' ha hrest ih =>
    -- The row that is gone was not the one that came back, so the rest decides.
    rw [firstDesc] at hb ⊢
    cases hl : firstDesc key l with
    | none =>
      rw [hl] at hb
      exact absurd ha (hb a rfl)
    | some c =>
      simp only [hl] at hb
      by_cases hlt : key a < key c
      · simp only [if_pos hlt] at hb ⊢
        rw [ih fun b hcb => by rw [hl] at hcb; exact hb b hcb, hl]
      · simp only [if_neg hlt] at hb
        exact absurd ha (hb a rfl)

theorem unfound {C : α → ArchivalRow} {l : List α} (h : ∀ row ∈ l.map C, row ∉ gone) :
    ∀ a ∈ l, ¬C a ∈ gone := fun _ ha => h _ (List.mem_map_of_mem ha)

/-- A statement none of whose rows is gone is answered, and writes, as if no row were gone. -/
theorem eval_trims (h : Trims gone db db') {q : Sql} (hq : ∀ row ∈ q.found db, row ∉ gone)
    (seqs : Seqs) (clock : Time) : q.eval seqs clock db' = q.eval seqs clock db := by
  cases q with
  | findOrderByPublicId publicId =>
    simp only [Sql.eval, Db.order, h.orders.find?_eq (unfound hq)]
  | findOrderById id => simp only [Sql.eval, h.orders.find?_eq (unfound hq)]
  | updateOrderStatus publicId status stamp now =>
    simp only [Sql.eval, Db.order, h.orders.find?_eq (unfound hq)]
  | claimReadyOrderForAgent publicId agentId now =>
    simp only [Sql.eval, Db.claimableOrder, h.orders.find?_eq (unfound hq)]
  | findOrdersByDeliveryAgent agentId statuses limit =>
    simp only [Sql.eval, h.orders.filter_eq (unfound hq)]
  | findReadyUnassigned limit => simp only [Sql.eval, h.orders.filter_eq (unfound hq)]
  | findItemsByOrderIds orderIds => simp only [Sql.eval, h.orderItems.filter_eq (unfound hq)]
  | createPaymentSession data now =>
    simp only [Sql.eval, h.paymentSessions.any_eq (unfound hq)]
  | updatePaymentSessionStatus id status now =>
    simp only [Sql.eval, h.paymentSessions.find?_eq (unfound hq)]
  | insertWebhookEvent data now => simp only [Sql.eval, h.webhookEvents.any_eq (unfound hq)]
  | findTransactionById id => simp only [Sql.eval, h.transactions.find?_eq (unfound hq)]
  | findTransactionByProviderReference refId =>
    simp only [Sql.eval, h.transactions.find?_eq (unfound hq)]
  | findTransactionByOrderAndType orderId transactionType =>
    simp only [Sql.eval, Db.transactionOf, h.transactions.find?_eq (unfound hq)]
  | findTransactionByIdempotencyKey key =>
    simp only [Sql.eval, Db.idempotent, h.transactions.find?_eq (unfound hq)]
  | updateTransactionStatus id status now =>
    simp only [Sql.eval, h.transactions.find?_eq (unfound hq)]
  | insertEarning data => simp only [Sql.eval, h.agentEarnings.any_eq (unfound hq)]
  | findEarningByOrder orderId => simp only [Sql.eval, h.agentEarnings.find?_eq (unfound hq)]
  | createTransaction data now =>
    cases hkey : orNullText data.idempotencyKey with
    | none => simp only [Sql.eval, hkey, Option.bind_none]
    | some key =>
      simp only [Sql.found, hkey, Option.map_some, Option.getD_some] at hq
      simp only [Sql.eval, hkey, Option.bind_some, Db.idempotent,
        h.transactions.find?_eq (unfound hq)]
  | findRestaurantOwnerId restaurantId region =>
    have hlast := firstDesc_trimmed OrderEntity.createdAt
      (h.orders.filter fun o => o.restaurantId = restaurantId && o.region = region) fun b hb => by
        apply hq
        simp [Sql.found, hb]
    simp only [Sql.eval, hlast]
  | findPaymentSessionByOrderId orderId =>
    have hlast := firstDesc_trimmed PaymentSessionEntity.id
      (h.paymentSessions.filter fun s =>
        s.orderId = orderId && (s.status = .initialized || s.status = .pending)) fun b hb => by
        apply hq
        simp [Sql.found, hb]
    simp only [Sql.eval, hlast]
  | findProviderByName name => simp only [Sql.eval, h.paymentProviders]
  | lockBalance restaurantId currency =>
    simp only [Sql.eval, Db.balance, h.restaurantBalances]
  | _ => rfl

theorem order_of_row {o : OrderEntity} (h : ∃ table, .order o ∈ db.rows table) : o ∈ db.orders := by
  obtain ⟨table, hrow⟩ := h
  cases table with
  | orders => simpa [Db.rows] using hrow
  | _ => simp [Db.rows] at hrow

theorem session_of_row {s : PaymentSessionEntity} (h : ∃ table, .paymentSession s ∈ db.rows table) :
    s ∈ db.paymentSessions := by
  obtain ⟨table, hrow⟩ := h
  cases table with
  | paymentSessions => simpa [Db.rows] using hrow
  | _ => simp [Db.rows] at hrow

theorem transaction_of_row {t : TransactionEntity} (h : ∃ table, .transaction t ∈ db.rows table) :
    t ∈ db.transactions := by
  obtain ⟨table, hrow⟩ := h
  cases table with
  | transactions => simpa [Db.rows] using hrow
  | _ => simp [Db.rows] at hrow

theorem webhookEvent_of_row {e : PaymentWebhookEventEntity}
    (h : ∃ table, .webhookEvent e ∈ db.rows table) : e ∈ db.webhookEvents := by
  obtain ⟨table, hrow⟩ := h
  cases table with
  | paymentWebhookEvents => simpa [Db.rows] using hrow
  | _ => simp [Db.rows] at hrow

/-- Its writes leave the rows alone that are gone. -/
theorem untouched_of_found (hheld : ∀ row ∈ gone, ∃ table, row ∈ db.rows table) {q : Sql}
    (hq : ∀ row ∈ q.found db, row ∉ gone) {x : Write} (hx : q.MayWrite x) :
    ∀ row ∈ gone, ¬x.touches row := by
  intro row hrow htouch
  -- A row that the write touches would have been found.
  have hfound : row ∈ q.found db → False := fun hmem => hq row hmem hrow
  have hthere := hheld row hrow
  cases q with
  | updateOrderStatus publicId status stamp now =>
    subst hx
    cases row with
    | order o => exact hfound (by simpa [Sql.found] using ⟨order_of_row hthere, htouch⟩)
    | _ => exact htouch
  | claimReadyOrderForAgent publicId agentId now =>
    subst hx
    cases row with
    | order o => exact hfound (by simpa [Sql.found] using ⟨order_of_row hthere, htouch⟩)
    | _ => exact htouch
  | updatePaymentSessionStatus id status now =>
    subst hx
    cases row with
    | paymentSession s => exact hfound (by simpa [Sql.found] using ⟨session_of_row hthere, htouch⟩)
    | _ => exact htouch
  | updateWebhookEventStatus id processedAt processError =>
    subst hx
    cases row with
    | webhookEvent e =>
      exact hfound (by simpa [Sql.found] using ⟨webhookEvent_of_row hthere, htouch⟩)
    | _ => exact htouch
  | updateTransactionStatus id status now =>
    subst hx
    cases row with
    | transaction t => exact hfound (by simpa [Sql.found] using ⟨transaction_of_row hthere, htouch⟩)
    | _ => exact htouch
  | markTransactionAsRefunded id now =>
    subst hx
    cases row with
    | transaction t => exact hfound (by simpa [Sql.found] using ⟨transaction_of_row hthere, htouch⟩)
    | _ => exact htouch
  | createOrder data now =>
    obtain ⟨_, _, _, rfl⟩ := hx
    exact htouch
  | bulkInsertItems items now =>
    obtain ⟨_, rfl⟩ := hx
    exact htouch
  | createPaymentSession data now =>
    obtain ⟨_, rfl⟩ := hx
    exact htouch
  | insertWebhookEvent data now =>
    obtain ⟨_, rfl⟩ := hx
    exact htouch
  | createTransaction data now =>
    obtain ⟨_, rfl⟩ := hx
    exact htouch
  | upsertBalance restaurantId region currency delta =>
    subst hx
    exact htouch
  | insertEarning data =>
    obtain ⟨_, _, rfl⟩ := hx
    exact htouch
  | insertOutboxEvent input =>
    obtain ⟨_, _, rfl⟩ := hx
    exact htouch
  | _ => exact hx.elim

end Statements

end OrderService
