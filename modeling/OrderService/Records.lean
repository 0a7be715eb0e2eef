import OrderService.ArchivalOrphans
import OrderService.LedgerRows
import OrderService.LifecycleStamps
import OrderService.Services.Webhook
import OrderService.Services.Settlement

/-! What the committed tables say of the orders. Rows refer to orders that are there, an order that
is paid online goes on only once its session is captured, and every event in the outbox tells of
something that has happened to its order. -/
namespace OrderService
open ReadCommitted Interleaving

section Versions

/-- The order with the columns blanked that an update may change. -/
def OrderEntity.fixed (o : OrderEntity) : OrderEntity :=
  { o with
    status := .placed
    deliveryAgentId := none
    updatedAt := 0
    acceptedAt := none
    rejectedAt := none
    readyAt := none
    assignedAt := none
    pickedAt := none
    deliveredAt := none
    cancelledAt := none }

/-- A later version of the same order. An assignment is left out: it is the one update that looks
at the row before it writes its stamp. -/
structure OrderEntity.Continues (o' o : OrderEntity) : Prop where
  fixed : o'.fixed = o.fixed
  stamped : ∀ c, c ≠ .assignedAt → (o.column c).isSome → (o'.column c).isSome

/-- The transaction with the columns blanked that an update may change. -/
def TransactionEntity.fixed (t : TransactionEntity) : TransactionEntity :=
  { t with status := .pending, isRefunded := false, updatedAt := 0 }

/-- A later version of the same transaction, which may have succeeded or been refunded. -/
structure TransactionEntity.Continues (t' t : TransactionEntity) : Prop where
  fixed : t'.fixed = t.fixed
  succeeded : t.status = .succeeded → t'.status = .succeeded
  refunded : t.isRefunded = true → t'.isRefunded = true

/-- A refund pays back a charge that succeeded and is marked, at most in full. -/
structure TransactionEntity.PaysBack (r c : TransactionEntity) : Prop where
  refunded : r.refundedPaymentId = orNull (some c.id)
  charge : c.transactionType = .charge
  succeeded : c.status = .succeeded
  marked : c.isRefunded = true
  amount : r.amount ≤ c.amount
  currency : r.currency = c.currency
  orderId : r.orderId = c.orderId
  srcAccId : r.srcAccId = c.dstAccId
  dstAccId : r.dstAccId = c.srcAccId

/-- No column that refers to something holds a zero. -/
structure TransactionEntity.Stored (t : TransactionEntity) : Prop where
  orderId : orNull t.orderId = t.orderId
  srcAccId : orNull t.srcAccId = t.srcAccId
  dstAccId : orNull t.dstAccId = t.dstAccId

/-- The order has a row, which may be of a later version. -/
def Db.Has (db : Db) (o : OrderEntity) : Prop := ∃ row ∈ db.orders, row.Continues o

/-- The order is paid to its agent, or a session of its own is captured. -/
def Db.Cleared (db : Db) (publicId : String) : Prop :=
  ∃ o, db.Has o ∧ o.publicId = publicId ∧
    (o.paymentMethod = .online → ∃ s, db.HasCaptured s ∧ s.orderId = o.id)

def Db.HasTransaction (db : Db) (t : TransactionEntity) : Prop :=
  ∃ row ∈ db.transactions, row.Continues t

def Db.HasOrderId (db : Db) (id : Nat) : Prop := ∃ o, db.Has o ∧ o.id = id

end Versions

section Statement

/-- An event that the tables bear out: it was made of a version of an order that had come to the
status of which the event tells, or of a captured session of the order. -/
inductive OutboxInput.Tells (db : Db) : OutboxInput → Prop
  | placed {o : OrderEntity} {items : List OrderItemEntity} (order : db.Has o)
      (status : o.status = .placed) (cleared : db.Cleared o.publicId)
      (rows : items ⊆ db.orderItems) (own : ∀ i ∈ items, i.orderId = o.id) :
      Tells db (orderPlacedEvent o items)
  | changed {o : OrderEntity} {eventType : EventType} {c : Stamp} {ctx : AssertTransitionContext}
      (order : db.Has o) (event : outboxEventForStatus o.status = some eventType)
      (stamp : c.setIn o.status = some true) (stamped : (o.column c).isSome) :
      Tells db (transitionEvent o eventType ctx)
  | delivered {o : OrderEntity} {agentId : Nat} {commission : Int} {deliveredAt : Time}
      (order : db.Has o) (status : o.status = .delivered) (stamped : o.deliveredAt.isSome) :
      Tells db (deliveredEvent o agentId commission deliveredAt)
  | paid {o : OrderEntity} {session : PaymentSessionEntity} {ctx : WebhookContext}
      {completedAt : Time} (order : db.Has o) (captured : db.HasCaptured session.terms)
      (own : session.orderId = o.id) :
      Tells db (paymentEvent ctx o session .paymentCompleted completedAt)

/-- What a transaction must be when it is inserted. -/
structure TransactionEntity.FitsRow (t : TransactionEntity) (db : Db) : Prop where
  order : ∀ id, t.orderId = some id → db.HasOrderId id
  charge : t.transactionType = .charge → t.isRefunded = false ∧ t.Stored
  refund : t.transactionType = .refund → ∃ c, db.HasTransaction c ∧ t.PaysBack c

/-- The tables as the calls keep them. -/
structure Db.Recorded (db : Db) : Prop where
  orderItems : ∀ i ∈ db.orderItems, db.HasOrderId i.orderId
  sessions : ∀ s, db.HasSession s → ∃ o, db.Has o ∧ s.PaysFor o.terms
  transactions : ∀ t ∈ db.transactions, ∀ id, t.orderId = some id → db.HasOrderId id
  charges : ∀ t ∈ db.transactions, t.transactionType = .charge → t.Stored
  refunds : ∀ t ∈ db.transactions, t.transactionType = .refund →
    ∃ c, db.HasTransaction c ∧ t.PaysBack c
  earnings : ∀ e ∈ db.agentEarnings, db.HasOrderId e.orderId
  cleared : ∀ o ∈ db.orders, o.status ≠ .pendingPayment → o.status ≠ .cancelled →
    db.Cleared o.publicId
  events : ∀ e ∈ db.eventsOutbox, e.Tells db

/-- No row is lost, and none is changed but in the columns that are there to be updated. -/
structure Db.ContinuesTo (db db' : Db) : Prop where
  orders : ∀ o, db.Has o → db'.Has o
  orderItems : db.orderItems ⊆ db'.orderItems
  sessions : ∀ s, db.HasSession s → db'.HasSession s
  captured : ∀ s, db.HasCaptured s → db'.HasCaptured s
  transactions : ∀ t ∈ db.transactions, ∃ t' ∈ db'.transactions, t'.Continues t
  agentEarnings : db.agentEarnings ⊆ db'.agentEarnings
  eventsOutbox : db.eventsOutbox ⊆ db'.eventsOutbox

/-- A row is inserted only when what it refers to is there, a session only becomes captured, and an
order that is not cancelled goes on only when it is cleared. -/
def Write.FitsRecords : Write → Db → Prop
  | .insertOrder row, _ => row.paymentMethod = .online → row.status = .pendingPayment
  | .setOrderStatus publicId status _ _, db => status = .cancelled ∨ db.Cleared publicId
  | .insertOrderItem row, db => db.HasOrderId row.orderId
  | .insertSession row, db => ∃ o, db.Has o ∧ row.terms.PaysFor o.terms
  | .setSessionStatus _ status _, _ => status = .captured
  | .insertTransaction row, db => row.FitsRow db
  | .setTransactionStatus _ status _, _ => status = .succeeded
  | .insertEarning row, db => db.HasOrderId row.orderId
  | .insertOutbox row, db => row.Tells db
  | _, _ => True

end Statement

section Rows
variable {o o' : OrderEntity}

theorem OrderEntity.Continues.refl (o : OrderEntity) : o.Continues o := ⟨rfl, fun _ _ h => h⟩

theorem OrderEntity.Continues.trans {o'' : OrderEntity} (h' : o''.Continues o')
    (h : o'.Continues o) : o''.Continues o :=
  ⟨h'.fixed.trans h.fixed, fun c hc hset => h'.stamped c hc (h.stamped c hc hset)⟩

/-- What is read off the other columns is the same. -/
theorem OrderEntity.Continues.reads {α : Type} {f : OrderEntity → α} (h : o'.Continues o)
    (hf : ∀ row, f row.fixed = f row) : f o' = f o := by
  rw [← hf o', h.fixed, hf o]

theorem OrderEntity.Continues.terms (h : o'.Continues o) : o'.terms = o.terms :=
  h.reads fun _ => rfl

theorem OrderEntity.Continues.publicId (h : o'.Continues o) : o'.publicId = o.publicId :=
  h.reads fun _ => rfl

theorem OrderEntity.Continues.id (h : o'.Continues o) : o'.id = o.id := h.reads fun _ => rfl

theorem withStatus_fixed (o : OrderEntity) (status : OrderStatus) (stamp : Option Stamp)
    (now : Time) : (o.withStatus status stamp now).fixed = o.fixed := by
  cases stamp with
  | none => rfl
  | some c => cases c <;> rfl

/-- A status update sets its stamp and keeps the others. -/
theorem withStatus_column (o : OrderEntity) (status : OrderStatus) (stamp : Option Stamp)
    (now : Time) (c : Stamp) : (o.withStatus status stamp now).column c
      = if stamp = some c then some now else o.column c := by
  cases stamp with
  | none => cases c <;> rfl
  | some c' => cases c' <;> cases c <;> rfl

theorem withStatus_continues (h : o'.Continues o) (status : OrderStatus) (stamp : Option Stamp)
    (now : Time) : (o'.withStatus status stamp now).Continues (o.withStatus status stamp now) := by
  refine ⟨?_, fun c hc hset => ?_⟩
  · rw [withStatus_fixed, withStatus_fixed, h.fixed]
  · rw [withStatus_column] at hset ⊢
    split_ifs at hset ⊢
    · rfl
    · exact h.stamped c hc hset

theorem continues_withStatus (o : OrderEntity) (status : OrderStatus) (stamp : Option Stamp)
    (now : Time) : (o.withStatus status stamp now).Continues o := by
  refine ⟨withStatus_fixed o status stamp now, fun c _ hset => ?_⟩
  rw [withStatus_column]
  split_ifs
  · rfl
  · exact hset

theorem continues_assignTo (o : OrderEntity) (agentId : Nat) (now : Time) :
    (o.assignTo agentId now).Continues o := by
  refine ⟨rfl, fun c hc hset => ?_⟩
  cases c with
  | assignedAt => exact absurd rfl hc
  | _ => exact hset

theorem assignTo_continues (o : OrderEntity) (agentId : Nat) (now : Time) :
    o.Continues (o.assignTo agentId now) := by
  refine ⟨rfl, fun c hc hset => ?_⟩
  cases c with
  | assignedAt => exact absurd rfl hc
  | _ => exact hset

section Transactions
variable {t t' : TransactionEntity}

theorem TransactionEntity.Continues.refl (t : TransactionEntity) : t.Continues t :=
  ⟨rfl, fun h => h, fun h => h⟩

theorem TransactionEntity.Continues.trans {t'' : TransactionEntity} (h' : t''.Continues t')
    (h : t'.Continues t) : t''.Continues t :=
  ⟨h'.fixed.trans h.fixed, fun hset => h'.succeeded (h.succeeded hset),
    fun hset => h'.refunded (h.refunded hset)⟩

theorem TransactionEntity.Continues.reads {α : Type} {f : TransactionEntity → α}
    (h : t'.Continues t)
    (hf : ∀ row, f row.fixed = f row) : f t' = f t := by
  rw [← hf t', h.fixed, hf t]

theorem TransactionEntity.PaysBack.later {c : TransactionEntity} (h : t.PaysBack c)
    (ht : t'.Continues t) : t'.PaysBack c where
  refunded := (ht.reads (f := fun row => row.refundedPaymentId) fun _ => rfl).trans h.refunded
  charge := h.charge
  succeeded := h.succeeded
  marked := h.marked
  amount := (ht.reads (f := fun row => row.amount) fun _ => rfl).le.trans h.amount
  currency := (ht.reads (f := fun row => row.currency) fun _ => rfl).trans h.currency
  orderId := (ht.reads (f := fun row => row.orderId) fun _ => rfl).trans h.orderId
  srcAccId := (ht.reads (f := fun row => row.srcAccId) fun _ => rfl).trans h.srcAccId
  dstAccId := (ht.reads (f := fun row => row.dstAccId) fun _ => rfl).trans h.dstAccId

theorem TransactionEntity.Stored.later (h : t.Stored) (ht : t'.Continues t) : t'.Stored := by
  have horder := ht.reads (f := fun row => row.orderId) fun _ => rfl
  have hsrc := ht.reads (f := fun row => row.srcAccId) fun _ => rfl
  have hdst := ht.reads (f := fun row => row.dstAccId) fun _ => rfl
  exact ⟨by rw [horder, h.orderId], by rw [hsrc, h.srcAccId], by rw [hdst, h.dstAccId]⟩

end Transactions

end Rows

section Growing
variable {db db' : Db} {x : Write} {o : OrderEntity} {publicId : String} {id : Nat}

theorem Db.has_of_mem (h : o ∈ db.orders) : db.Has o := ⟨o, h, .refl o⟩

theorem Db.Has.mono (h : db.Has o) (hle : db.ContinuesTo db') : db'.Has o := hle.orders o h

theorem Db.HasOrderId.mono (h : db.HasOrderId id) (hle : db.ContinuesTo db') :
    db'.HasOrderId id := by
  obtain ⟨o, ho, hid⟩ := h
  exact ⟨o, ho.mono hle, hid⟩

theorem Db.HasTransaction.mono {t : TransactionEntity} (h : db.HasTransaction t)
    (hle : db.ContinuesTo db') : db'.HasTransaction t := by
  obtain ⟨row, hrow, hcont⟩ := h
  obtain ⟨row', hrow', hlater⟩ := hle.transactions row hrow
  exact ⟨row', hrow', hlater.trans hcont⟩

theorem TransactionEntity.FitsRow.mono {t : TransactionEntity} (h : t.FitsRow db)
    (hle : db.ContinuesTo db') : t.FitsRow db' := by
  refine ⟨fun id hid => (h.order id hid).mono hle, h.charge, fun hkind => ?_⟩
  obtain ⟨c, hc, hpays⟩ := h.refund hkind
  exact ⟨c, hc.mono hle, hpays⟩

theorem Db.Cleared.mono (h : db.Cleared publicId) (hle : db.ContinuesTo db') :
    db'.Cleared publicId := by
  obtain ⟨o, ho, hname, hpaid⟩ := h
  refine ⟨o, ho.mono hle, hname, fun honline => ?_⟩
  obtain ⟨s, hs, hpays⟩ := hpaid honline
  exact ⟨s, hle.captured s hs, hpays⟩

theorem OutboxInput.Tells.mono {e : OutboxInput} (h : e.Tells db) (hle : db.ContinuesTo db') :
    e.Tells db' := by
  cases h with
  | placed order status cleared rows own =>
    exact .placed (order.mono hle) status (cleared.mono hle)
      (List.Subset.trans rows hle.orderItems) own
  | changed order event stamp stamped => exact .changed (order.mono hle) event stamp stamped
  | delivered order status stamped => exact .delivered (order.mono hle) status stamped
  | paid order captured own => exact .paid (order.mono hle) (hle.captured _ captured) own

/-- How a write changes the orders that are there. -/
def Write.onOrder : Write → OrderEntity → OrderEntity
  | .setOrderStatus publicId status stamp now, o =>
    if o.publicId = publicId then o.withStatus status stamp now else o
  | .assignOrder publicId agentId now, o =>
    if o.publicId = publicId ∧ o.claimable then o.assignTo agentId now else o
  | _, o => o

theorem onOrder_setOrderStatus (publicId : String) (status : OrderStatus) (stamp : Option Stamp)
    (now : Time) (o : OrderEntity) : (Write.setOrderStatus publicId status stamp now).onOrder o
      = if o.publicId = publicId then o.withStatus status stamp now else o := rfl

theorem onOrder_assignOrder (publicId : String) (agentId : Nat) (now : Time) (o : OrderEntity) :
    (Write.assignOrder publicId agentId now).onOrder o
      = if o.publicId = publicId ∧ o.claimable then o.assignTo agentId now else o := rfl

theorem mem_orders_apply : o ∈ (engine.apply x db).orders ↔
    (∃ o₀ ∈ db.orders, x.onOrder o₀ = o) ∨ x = .insertOrder o := by
  cases x with
  | insertOrder row => simp [engine, Write.apply, Write.onOrder, eq_comm]
  | setOrderStatus publicId status stamp now => simp [engine, Write.apply, Write.onOrder]
  | assignOrder publicId agentId now => simp [engine, Write.apply, Write.onOrder]
  | _ => simp [engine, Write.apply, Write.onOrder]

theorem onOrder_continues (x : Write) (o : OrderEntity) : (x.onOrder o).Continues o := by
  cases x with
  | setOrderStatus publicId status stamp now =>
    rw [onOrder_setOrderStatus]
    split_ifs
    · exact continues_withStatus o status stamp now
    · exact .refl o
  | assignOrder publicId agentId now =>
    rw [onOrder_assignOrder]
    split_ifs
    · exact continues_assignTo o agentId now
    · exact .refl o
  | _ => exact .refl o

theorem onOrder_mono (x : Write) {o o' : OrderEntity} (h : o'.Continues o) :
    (x.onOrder o').Continues (x.onOrder o) := by
  cases x with
  | setOrderStatus publicId status stamp now =>
    rw [onOrder_setOrderStatus, onOrder_setOrderStatus, h.publicId]
    split_ifs
    · exact withStatus_continues h status stamp now
    · exact h
  | assignOrder publicId agentId now =>
    -- The two versions may differ in whether they can be claimed.
    have hback : ∀ row : OrderEntity,
        row.Continues ((Write.assignOrder publicId agentId now).onOrder row) := by
      intro row
      rw [onOrder_assignOrder]
      split_ifs
      · exact assignTo_continues row agentId now
      · exact .refl row
    exact (onOrder_continues _ o').trans (h.trans (hback o))
  | _ => exact h

theorem has_apply : (engine.apply x db).Has o ↔
    (∃ o₀ ∈ db.orders, (x.onOrder o₀).Continues o) ∨
      ∃ row, x = .insertOrder row ∧ row.Continues o := by
  constructor
  · rintro ⟨row, hrow, hcont⟩
    rcases mem_orders_apply.mp hrow with ⟨o₀, ho₀, rfl⟩ | rfl
    · exact .inl ⟨o₀, ho₀, hcont⟩
    · exact .inr ⟨row, rfl, hcont⟩
  · rintro (⟨o₀, ho₀, hcont⟩ | ⟨row, rfl, hcont⟩)
    · exact ⟨_, mem_orders_apply.mpr (.inl ⟨o₀, ho₀, rfl⟩), hcont⟩
    · exact ⟨row, mem_orders_apply.mpr (.inr rfl), hcont⟩

theorem mem_orderItems_apply {i : OrderItemEntity} :
    i ∈ (engine.apply x db).orderItems ↔ i ∈ db.orderItems ∨ x = .insertOrderItem i := by
  cases x with
  | insertOrderItem row => simp [engine, Write.apply, eq_comm]
  | _ => simp [engine, Write.apply]

/-- How a write changes the transactions that are there. -/
def Write.onTransaction : Write → TransactionEntity → TransactionEntity
  | .setTransactionStatus id status now, t =>
    if t.id = id then { t with status := status, updatedAt := now } else t
  | .markRefunded id now, t =>
    if t.id = id then { t with isRefunded := true, updatedAt := now } else t
  | _, t => t

theorem onTransaction_setTransactionStatus (id : Nat) (status : TransactionStatus) (now : Time)
    (t : TransactionEntity) : (Write.setTransactionStatus id status now).onTransaction t
      = if t.id = id then { t with status := status, updatedAt := now } else t := rfl

theorem onTransaction_markRefunded (id : Nat) (now : Time) (t : TransactionEntity) :
    (Write.markRefunded id now).onTransaction t
      = if t.id = id then { t with isRefunded := true, updatedAt := now } else t := rfl

theorem mem_transactions_apply {t : TransactionEntity} : t ∈ (engine.apply x db).transactions ↔
    (∃ t₀ ∈ db.transactions, x.onTransaction t₀ = t) ∨ x = .insertTransaction t := by
  cases x with
  | insertTransaction row => simp [engine, Write.apply, Write.onTransaction, eq_comm]
  | setTransactionStatus id status now => simp [engine, Write.apply, Write.onTransaction]
  | markRefunded id now => simp [engine, Write.apply, Write.onTransaction]
  | _ => simp [engine, Write.apply, Write.onTransaction]

theorem onTransaction_mono (x : Write) {t t' : TransactionEntity} (h : t'.Continues t) :
    (x.onTransaction t').Continues (x.onTransaction t) := by
  have hid : t'.id = t.id := h.reads fun _ => rfl
  cases x with
  | setTransactionStatus id status now =>
    rw [onTransaction_setTransactionStatus, onTransaction_setTransactionStatus]
    by_cases ht : t.id = id
    · rw [if_pos (hid.trans ht), if_pos ht]
      exact ⟨h.fixed, fun hset => hset, h.refunded⟩
    · rw [if_neg fun ht' => ht (hid.symm.trans ht'), if_neg ht]
      exact h
  | markRefunded id now =>
    rw [onTransaction_markRefunded, onTransaction_markRefunded]
    by_cases ht : t.id = id
    · rw [if_pos (hid.trans ht), if_pos ht]
      exact ⟨h.fixed, h.succeeded, fun _ => rfl⟩
    · rw [if_neg fun ht' => ht (hid.symm.trans ht'), if_neg ht]
      exact h
  | _ => exact h

theorem onTransaction_continues (hx : x.FitsRecords db) (t : TransactionEntity) :
    (x.onTransaction t).Continues t := by
  cases x with
  | setTransactionStatus id status now =>
    rw [onTransaction_setTransactionStatus]
    split_ifs
    · exact ⟨rfl, fun _ => hx, fun hset => hset⟩
    · exact .refl t
  | markRefunded id now =>
    rw [onTransaction_markRefunded]
    split_ifs
    · exact ⟨rfl, fun hset => hset, fun _ => rfl⟩
    · exact .refl t
  | _ => exact .refl t

theorem mem_agentEarnings_apply {e : AgentEarningEntity} :
    e ∈ (engine.apply x db).agentEarnings ↔ e ∈ db.agentEarnings ∨ x = .insertEarning e := by
  cases x with
  | insertEarning row => simp [engine, Write.apply, eq_comm]
  | _ => simp [engine, Write.apply]

theorem mem_eventsOutbox_apply {e : OutboxRow} :
    e ∈ (engine.apply x db).eventsOutbox ↔ e ∈ db.eventsOutbox ∨ x = .insertOutbox e := by
  cases x with
  | insertOutbox row => simp [engine, Write.apply, eq_comm]
  | _ => simp [engine, Write.apply]

theorem Db.ContinuesTo.apply (h : db.ContinuesTo db') (x : Write) :
    (engine.apply x db).ContinuesTo (engine.apply x db') := by
  refine ⟨fun o => ?_, fun i => ?_, fun s => ?_, fun s => ?_, fun t ht => ?_, fun e => ?_,
    fun e => ?_⟩
  · rw [has_apply, has_apply]
    rintro (⟨o₀, ho₀, hcont⟩ | hnew)
    · obtain ⟨o₁, ho₁, hlater⟩ := h.orders o₀ (Db.has_of_mem ho₀)
      exact .inl ⟨o₁, ho₁, (onOrder_mono x hlater).trans hcont⟩
    · exact .inr hnew
  · rw [mem_orderItems_apply, mem_orderItems_apply]
    exact Or.imp_left fun hi => h.orderItems hi
  · rw [hasSession_apply, hasSession_apply]
    exact Or.imp_left (h.sessions s)
  · cases x with
    | insertSession row =>
      rw [hasCaptured_insertSession, hasCaptured_insertSession]
      exact Or.imp_left (h.captured s)
    | setSessionStatus id status now =>
      rw [hasCaptured_setSessionStatus, hasCaptured_setSessionStatus]
      exact Or.imp (fun ⟨hid, hstatus, hs⟩ => ⟨hid, hstatus, h.sessions s hs⟩)
        fun ⟨hid, hs⟩ => ⟨hid, h.captured s hs⟩
    | _ => exact h.captured s
  · rcases mem_transactions_apply.mp ht with ⟨t₀, ht₀, rfl⟩ | hnew
    · obtain ⟨t₁, ht₁, hlater⟩ := h.transactions t₀ ht₀
      exact ⟨_, mem_transactions_apply.mpr (.inl ⟨t₁, ht₁, rfl⟩), onTransaction_mono x hlater⟩
    · exact ⟨t, mem_transactions_apply.mpr (.inr hnew), .refl t⟩
  · rw [mem_agentEarnings_apply, mem_agentEarnings_apply]
    exact Or.imp_left fun he => h.agentEarnings he
  · rw [mem_eventsOutbox_apply, mem_eventsOutbox_apply]
    exact Or.imp_left fun he => h.eventsOutbox he

theorem Write.FitsRecords.mono (hx : x.FitsRecords db) (h : db.ContinuesTo db') :
    x.FitsRecords db' := by
  cases x with
  | insertOrder row => exact hx
  | setOrderStatus publicId status stamp now =>
    rcases hx with hcancelled | hcleared
    · exact .inl hcancelled
    · exact .inr (hcleared.mono h)
  | insertOrderItem row => exact Db.HasOrderId.mono hx h
  | insertSession row =>
    obtain ⟨o, ho, hpays⟩ := hx
    exact ⟨o, ho.mono h, hpays⟩
  | setSessionStatus id status now => exact hx
  | insertTransaction row => exact TransactionEntity.FitsRow.mono hx h
  | setTransactionStatus id status now => exact hx
  | insertEarning row => exact Db.HasOrderId.mono hx h
  | insertOutbox row => exact OutboxInput.Tells.mono hx h
  | _ => trivial

theorem Write.FitsRecords.grows (hx : x.FitsRecords db) : db.ContinuesTo (engine.apply x db) := by
  refine ⟨fun o ho => ?_, fun i hi => mem_orderItems_apply.mpr (.inl hi),
    fun s hs => (hasSession_apply x db s).mpr (.inl hs), fun s hs => ?_,
    fun t ht => ⟨_, mem_transactions_apply.mpr (.inl ⟨t, ht, rfl⟩), onTransaction_continues hx t⟩,
    fun e he => mem_agentEarnings_apply.mpr (.inl he),
    fun e he => mem_eventsOutbox_apply.mpr (.inl he)⟩
  · obtain ⟨row, hrow, hcont⟩ := ho
    exact has_apply.mpr (.inl ⟨row, hrow, (onOrder_continues x row).trans hcont⟩)
  · cases x with
    | insertSession row => exact (hasCaptured_insertSession row db s).mpr (.inl hs)
    | setSessionStatus id status now =>
      rw [hasCaptured_setSessionStatus]
      by_cases hid : s.id = id
      · obtain ⟨row, hrow, hterms, _⟩ := hs
        exact .inl ⟨hid, hx, row, hrow, hterms⟩
      · exact .inr ⟨hid, hs⟩
    | _ => exact hs

/-- An order goes on only where it is cleared; a claim finds it ready. -/
theorem Db.Recorded.cleared_apply (h : db.Recorded) (hx : x.FitsRecords db)
    (ho : o ∈ (engine.apply x db).orders) (hpending : o.status ≠ .pendingPayment)
    (hcancelled : o.status ≠ .cancelled) : (engine.apply x db).Cleared o.publicId := by
  have hgrows := hx.grows
  rcases mem_orders_apply.mp ho with ⟨o₀, ho₀, rfl⟩ | rfl
  · rw [(onOrder_continues x o₀).publicId]
    have hold : o₀.status ≠ .pendingPayment → o₀.status ≠ .cancelled →
        (engine.apply x db).Cleared o₀.publicId :=
      fun hp hc => (h.cleared o₀ ho₀ hp hc).mono hgrows
    cases x with
    | setOrderStatus publicId status stamp now =>
      rw [onOrder_setOrderStatus] at hpending hcancelled
      split_ifs at hpending hcancelled with hname
      · rw [withStatus_status] at hcancelled
        rw [hname]
        exact (Or.resolve_left hx hcancelled).mono hgrows
      · exact hold hpending hcancelled
    | assignOrder publicId agentId now =>
      rw [onOrder_assignOrder] at hpending hcancelled
      split_ifs at hpending hcancelled with hname
      · have hready : o₀.status = .ready := by
          have hclaim := hname.2
          simp only [OrderEntity.claimable, Bool.and_eq_true, decide_eq_true_eq] at hclaim
          exact hclaim.1
        exact hold (by rw [hready]; decide) (by rw [hready]; decide)
      · exact hold hpending hcancelled
    | _ => exact hold hpending hcancelled
  · refine ⟨o, Db.has_of_mem ho, rfl, fun honline => ?_⟩
    exact absurd (hx honline) hpending

theorem Db.Recorded.apply (h : db.Recorded) (hx : x.FitsRecords db) :
    (engine.apply x db).Recorded := by
  have hgrows := hx.grows
  refine ⟨fun i hi => ?_, fun s hs => ?_, fun t ht id hid => ?_, fun t ht hkind => ?_,
    fun t ht hkind => ?_, fun e he => ?_,
    fun o ho hpending hcancelled => h.cleared_apply hx ho hpending hcancelled, fun e he => ?_⟩
  · rcases mem_orderItems_apply.mp hi with hi | rfl
    · exact (h.orderItems i hi).mono hgrows
    · exact Db.HasOrderId.mono hx hgrows
  · rcases (hasSession_apply x db s).mp hs with hs | ⟨row, rfl, rfl⟩
    · obtain ⟨o, ho, hpays⟩ := h.sessions s hs
      exact ⟨o, ho.mono hgrows, hpays⟩
    · obtain ⟨o, ho, hpays⟩ := hx
      exact ⟨o, ho.mono hgrows, hpays⟩
  · rcases mem_transactions_apply.mp ht with ⟨t₀, ht₀, rfl⟩ | rfl
    · have hsame : (x.onTransaction t₀).orderId = t₀.orderId :=
        (onTransaction_continues hx t₀).reads (f := fun row => row.orderId) fun _ => rfl
      exact (h.transactions t₀ ht₀ id (hsame ▸ hid)).mono hgrows
    · exact (TransactionEntity.FitsRow.order hx id hid).mono hgrows
  · rcases mem_transactions_apply.mp ht with ⟨t₀, ht₀, rfl⟩ | rfl
    · have hlater := onTransaction_continues hx t₀
      have hsame := hlater.reads (f := fun row => row.transactionType) fun _ => rfl
      exact (h.charges t₀ ht₀ (hsame ▸ hkind)).later hlater
    · exact (TransactionEntity.FitsRow.charge hx hkind).2
  · rcases mem_transactions_apply.mp ht with ⟨t₀, ht₀, rfl⟩ | rfl
    · have hlater := onTransaction_continues hx t₀
      have hsame := hlater.reads (f := fun row => row.transactionType) fun _ => rfl
      obtain ⟨c, hc, hpays⟩ := h.refunds t₀ ht₀ (hsame ▸ hkind)
      exact ⟨c, hc.mono hgrows, hpays.later hlater⟩
    · obtain ⟨c, hc, hpays⟩ := TransactionEntity.FitsRow.refund hx hkind
      exact ⟨c, hc.mono hgrows, hpays⟩
  · rcases mem_agentEarnings_apply.mp he with he | rfl
    · exact (h.earnings e he).mono hgrows
    · exact Db.HasOrderId.mono hx hgrows
  · rcases mem_eventsOutbox_apply.mp he with he | rfl
    · exact (h.events e he).mono hgrows
    · exact OutboxInput.Tells.mono hx hgrows

end Growing

/-- The records grow by rows that fit. -/
def recordGrowth : Growth engine where
  le := Db.ContinuesTo
  fits := Write.FitsRecords
  sound := Db.Recorded
  le_refl _ := ⟨fun _ h => h, List.Subset.refl _, fun _ h => h, fun _ h => h,
    fun t ht => ⟨t, ht, .refl t⟩, List.Subset.refl _, List.Subset.refl _⟩
  le_trans h h' := ⟨fun o ho => h'.orders o (h.orders o ho),
    List.Subset.trans h.orderItems h'.orderItems, fun s hs => h'.sessions s (h.sessions s hs),
    fun s hs => h'.captured s (h.captured s hs),
    fun t ht =>
      have ⟨_, ht₁, hlater⟩ := h.transactions t ht
      have ⟨t₂, ht₂, hlast⟩ := h'.transactions _ ht₁
      ⟨t₂, ht₂, hlast.trans hlater⟩,
    List.Subset.trans h.agentEarnings h'.agentEarnings,
    List.Subset.trans h.eventsOutbox h'.eventsOutbox⟩
  apply_mono x h := h.apply x
  fits_mono h hx := hx.mono h
  grows hx := hx.grows
  sound_apply h hx := h.apply hx

end OrderService
