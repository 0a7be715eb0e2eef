import OrderService.OrderHistory
import OrderService.OrderNames

/-! The event that an order was placed, and the charges of its payment: how often they are committed
when its placement and any number of webhooks run at the same time. -/
namespace OrderService
open ReadCommitted Interleaving

section Statement

/-- The committed events that tell that the order was placed. -/
def Db.placedEvents (db : Db) (publicId : String) : Nat :=
  db.eventsOutbox.countP fun e => e.eventType = .orderPlaced && e.aggregateId = publicId

def Db.succeededCharges (db : Db) (orderId : Nat) : Nat :=
  db.transactions.countP fun t =>
    t.transactionType = .charge && t.status = .succeeded && t.orderId = some orderId

/-- Of the orders that were entered since, each one that has ever been placed was told once, no
other one was, and none has been charged twice. -/
structure PlacedExactlyOnce (before db : Db) (history : List (Pid × List Write)) : Prop where
  events : ∀ publicId, before.order publicId = none → db.placedEvents publicId =
    if HasBeen before history publicId .placed then 1 else 0
  charges : ∀ o ∈ db.orders, before.order o.publicId = none → db.succeededCharges o.id ≤ 1

/-- Every order has a name and an id of its own, and only orders are told of or charged. -/
structure World.Orderly (w : World) : Prop extends w.AtRest where
  names : (w.store.db.orders.map OrderEntity.publicId).Nodup
  drawn : ∀ o ∈ w.store.db.orders, o.publicId ∈ w.uuids
  ids : (w.store.db.orders.map OrderEntity.id).Nodup
  started : 0 < w.seqs.orders
  numbered : ∀ o ∈ w.store.db.orders, 0 < o.id ∧ o.id < w.seqs.orders
  told : ∀ publicId, w.store.db.placedEvents publicId ≠ 0 →
    ∃ o ∈ w.store.db.orders, o.publicId = publicId
  charged : ∀ orderId, w.store.db.succeededCharges orderId ≠ 0 →
    ∃ o ∈ w.store.db.orders, o.id = orderId

/-- Placements and webhooks. -/
def Call.pays : Call → Prop
  | .placeOrder .. => True
  | .webhook .. => True
  | _ => False

/-- The order whose session the operation captures, or which it places. -/
def Op.awaited (db : Db) : Op → List OrderEntity
  | .sql _ (.updatePaymentSessionStatus id .captured _) =>
    db.orders.filter fun o => db.paymentSessions.any fun s => s.id = id && s.orderId = o.id
  | .sql _ (.updateOrderStatus publicId .placed _ _) =>
    db.orders.filter fun o => o.publicId = publicId
  | _ => []

/-- When a payment captures its session or places its order, that order still waits for it. -/
def StillAwaiting (_ : Pid) (o : Op) (_ : Env) (w : World) : Prop :=
  ∀ order ∈ o.awaited w.store.db, order.status = .pendingPayment

instance (p : Pid) (o : Op) (e : Env) (w : World) : Decidable (StillAwaiting p o e w) :=
  inferInstanceAs (Decidable (∀ order ∈ o.awaited w.store.db, order.status = .pendingPayment))

end Statement

section Tables
variable {db : Db} {x : Write} {log ws : List Write} {publicId : String} {id : Nat}

/-- The writes of placements and of payments. -/
def Write.Pays : Write → Prop
  | .setOrderStatus _ status _ _ => status = .placed
  | .assignOrder .. => False
  | .setTransactionStatus .. => False
  | .markRefunded .. => False
  | _ => True

/-- The write tells that the order was placed. -/
def Write.tellsPlaced (publicId : String) : Write → Bool
  | .insertOutbox row => row.eventType = .orderPlaced && row.aggregateId = publicId
  | _ => false

/-- The write charges the order. -/
def Write.charges (orderId : Nat) : Write → Bool
  | .insertTransaction row =>
    row.transactionType = .charge && row.status = .succeeded && row.orderId = some orderId
  | _ => false

/-- The writes that neither touch the orders nor tell of them nor charge them. -/
def Write.Aside : Write → Prop
  | .insertOrder _ => False
  | .setOrderStatus .. => False
  | .assignOrder .. => False
  | .insertTransaction _ => False
  | .setTransactionStatus .. => False
  | .markRefunded .. => False
  | .insertOutbox row => row.eventType ≠ .orderPlaced
  | _ => True

theorem Write.Aside.pays (h : x.Aside) : x.Pays := by
  cases x <;> trivial

theorem Write.Aside.offOrders (h : x.Aside) : x.OffOrders := by
  cases x <;> trivial

theorem Write.Aside.tellsPlaced (h : x.Aside) (publicId : String) :
    x.tellsPlaced publicId = false := by
  cases x with
  | insertOutbox row =>
    have hkind : row.eventType ≠ .orderPlaced := h
    simp [Write.tellsPlaced, hkind]
  | _ => rfl

theorem Write.Aside.charges (h : x.Aside) (orderId : Nat) : x.charges orderId = false := by
  cases x with
  | insertTransaction row => exact absurd h id
  | _ => rfl

theorem placedEvents_applyAll (log : List Write) (db : Db) (publicId : String) :
    (engine.applyAll log db).placedEvents publicId
      = db.placedEvents publicId + log.countP (Write.tellsPlaced publicId) := by
  induction log generalizing db with
  | nil => rfl
  | cons x log ih =>
    rw [applyAll_cons, ih, List.countP_cons]
    cases x with
    | insertOutbox row =>
      have hrow : (engine.apply (.insertOutbox row) db).placedEvents publicId
          = db.placedEvents publicId
            + if Write.tellsPlaced publicId (.insertOutbox row) = true then 1 else 0 := by
        change (db.eventsOutbox ++ [row]).countP _ = _
        rw [List.countP_append, List.countP_singleton]
        rfl
      omega
    | _ => rfl

theorem succeededCharges_applyAll (hlog : ∀ x ∈ log, x.Pays) (db : Db) (orderId : Nat) :
    (engine.applyAll log db).succeededCharges orderId
      = db.succeededCharges orderId + log.countP (Write.charges orderId) := by
  induction log generalizing db with
  | nil => rfl
  | cons x log ih =>
    rw [applyAll_cons, ih fun y hy => hlog y (List.mem_cons_of_mem x hy), List.countP_cons]
    have hx := hlog x List.mem_cons_self
    cases x with
    | insertTransaction row =>
      have hrow : (engine.apply (.insertTransaction row) db).succeededCharges orderId
          = db.succeededCharges orderId
            + if Write.charges orderId (.insertTransaction row) = true then 1 else 0 := by
        change (db.transactions ++ [row]).countP _ = _
        rw [List.countP_append, List.countP_singleton]
        rfl
      omega
    | setTransactionStatus | markRefunded => exact absurd hx id
    | _ => rfl

theorem countP_aside (hws : ∀ x ∈ ws, x.Aside) :
    (∀ publicId, ws.countP (Write.tellsPlaced publicId) = 0) ∧
      ∀ orderId, ws.countP (Write.charges orderId) = 0 := by
  refine ⟨fun publicId => List.countP_eq_zero.mpr fun x hx => ?_,
    fun orderId => List.countP_eq_zero.mpr fun x hx => ?_⟩
  · rw [(hws x hx).tellsPlaced]
    exact Bool.false_ne_true
  · rw [(hws x hx).charges]
    exact Bool.false_ne_true

/-- A placed order stays placed, and no order goes. -/
theorem order_kept (hlog : ∀ x ∈ log, x.Pays) {o : OrderEntity} (ho : o ∈ db.orders) :
    ∃ o' ∈ (engine.applyAll log db).orders, o'.id = o.id ∧ o'.publicId = o.publicId ∧
      (o'.status = o.status ∨ o'.status = .placed) := by
  induction log generalizing db o with
  | nil => exact ⟨o, ho, rfl, rfl, .inl rfl⟩
  | cons x log ih =>
    have hstep : ∃ o' ∈ (engine.apply x db).orders, o'.id = o.id ∧ o'.publicId = o.publicId ∧
        (o'.status = o.status ∨ o'.status = .placed) := by
      have hx := hlog x List.mem_cons_self
      cases x with
      | insertOrder row => exact ⟨o, List.mem_append_left _ ho, rfl, rfl, .inl rfl⟩
      | setOrderStatus other status stamp now =>
        obtain rfl : status = .placed := hx
        refine ⟨_, List.mem_map_of_mem ho, ?_⟩
        split_ifs <;> simp
      | assignOrder => exact absurd hx id
      | _ => exact ⟨o, ho, rfl, rfl, .inl rfl⟩
    obtain ⟨o', ho', hid, hname, hstatus⟩ := hstep
    obtain ⟨u, hu, hid', hname', hstatus'⟩ :=
      ih (fun y hy => hlog y (List.mem_cons_of_mem x hy)) ho'
    rw [applyAll_cons]
    refine ⟨u, hu, hid'.trans hid, hname'.trans hname, ?_⟩
    rcases hstatus' with hsame | hplaced
    · rw [hsame]
      exact hstatus
    · exact .inr hplaced

/-- A session stays with its order. -/
theorem session_kept {s : PaymentSessionEntity} (hs : s ∈ db.paymentSessions) (log : List Write) :
    ∃ s' ∈ (engine.applyAll log db).paymentSessions, s'.id = s.id ∧ s'.orderId = s.orderId := by
  induction log generalizing db s with
  | nil => exact ⟨s, hs, rfl, rfl⟩
  | cons x log ih =>
    have hstep : ∃ s' ∈ (engine.apply x db).paymentSessions,
        s'.id = s.id ∧ s'.orderId = s.orderId := by
      cases x with
      | insertSession row => exact ⟨s, List.mem_append_left _ hs, rfl, rfl⟩
      | setSessionStatus other status now =>
        refine ⟨_, List.mem_map_of_mem hs, ?_⟩
        split_ifs <;> exact ⟨rfl, rfl⟩
      | _ => exact ⟨s, hs, rfl, rfl⟩
    obtain ⟨s', hs', hid, horder⟩ := hstep
    obtain ⟨u, hu, hid', horder'⟩ := ih hs'
    rw [applyAll_cons]
    exact ⟨u, hu, hid'.trans hid, horder'.trans horder⟩

end Tables

section Invariant
variable {before db : Db} {history : List (Pid × List Write)} {p : Pid} {log : List Write}

/-- While the order waits for its payment nothing was told or charged; once it is placed, it was
told once and charged once at most. -/
def Db.Tracks (db : Db) (o : OrderEntity) : Prop :=
  (o.status = .pendingPayment ∧ db.placedEvents o.publicId = 0 ∧ db.succeededCharges o.id = 0) ∨
    (o.status = .placed ∧ db.placedEvents o.publicId = 1 ∧ db.succeededCharges o.id ≤ 1)

/-- Every order that was entered since is tracked, and only orders are told of or charged. -/
structure ConsistentSince (before db : Db) : Prop where
  names : (db.orders.map OrderEntity.publicId).Nodup
  ids : (db.orders.map OrderEntity.id).Nodup
  tracked : ∀ o ∈ db.orders, before.order o.publicId = none → db.Tracks o
  told : ∀ publicId, db.placedEvents publicId ≠ 0 → ∃ o ∈ db.orders, o.publicId = publicId
  charged : ∀ orderId, db.succeededCharges orderId ≠ 0 → ∃ o ∈ db.orders, o.id = orderId

/-- The log of a placement: one order, told of at once if it is placed at once. -/
structure EntersOrder (row : OrderEntity) (log : List Write) : Prop where
  shape : ∃ rest, log = .insertOrder row :: rest ∧ ∀ x ∈ rest, x.OffOrders
  pays : ∀ x ∈ log, x.Pays
  status : row.status = .pendingPayment ∨ row.status = .placed
  told : ∀ publicId, log.countP (Write.tellsPlaced publicId) =
    if row.status = .placed ∧ publicId = row.publicId then 1 else 0
  uncharged : ∀ orderId, log.countP (Write.charges orderId) = 0

/-- The log of a payment: its order is placed and told of, and charged once at most. -/
structure PaysOrder (publicId : String) (orderId : Nat) (log : List Write) : Prop where
  shape : ∃ now first last, log = first ++ .setOrderStatus publicId .placed none now :: last ∧
    (∀ x ∈ first, x.OffOrders) ∧ ∀ x ∈ last, x.OffOrders
  pays : ∀ x ∈ log, x.Pays
  told : ∀ name, log.countP (Write.tellsPlaced name) = if name = publicId then 1 else 0
  charged : ∀ id, log.countP (Write.charges id) ≤ if id = orderId then 1 else 0

/-- An order that is placed at once is told of. -/
inductive TellsEntry (row : OrderEntity) : List Write → Prop
  | waits : row.status ≠ .placed → TellsEntry row []
  | told (event : OutboxRow) : row.status = .placed → event.eventType = .orderPlaced →
      event.aggregateId = row.publicId → TellsEntry row [.insertOutbox event]

/-- The charge of a payment, if it was not recorded before. -/
inductive ChargesOnce (orderId : Nat) : List Write → Prop
  | known : ChargesOnce orderId []
  | charged (row : TransactionEntity) : (∀ id, row.orderId = some id → id = orderId) →
      ChargesOnce orderId [.insertTransaction row]

theorem orders_applyAll_off (hlog : ∀ x ∈ log, x.OffOrders) (db : Db) :
    (engine.applyAll log db).orders = db.orders :=
  orders_applyAll (fun x hx => (hlog x hx).table) db

/-- The parts of a placement: the order, its items and the event that it was placed. -/
theorem entersOrder_of {row : OrderEntity} {items event : List Write}
    (hstatus : row.status = .pendingPayment ∨ row.status = .placed)
    (hitems : ∀ x ∈ items, x.Aside) (hevent : TellsEntry row event) :
    EntersOrder row ([.insertOrder row] ++ items ++ event) := by
  obtain ⟨htold, hcharged⟩ := countP_aside hitems
  have hmine : ∀ x ∈ event, x.Pays ∧ x.OffOrders := by
    intro x hx
    cases hevent with
    | waits _ => cases hx
    | told row _ _ _ =>
      rw [List.mem_singleton.mp hx]
      exact ⟨trivial, trivial⟩
  constructor
  case shape =>
    refine ⟨items ++ event, by simp, List.forall_mem_append.mpr ⟨fun x hx => ?_, fun x hx => ?_⟩⟩
    · exact (hitems x hx).offOrders
    · exact (hmine x hx).2
  case pays =>
    simp only [List.mem_append, List.mem_singleton]
    rintro x ((rfl | hx) | hx)
    · trivial
    · exact (hitems x hx).pays
    · exact (hmine x hx).1
  case status => exact hstatus
  case told =>
    intro name
    simp only [List.countP_append, htold, List.countP_singleton, Write.tellsPlaced]
    cases hevent with
    | waits hno => simp [hno]
    | told event hplaced hkind hid => simp [Write.tellsPlaced, hplaced, hkind, hid, eq_comm]
  case uncharged =>
    intro id
    simp only [List.countP_append, hcharged, List.countP_singleton, Write.charges]
    cases hevent <;> rfl

/-- The parts of a payment: the capture, the charge, the event of the payment, the order, its
items and the event that it was placed. -/
theorem paysOrder_of {publicId : String} {orderId : Nat} {first charge event items : List Write}
    {row : OutboxRow} {now : Time} (hfirst : ∀ x ∈ first, x.Aside)
    (hcharge : ChargesOnce orderId charge) (hevent : ∀ x ∈ event, x.Aside)
    (hitems : ∀ x ∈ items, x.Aside) (hkind : row.eventType = .orderPlaced)
    (hid : row.aggregateId = publicId) :
    PaysOrder publicId orderId (first ++ charge ++ event
      ++ [.setOrderStatus publicId .placed none now] ++ items ++ [.insertOutbox row]) := by
  obtain ⟨htold₁, hcharged₁⟩ := countP_aside hfirst
  obtain ⟨htold₂, hcharged₂⟩ := countP_aside hevent
  obtain ⟨htold₃, hcharged₃⟩ := countP_aside hitems
  have hmine : ∀ x ∈ charge, x.Pays ∧ x.OffOrders := by
    intro x hx
    cases hcharge with
    | known => cases hx
    | charged row _ =>
      rw [List.mem_singleton.mp hx]
      exact ⟨trivial, trivial⟩
  have htold : ∀ name, charge.countP (Write.tellsPlaced name) = 0 := by
    intro name
    cases hcharge <;> rfl
  have hcharged : ∀ id, charge.countP (Write.charges id) ≤ if id = orderId then 1 else 0 := by
    intro id
    cases hcharge with
    | known => exact Nat.zero_le _
    | charged row hrow =>
      rw [List.countP_singleton]
      by_cases hid : id = orderId
      · rw [if_pos hid]
        split_ifs <;> omega
      · have hother : Write.charges id (.insertTransaction row) = false := by
          have hne : row.orderId ≠ some id := fun heq => hid (hrow id heq)
          simp [Write.charges, hne]
        rw [hother]
        exact Nat.zero_le _
  constructor
  case shape =>
    refine ⟨now, first ++ charge ++ event, items ++ [.insertOutbox row], by simp, ?_, ?_⟩
    · simp only [List.mem_append]
      rintro x ((hx | hx) | hx)
      · exact (hfirst x hx).offOrders
      · exact (hmine x hx).2
      · exact (hevent x hx).offOrders
    · exact List.forall_mem_append.mpr ⟨fun x hx => (hitems x hx).offOrders,
        List.forall_mem_singleton.mpr trivial⟩
  case pays =>
    simp only [List.mem_append, List.mem_singleton]
    rintro x (((((hx | hx) | hx) | rfl) | hx) | rfl)
    · exact (hfirst x hx).pays
    · exact (hmine x hx).1
    · exact (hevent x hx).pays
    · exact rfl
    · exact (hitems x hx).pays
    · trivial
  case told =>
    intro name
    simp only [List.countP_append, htold₁, htold, htold₂, htold₃, List.countP_singleton]
    simp [Write.tellsPlaced, hkind, hid, eq_comm]
  case charged =>
    intro id
    simp only [List.countP_append, hcharged₁, hcharged₂, hcharged₃, List.countP_singleton]
    simpa [Write.charges] using hcharged id

theorem PaysOrder.aside {publicId : String} {orderId : Nat} (h : PaysOrder publicId orderId log)
    {ws : List Write} (hws : ∀ x ∈ ws, x.Aside) : PaysOrder publicId orderId (log ++ ws) := by
  obtain ⟨now, first, last, rfl, hfirst, hlast⟩ := h.shape
  obtain ⟨htold, hcharged⟩ := countP_aside hws
  refine ⟨⟨now, first, last ++ ws, by simp, hfirst, ?_⟩, ?_, fun name => ?_, fun id => ?_⟩
  · exact List.forall_mem_append.mpr ⟨hlast, fun x hx => (hws x hx).offOrders⟩
  · exact List.forall_mem_append.mpr ⟨h.pays, fun x hx => (hws x hx).pays⟩
  · rw [List.countP_append, htold, Nat.add_zero]
    exact h.told name
  · rw [List.countP_append, hcharged, Nat.add_zero]
    exact h.charged id

theorem ConsistentSince.aside (h : ConsistentSince before db) (hlog : ∀ x ∈ log, x.Aside) :
    ConsistentSince before (engine.applyAll log db) := by
  obtain ⟨htells, hcharges⟩ := countP_aside hlog
  have horders := orders_applyAll_off (fun x hx => (hlog x hx).offOrders) db
  have hevents : ∀ publicId, (engine.applyAll log db).placedEvents publicId
      = db.placedEvents publicId := by
    intro publicId
    rw [placedEvents_applyAll, htells, Nat.add_zero]
  have hcharged : ∀ orderId, (engine.applyAll log db).succeededCharges orderId
      = db.succeededCharges orderId := by
    intro orderId
    rw [succeededCharges_applyAll (fun x hx => (hlog x hx).pays), hcharges, Nat.add_zero]
  constructor <;> simp only [horders, Db.Tracks, hevents, hcharged]
  · exact h.names
  · exact h.ids
  · exact h.tracked
  · exact h.told
  · exact h.charged

theorem ConsistentSince.entered {row : OrderEntity} (h : ConsistentSince before db)
    (hlog : EntersOrder row log)
    (hnames : ((engine.applyAll log db).orders.map OrderEntity.publicId).Nodup)
    (hids : ((engine.applyAll log db).orders.map OrderEntity.id).Nodup) :
    ConsistentSince before (engine.applyAll log db) := by
  have horders : (engine.applyAll log db).orders = db.orders ++ [row] := by
    obtain ⟨rest, rfl, hrest⟩ := hlog.shape
    rw [applyAll_cons]
    exact orders_applyAll_off hrest _
  have hevents : ∀ publicId, (engine.applyAll log db).placedEvents publicId
      = db.placedEvents publicId
        + if row.status = .placed ∧ publicId = row.publicId then 1 else 0 := by
    intro publicId
    rw [placedEvents_applyAll, hlog.told]
  have hcharged : ∀ orderId, (engine.applyAll log db).succeededCharges orderId
      = db.succeededCharges orderId := by
    intro orderId
    rw [succeededCharges_applyAll hlog.pays, hlog.uncharged, Nat.add_zero]
  rw [horders, List.map_append, List.map_singleton] at hnames hids
  have hnewName : ∀ o ∈ db.orders, o.publicId ≠ row.publicId := fun o ho heq =>
    (List.nodup_append.mp hnames).2.2 _ (List.mem_map_of_mem ho) _ (List.mem_singleton_self _) heq
  have hnewId : ∀ o ∈ db.orders, o.id ≠ row.id := fun o ho heq =>
    (List.nodup_append.mp hids).2.2 _ (List.mem_map_of_mem ho) _ (List.mem_singleton_self _) heq
  constructor
  case names => rwa [horders, List.map_append, List.map_singleton]
  case ids => rwa [horders, List.map_append, List.map_singleton]
  case tracked =>
    intro o ho hnew
    rw [horders, List.mem_append, List.mem_singleton] at ho
    rcases ho with ho | rfl
    · have hsame : ¬(row.status = .placed ∧ o.publicId = row.publicId) := fun hno =>
        hnewName o ho hno.2
      rw [Db.Tracks, hevents, hcharged, if_neg hsame, Nat.add_zero]
      exact h.tracked o ho hnew
    · -- Nothing was told or charged under a name and an id that no order had.
      have hnone : db.placedEvents o.publicId = 0 := by
        by_contra hsome
        obtain ⟨u, hu, hname⟩ := h.told _ hsome
        exact hnewName u hu hname
      have hnocharge : db.succeededCharges o.id = 0 := by
        by_contra hsome
        obtain ⟨u, hu, hid⟩ := h.charged _ hsome
        exact hnewId u hu hid
      rw [Db.Tracks, hevents, hcharged, hnone, hnocharge]
      rcases hlog.status with hpending | hplaced
      · exact .inl ⟨hpending, by simp [hpending], rfl⟩
      · exact .inr ⟨hplaced, by simp [hplaced], Nat.zero_le 1⟩
  case told =>
    intro publicId hsome
    rw [hevents] at hsome
    rw [horders]
    by_cases hrow : publicId = row.publicId
    · exact ⟨row, by simp, hrow.symm⟩
    · rw [if_neg (fun hno => hrow hno.2), Nat.add_zero] at hsome
      obtain ⟨o, ho, hname⟩ := h.told publicId hsome
      exact ⟨o, List.mem_append_left _ ho, hname⟩
  case charged =>
    intro orderId hsome
    rw [hcharged] at hsome
    rw [horders]
    obtain ⟨o, ho, hid⟩ := h.charged orderId hsome
    exact ⟨o, List.mem_append_left _ ho, hid⟩

theorem ConsistentSince.paid {o : OrderEntity} (h : ConsistentSince before db) (ho : o ∈ db.orders)
    (hpending : o.status = .pendingPayment) (hlog : PaysOrder o.publicId o.id log) :
    ConsistentSince before (engine.applyAll log db) := by
  obtain ⟨now, first, last, hshape, hfirst, hlast⟩ := hlog.shape
  have horders : (engine.applyAll log db).orders = db.orders.map fun u =>
      if u.publicId = o.publicId then u.withStatus .placed none now else u := by
    rw [hshape, applyAll_append, applyAll_cons, orders_applyAll_off hlast]
    change (engine.applyAll first db).orders.map _ = _
    rw [orders_applyAll_off hfirst]
  have hkept : ∀ {α : Type} (f : OrderEntity → α),
      (∀ u : OrderEntity, f (u.withStatus .placed none now) = f u) →
      (engine.applyAll log db).orders.map f = db.orders.map f := by
    intro α f hf
    rw [horders, List.map_map]
    refine List.map_congr_left fun u _ => ?_
    simp only [Function.comp_apply]
    split_ifs
    · exact hf u
    · rfl
  have hevents : ∀ publicId, (engine.applyAll log db).placedEvents publicId
      = db.placedEvents publicId + if publicId = o.publicId then 1 else 0 := by
    intro publicId
    rw [placedEvents_applyAll, hlog.told]
  have hcharged : ∀ orderId, (engine.applyAll log db).succeededCharges orderId
      = db.succeededCharges orderId + log.countP (Write.charges orderId) :=
    succeededCharges_applyAll hlog.pays db
  have hold : ∀ u ∈ db.orders, ∃ u' ∈ (engine.applyAll log db).orders,
      u'.publicId = u.publicId ∧ u'.id = u.id := by
    intro u hu
    obtain ⟨u', hu', hid, hname, _⟩ := order_kept hlog.pays hu
    exact ⟨u', hu', hname, hid⟩
  constructor
  case names =>
    rw [hkept OrderEntity.publicId fun u => withStatus_publicId u _ _ _]
    exact h.names
  case ids =>
    rw [hkept OrderEntity.id fun u => withStatus_id u _ _ _]
    exact h.ids
  case tracked =>
    intro u' hu' hnew
    rw [horders] at hu'
    obtain ⟨u, hu, rfl⟩ := List.mem_map.mp hu'
    by_cases hname : u.publicId = o.publicId
    · -- The order that is paid waited for it, so nothing was told or charged yet.
      obtain rfl : u = o := List.inj_on_of_nodup_map h.names hu ho hname
      have hnone : db.placedEvents u.publicId = 0 ∧ db.succeededCharges u.id = 0 := by
        rw [if_pos rfl, withStatus_publicId] at hnew
        rcases h.tracked u hu hnew with ⟨_, hnone⟩ | ⟨hplaced, _⟩
        · exact hnone
        · rw [hpending] at hplaced
          cases hplaced
      have hone := hlog.charged u.id
      rw [if_pos rfl] at hone
      rw [if_pos rfl, Db.Tracks]
      refine .inr ⟨withStatus_status _ _ _ _, ?_, ?_⟩
      · rw [withStatus_publicId, hevents, hnone.1, if_pos rfl]
      · rw [withStatus_id, hcharged, hnone.2]
        omega
    · have hid : u.id ≠ o.id := fun heq =>
        hname (congrArg _ (List.inj_on_of_nodup_map h.ids hu ho heq))
      have hzero := hlog.charged u.id
      rw [if_neg hid] at hzero
      rw [if_neg hname] at hnew
      rw [if_neg hname, Db.Tracks, hevents, hcharged, if_neg hname,
        Nat.le_zero.mp hzero, Nat.add_zero, Nat.add_zero]
      exact h.tracked u hu hnew
  case told =>
    intro publicId hsome
    rw [hevents] at hsome
    by_cases hname : publicId = o.publicId
    · obtain ⟨u', hu', hname', _⟩ := hold o ho
      exact ⟨u', hu', hname'.trans hname.symm⟩
    · rw [if_neg hname, Nat.add_zero] at hsome
      obtain ⟨u, hu, rfl⟩ := h.told publicId hsome
      obtain ⟨u', hu', hname', _⟩ := hold u hu
      exact ⟨u', hu', hname'⟩
  case charged =>
    intro orderId hsome
    rw [hcharged] at hsome
    by_cases hid : orderId = o.id
    · obtain ⟨u', hu', _, hid'⟩ := hold o ho
      exact ⟨u', hu', hid'.trans hid.symm⟩
    · have hzero := hlog.charged orderId
      rw [if_neg hid] at hzero
      rw [Nat.le_zero.mp hzero, Nat.add_zero] at hsome
      obtain ⟨u, hu, rfl⟩ := h.charged orderId hsome
      obtain ⟨u', hu', _, hid'⟩ := hold u hu
      exact ⟨u', hu', hid'⟩

/-- What every commit of a placement or of a payment keeps. -/
structure PlacedOnce (before db : Db) (history : List (Pid × List Write)) : Prop where
  tables : db = tablesAfter before history
  pays : ∀ b ∈ history, ∀ x ∈ b.2, x.Pays
  been : ∀ publicId, HasBeen before history publicId .placed →
    ∃ o ∈ db.orders, o.publicId = publicId ∧ o.status = .placed
  consistent : ConsistentSince before db

theorem PlacedOnce.exactly (h : PlacedOnce before db history) :
    PlacedExactlyOnce before db history where
  events publicId hnew := by
    have honly : ∀ {o}, o ∈ db.orders → o.publicId = publicId → o.status = .placed →
        HasBeen before history publicId .placed := by
      rintro o ho rfl hplaced
      rw [← hplaced]
      rw [h.tables] at ho
      exact hasBeen_now ho
    split_ifs with hbeen
    · obtain ⟨o, ho, rfl, hplaced⟩ := h.been publicId hbeen
      rcases h.consistent.tracked o ho hnew with ⟨hpending, _⟩ | ⟨_, hone, _⟩
      · rw [hplaced] at hpending
        cases hpending
      · exact hone
    · by_contra hsome
      obtain ⟨o, ho, rfl⟩ := h.consistent.told publicId hsome
      rcases h.consistent.tracked o ho hnew with ⟨_, hnone, _⟩ | ⟨hplaced, _⟩
      · exact hsome hnone
      · exact hbeen (honly ho rfl hplaced)
  charges o ho hnew := by
    rcases h.consistent.tracked o ho hnew with ⟨_, _, hnone⟩ | ⟨_, _, hone⟩
    · omega
    · exact hone

/-- A commit of such writes has to leave the tables consistent. -/
theorem PlacedOnce.commit (h : PlacedOnce before db history) (hlog : ∀ x ∈ log, x.Pays)
    (hafter : ConsistentSince before (engine.applyAll log db)) :
    PlacedOnce before (engine.applyAll log db) (history ++ [(p, log)]) where
  tables := by
    rw [tablesAfter_append, tablesAfter_singleton, ← h.tables]
  pays := List.forall_mem_append.mpr ⟨h.pays, List.forall_mem_singleton.mpr hlog⟩
  been publicId hbeen := by
    have hold : (∃ o ∈ db.orders, o.publicId = publicId ∧ o.status = .placed) →
        ∃ o ∈ (engine.applyAll log db).orders, o.publicId = publicId ∧ o.status = .placed := by
      rintro ⟨o, ho, rfl, hplaced⟩
      obtain ⟨o', ho', _, hname, hstatus⟩ := order_kept hlog ho
      exact ⟨o', ho', hname, hstatus.elim (fun hsame => hsame.trans hplaced) id⟩
    rcases hasBeen_append hbeen with hbeen | ⟨done, left, heq, o, ho, hname, hplaced⟩
    · exact hold (h.been publicId hbeen)
    · rw [← h.tables] at ho
      cases done with
      | nil => exact hold ⟨o, ho, hname, hplaced⟩
      | cons b done =>
        -- The commit itself.
        obtain ⟨rfl, hnil⟩ := List.cons.inj heq
        obtain ⟨rfl, _⟩ := List.append_eq_nil_iff.mp hnil.symm
        rw [tablesAfter_singleton] at ho
        exact ⟨o, ho, hname, hplaced⟩
  consistent := hafter

end Invariant

end OrderService
