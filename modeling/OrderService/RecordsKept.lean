import OrderService.LedgerWellFormed
import OrderService.OneWinner
import OrderService.OrderNames
import OrderService.RecordEffects

/-! In every interleaving of any calls no unpaid order goes on, no row loses its order, no event
tells of something that did not happen; and nothing that was recorded is taken back. -/
namespace OrderService
open ReadCommitted Interleaving

section Statement

/-- No row has been inserted yet that refers to an order. -/
structure World.Blank (w : World) : Prop extends w.Fresh where
  orderItems : w.store.db.orderItems = []
  agentEarnings : w.store.db.agentEarnings = []
  eventsOutbox : w.store.db.eventsOutbox = []

/-- A captured session of the order asked for what it costs. -/
def Db.PaidFor (db : Db) (o : OrderEntity) : Prop :=
  ∃ s ∈ db.paymentSessions, s.orderId = o.id ∧ s.status = .captured ∧ s.amount = o.total ∧
    s.currency = o.currency

/-- What the rows say today of the order that an event is about. The event was made of a version
`v` of this order. -/
inductive OutboxInput.TrueOf (db : Db) (o : OrderEntity) : OutboxInput → Prop
  | placed {v : OrderEntity} {items : List OrderItemEntity} (version : v.fixed = o.fixed)
      (status : v.status = .placed) (paid : o.paymentMethod = .online → db.PaidFor o)
      (rows : items ⊆ db.orderItems) (own : ∀ i ∈ items, i.orderId = o.id) :
      TrueOf db o (orderPlacedEvent v items)
  | changed {v : OrderEntity} {eventType : EventType} {ctx : AssertTransitionContext}
      (version : v.fixed = o.fixed) (event : outboxEventForStatus v.status = some eventType)
      (accepted : v.status = .accepted → o.acceptedAt.isSome)
      (rejected : v.status = .rejected → o.rejectedAt.isSome)
      (cancelled : v.status = .cancelled → o.cancelledAt.isSome) :
      TrueOf db o (transitionEvent v eventType ctx)
  | delivered {v : OrderEntity} {agentId : Nat} {commission : Int} {deliveredAt : Time}
      (version : v.fixed = o.fixed) (stamped : o.deliveredAt.isSome) :
      TrueOf db o (deliveredEvent v agentId commission deliveredAt)
  | paid {v : OrderEntity} {session : PaymentSessionEntity} {ctx : WebhookContext}
      {completedAt : Time} (version : v.fixed = o.fixed) (paid : db.PaidFor o)
      (amount : session.amount = o.total) (currency : session.currency = o.currency) :
      TrueOf db o (paymentEvent ctx v session .paymentCompleted completedAt)

end Statement

section Tables
variable {db : Db} {o : OrderEntity}

/-- Two orders with one id are one. -/
theorem Db.Recorded.paidFor (h : db.Recorded) (hids : (db.orders.map OrderEntity.id).Nodup)
    (ho : o ∈ db.orders) {s : SessionTerms} (hs : db.HasCaptured s) (hown : s.orderId = o.id) :
    db.PaidFor o ∧ s.amount = o.total ∧ s.currency = o.currency := by
  obtain ⟨session, hsession, rfl, hcaptured⟩ := hs
  obtain ⟨v, ⟨row, hrow, hversion⟩, hpays⟩ := h.sessions _ ⟨session, hsession, rfl⟩
  have hid : row.id = o.id := hversion.id.trans (hpays.orderId.symm.trans hown)
  have hsame : row = o := List.inj_on_of_nodup_map hids hrow ho hid
  subst hsame
  have hterms : v.terms = row.terms := hversion.terms.symm
  have hamount : session.amount = row.total :=
    hpays.amount.trans (congrArg OrderTerms.total hterms)
  have hcurrency : session.currency = row.currency :=
    hpays.currency.trans (congrArg OrderTerms.currency hterms)
  exact ⟨⟨session, hsession, hown, hcaptured, hamount, hcurrency⟩, hamount, hcurrency⟩

/-- What is cleared under a public id is the order with this public id. -/
theorem Db.Recorded.paid_of_cleared (h : db.Recorded)
    (hids : (db.orders.map OrderEntity.id).Nodup) (hnames : db.publicIds.Nodup)
    (ho : o ∈ db.orders) (hcleared : db.Cleared o.publicId) (honline : o.paymentMethod = .online) :
    db.PaidFor o := by
  obtain ⟨v, ⟨row, hrow, hversion⟩, hname, hpaid⟩ := hcleared
  have hsame : row = o :=
    List.inj_on_of_nodup_map hnames hrow ho (hversion.publicId.trans hname)
  subst hsame
  have hmethod : v.paymentMethod = row.paymentMethod :=
    congrArg OrderTerms.paymentMethod hversion.terms.symm
  obtain ⟨s, hs, hown⟩ := hpaid (hmethod.trans honline)
  exact (h.paidFor hids hrow hs (hown.trans hversion.id.symm)).1

theorem Db.HasOrderId.row {id : Nat} (h : db.HasOrderId id) : ∃ o ∈ db.orders, o.id = id := by
  obtain ⟨v, ⟨row, hrow, hversion⟩, hid⟩ := h
  exact ⟨row, hrow, hversion.id.trans hid⟩

theorem Db.Recorded.noOrphans (h : db.Recorded) : db.NoOrphans := by
  intro table row hrow orderId horder
  cases table with
  | agentEarnings =>
    obtain ⟨e, he, rfl⟩ := List.mem_map.mp hrow
    exact Option.some.inj horder ▸ (h.earnings e he).row
  | paymentWebhookEvents =>
    obtain ⟨e, _, rfl⟩ := List.mem_map.mp hrow
    cases horder
  | paymentSessions =>
    obtain ⟨s, hs, rfl⟩ := List.mem_map.mp hrow
    obtain ⟨v, ⟨o, ho, hversion⟩, hpays⟩ := h.sessions s.terms ⟨s, hs, rfl⟩
    exact ⟨o, ho, hversion.id.trans (hpays.orderId.symm.trans (Option.some.inj horder))⟩
  | transactions =>
    obtain ⟨t, ht, rfl⟩ := List.mem_map.mp hrow
    exact (h.transactions t ht orderId horder).row
  | orderItems =>
    obtain ⟨i, hi, rfl⟩ := List.mem_map.mp hrow
    exact Option.some.inj horder ▸ (h.orderItems i hi).row
  | orders =>
    obtain ⟨o, _, rfl⟩ := List.mem_map.mp hrow
    cases horder

/-- Only the stamp of its own is set with each of the three statuses. -/
theorem stamps_of_setIn {v : OrderEntity} {c : Stamp} (hset : c.setIn v.status = some true)
    (hstamped : (o.column c).isSome) :
    (v.status = .accepted → o.acceptedAt.isSome) ∧ (v.status = .rejected → o.rejectedAt.isSome) ∧
      (v.status = .cancelled → o.cancelledAt.isSome) := by
  refine ⟨fun hstatus => ?_, fun hstatus => ?_, fun hstatus => ?_⟩ <;>
    rw [hstatus] at hset <;> cases c <;> first | exact hstamped | simp [Stamp.setIn] at hset

theorem Db.Recorded.trueOf (h : db.Recorded) (hids : (db.orders.map OrderEntity.id).Nodup)
    (hnames : db.publicIds.Nodup) {e : OutboxInput} (he : e.Tells db) :
    ∃ o, db.order e.aggregateId = some o ∧ e.TrueOf db o := by
  cases he with
  | @placed v items order status cleared rows own =>
    obtain ⟨o, ho, hversion⟩ := order
    have hfound := order_of_mem hnames ho
    rw [hversion.publicId] at hfound
    refine ⟨o, hfound, .placed hversion.fixed.symm status (fun honline => ?_) rows fun i hi => ?_⟩
    · exact h.paid_of_cleared hids hnames ho (hversion.publicId ▸ cleared) honline
    · exact (own i hi).trans hversion.id.symm
  | @changed v eventType c ctx order event stamp stamped =>
    obtain ⟨o, ho, hversion⟩ := order
    have hfound := order_of_mem hnames ho
    rw [hversion.publicId] at hfound
    -- No event tells of an assignment.
    have hother : c ≠ .assignedAt := by
      rintro rfl
      cases hstatus : v.status <;> rw [hstatus] at stamp event <;> cases event <;> cases stamp
    obtain ⟨haccepted, hrejected, hcancelled⟩ :=
      stamps_of_setIn stamp (hversion.stamped c hother stamped)
    exact ⟨o, hfound, .changed hversion.fixed.symm event haccepted hrejected hcancelled⟩
  | @delivered v agentId commission deliveredAt order status stamped =>
    obtain ⟨o, ho, hversion⟩ := order
    have hfound := order_of_mem hnames ho
    rw [hversion.publicId] at hfound
    exact ⟨o, hfound, .delivered hversion.fixed.symm
      (hversion.stamped .deliveredAt (by decide) stamped)⟩
  | @paid v session ctx completedAt order captured own =>
    obtain ⟨o, ho, hversion⟩ := order
    have hfound := order_of_mem hnames ho
    rw [hversion.publicId] at hfound
    obtain ⟨hpaid, hamount, hcurrency⟩ :=
      h.paidFor hids ho captured (own.trans hversion.id.symm)
    exact ⟨o, hfound, .paid hversion.fixed.symm hpaid hamount hcurrency⟩

end Tables

section Runs
variable (hmacSha256 : String → String → String) (cfg : Config) (w : World)

theorem World.Blank.recorded {w : World} (hw : w.Blank) : w.store.db.Recorded := by
  have hnone : ∀ t : TransactionEntity, t ∉ w.store.db.transactions := by
    intro t ht
    rw [hw.transactions] at ht
    cases ht
  refine ⟨fun i hi => ?_, fun s hs => ?_, fun t ht => absurd ht (hnone t),
    fun t ht => absurd ht (hnone t), fun t ht => absurd ht (hnone t), fun e he => ?_,
    fun o ho => ?_, fun e he => ?_⟩
  · rw [hw.orderItems] at hi
    cases hi
  · obtain ⟨row, hrow, _⟩ := hs
    rw [hw.paymentSessions] at hrow
    cases hrow
  · rw [hw.agentEarnings] at he
    cases he
  · rw [hw.orders] at ho
    cases ho
  · rw [hw.eventsOutbox] at he
    cases he

/-- What is committed came about by writes that fit. -/
theorem recordRun_reaches (hw : w.Blank) (calls : Pid → Option Call)
    {ok : Pid → Op → Env → World → Prop} {t : Sys Pid Op Op.Res Err World Reply}
    (ht : machine.Reaches ok (running hmacSha256 cfg calls w) t) :
    recordGrowth.Run w.store.db t.world.store.db t.world.store.history := by
  have hrest := hw.toAtRest
  -- One call is enough: its writes fit whatever the others commit in between.
  have hwp : ∀ p prog, (running hmacSha256 cfg calls w).procs p = some prog →
      wp machine ok (grownSpec recordGrowth w.store.db) p prog (OnOk fun _ _ => True) w := by
    intro p prog hprog
    obtain ⟨c, _, rfl⟩ := Option.map_eq_some_iff.mp hprog
    apply wp_call_records hmacSha256 cfg hw.recorded
    rw [World.log, hrest.txn p]
    rfl
  exact shared_reaches hrest Growth.Run.start hwp ht

theorem recorded_reaches (hw : w.Blank) (calls : Pid → Option Call)
    {ok : Pid → Op → Env → World → Prop} {t : Sys Pid Op Op.Res Err World Reply}
    (ht : machine.Reaches ok (running hmacSha256 cfg calls w) t) : t.world.store.db.Recorded :=
  (recordRun_reaches hmacSha256 cfg w hw calls ht).sound hw.recorded

/-- No two orders have one id or one public id. -/
theorem named_reaches (hw : w.Blank) (calls : Pid → Option Call)
    {ok : Pid → Op → Env → World → Prop} {t : Sys Pid Op Op.Res Err World Reply}
    (ht : machine.Reaches ok (running hmacSha256 cfg calls w) t) :
    (t.world.store.db.orders.map OrderEntity.id).Nodup ∧ t.world.store.db.publicIds.Nodup := by
  have hnone : w.store.db.orders = [] := hw.orders
  refine ⟨(Serial.numbered_reaches orderSerial hw.numbered ht).nodup, ?_⟩
  refine (namesApart_reaches hw.toAtRest ?_ (fun o ho => ?_) calls ht).unique.committed
  · rw [hnone]
    exact List.nodup_nil
  · rw [hnone] at ho
    cases ho

/-- In every interleaving of any calls, an order that is paid online and has left `pending_payment`
other than by a cancellation has been paid in full. -/
theorem paid_before_prepared (hw : w.Blank) (calls : Pid → Option Call)
    {ok : Pid → Op → Env → World → Prop} {t : Sys Pid Op Op.Res Err World Reply}
    (ht : machine.Reaches ok (running hmacSha256 cfg calls w) t) :
    ∀ o ∈ t.world.store.db.orders, o.paymentMethod = .online → o.status ≠ .pendingPayment →
      o.status ≠ .cancelled → t.world.store.db.PaidFor o := by
  intro o ho honline hpending hcancelled
  have hrecorded := recorded_reaches hmacSha256 cfg w hw calls ht
  obtain ⟨hids, hnames⟩ := named_reaches hmacSha256 cfg w hw calls ht
  exact hrecorded.paid_of_cleared hids hnames ho
    (hrecorded.cleared o ho hpending hcancelled) honline

/-- Items, sessions, transactions and earnings stay with their orders. -/
theorem no_orphans (hw : w.Blank) (calls : Pid → Option Call)
    {ok : Pid → Op → Env → World → Prop} {t : Sys Pid Op Op.Res Err World Reply}
    (ht : machine.Reaches ok (running hmacSha256 cfg calls w) t) :
    t.world.store.db.NoOrphans :=
  (recorded_reaches hmacSha256 cfg w hw calls ht).noOrphans

/-- Every event in the outbox is true of the order that it names. -/
theorem events_truthful (hw : w.Blank) (calls : Pid → Option Call)
    {ok : Pid → Op → Env → World → Prop} {t : Sys Pid Op Op.Res Err World Reply}
    (ht : machine.Reaches ok (running hmacSha256 cfg calls w) t) :
    ∀ e ∈ t.world.store.db.eventsOutbox, ∃ o, t.world.store.db.order e.aggregateId = some o ∧
      e.TrueOf t.world.store.db o := by
  intro e he
  have hrecorded := recorded_reaches hmacSha256 cfg w hw calls ht
  obtain ⟨hids, hnames⟩ := named_reaches hmacSha256 cfg w hw calls ht
  exact hrecorded.trueOf hids hnames (hrecorded.events e he)

end Runs

section Samples

/-- The two orders, and 50 pounds that are paid back for the first. -/
def twoOrdersAndRefund : Pid → Option Call
  | 9 => some (.refundPayment ⟨1, 5000, "eg", Int.le.intro 4999 rfl⟩)
  | p => twoOrders p

def refundAtLast : List (Label Pid Env Ext) :=
  twoOrdersSchedule.drop 32 ++ List.replicate 9 (.act 9 kosharyAnswers)

/-- The two orders as they are placed, and what they have come to when the schedule ends. -/
structure TwoOrdersRun (t u : Sys Pid Op Op.Res Err World Reply) : Prop where
  placed : machine.run (fun _ _ _ _ => true) (twoOrdersSchedule.take 32)
    (running sampleHmac sampleConfig twoOrdersAndRefund paymentsShard) = some t
  ended : machine.run (fun _ _ _ _ => true) refundAtLast t = some u
  waiting : t.world.store.db.paymentSessions.map (fun s => s.status) = [.initialized]
  captured : u.world.store.db.paymentSessions.map (fun s => s.status) = [.captured]
  orders : u.world.store.db.orders.map (fun o => (o.paymentMethod, o.status)) =
    [(.online, .placed), (.cod, .delivered)]
  eventsOutbox : u.world.store.db.eventsOutbox.map (fun e => e.eventType) =
    [.orderPlaced, .paymentCompleted, .orderPlaced, .orderAccepted, .orderDelivered]
  agentEarnings : u.world.store.db.agentEarnings.map (fun e => e.orderId) = [2]
  transactions : u.world.store.db.transactions.map (fun t => (t.transactionType, t.amount)) =
    [(.charge, 12500), (.codCollection, 12500), (.commission, 1000), (.adjustment, 1000),
      (.refund, 5000)]

theorem twoOrdersRun_exists : ∃ t u, TwoOrdersRun t u := by
  have hrun : ((machine.run (fun _ _ _ _ => true) (twoOrdersSchedule.take 32)
      (running sampleHmac sampleConfig twoOrdersAndRefund paymentsShard)).any fun t =>
        t.world.store.db.paymentSessions.map (fun s => s.status) = [.initialized] &&
        (machine.run (fun _ _ _ _ => true) refundAtLast t).any fun u =>
          u.world.store.db.paymentSessions.map (fun s => s.status) = [.captured] &&
          u.world.store.db.orders.map (fun o => (o.paymentMethod, o.status)) =
            [(.online, .placed), (.cod, .delivered)] &&
          u.world.store.db.eventsOutbox.map (fun e => e.eventType) =
            [.orderPlaced, .paymentCompleted, .orderPlaced, .orderAccepted, .orderDelivered] &&
          u.world.store.db.agentEarnings.map (fun e => e.orderId) = [2] &&
          u.world.store.db.transactions.map (fun t => (t.transactionType, t.amount)) =
            [(.charge, 12500), (.codCollection, 12500), (.commission, 1000),
              (.adjustment, 1000), (.refund, 5000)]) = true := by
    decide +kernel
  -- The run is evaluated once; its two states come out of the one test.
  obtain ⟨t, ht, hrows⟩ := (Option.any_eq_true _ _).mp hrun
  obtain ⟨hwaiting, hrest⟩ := Bool.and_eq_true_iff.mp hrows
  obtain ⟨u, hu, hlast⟩ := (Option.any_eq_true _ _).mp hrest
  simp only [Bool.and_eq_true, decide_eq_true_eq] at hlast
  obtain ⟨⟨⟨⟨hcaptured, horders⟩, hevents⟩, hearnings⟩, hrows⟩ := hlast
  exact ⟨t, u, ht, hu, of_decide_eq_true hwaiting, hcaptured, horders, hevents, hearnings, hrows⟩

section Reached
variable {t u : Sys Pid Op Op.Res Err World Reply} (h : TwoOrdersRun t u)
include h

theorem TwoOrdersRun.first : machine.Reaches (fun _ _ _ _ => True)
    (running sampleHmac sampleConfig twoOrdersAndRefund paymentsShard) t :=
  Machine.reaches_of_run (fun _ _ _ _ _ => trivial) _ h.placed

theorem TwoOrdersRun.second : machine.Reaches (fun _ _ _ _ => True) t u :=
  Machine.reaches_of_run (fun _ _ _ _ _ => trivial) _ h.ended

theorem TwoOrdersRun.reached : machine.Reaches (fun _ _ _ _ => True)
    (running sampleHmac sampleConfig twoOrdersAndRefund paymentsShard) u :=
  h.first.trans h.second

end Reached

theorem paymentsShard_blank : paymentsShard.Blank :=
  ⟨⟨⟨rfl, fun _ => rfl, rfl⟩, rfl, rfl, rfl, by decide⟩, rfl, rfl, rfl⟩

theorem paid_before_prepared_two_orders : ∃ t u, TwoOrdersRun t u ∧
    ∀ o ∈ u.world.store.db.orders, o.paymentMethod = .online → o.status ≠ .pendingPayment →
      o.status ≠ .cancelled → u.world.store.db.PaidFor o := by
  obtain ⟨t, u, h⟩ := twoOrdersRun_exists
  exact ⟨t, u, h, paid_before_prepared sampleHmac sampleConfig paymentsShard paymentsShard_blank
    twoOrdersAndRefund h.reached⟩

theorem no_orphans_two_orders : ∃ t u, TwoOrdersRun t u ∧ u.world.store.db.NoOrphans := by
  obtain ⟨t, u, h⟩ := twoOrdersRun_exists
  exact ⟨t, u, h, no_orphans sampleHmac sampleConfig paymentsShard paymentsShard_blank
    twoOrdersAndRefund h.reached⟩

theorem events_truthful_two_orders : ∃ t u, TwoOrdersRun t u ∧
    ∀ e ∈ u.world.store.db.eventsOutbox, ∃ o, u.world.store.db.order e.aggregateId = some o ∧
      e.TrueOf u.world.store.db o := by
  obtain ⟨t, u, h⟩ := twoOrdersRun_exists
  exact ⟨t, u, h, events_truthful sampleHmac sampleConfig paymentsShard paymentsShard_blank
    twoOrdersAndRefund h.reached⟩

end Samples

end OrderService
