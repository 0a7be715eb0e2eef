import OrderService.AccountEffects
import OrderService.LedgerEffects
import OrderService.OrderLifecycle
import OrderService.OrderMoney
import OrderService.Records

/-! What each call knows of the orders whose rows it writes: enough for every write to fit the
records. -/
namespace OrderService
open ReadCommitted Interleaving

section Rules
variable {G : Growth engine} {db₀ : Db} {ok : Pid → Op → Env → World → Prop} {p : Pid}
  {K : Db → Prop} {w : World}

/-- A statement on the pool that only reads, whatever was known before. -/
theorem wp_pool_tells (hs : G.sound db₀) {q : Sql} {L : q.Res → Db → Prop}
    (hread : ∀ seqs clock db, (q.eval seqs clock db).writes = [])
    (hq : ∀ seqs clock db a, G.sound db → (q.eval seqs clock db).reply = .ok a → L a db)
    {P : q.Res → World → Prop} (hP : ∀ a v, v.Holds G db₀ (L a) → P a v) :
    wp machine ok (grownSpec G db₀) p (sql .pool q) (OnOk P) w := by
  apply wp_pool_shared
  intro v e _ hi _
  refine ⟨fun hne => absurd (hread _ _ _) hne, fun a ha => hP a _ ?_⟩
  have hsame : (v.pooled p q).store = v.store := World.pooled_store (hread _ _ _)
  have hholds : v.Holds G db₀ (L a) := ⟨hi.2, hq _ _ _ a (hi.2.sound hs) ha⟩
  exact hholds.of_store hsame

/-- A transaction that begins knows what was known of the tables. -/
theorem wp_start_knows (hK : G.Lasting K) (h : w.Holds G db₀ K) {P : Unit → World → Prop}
    (hP : ∀ v, v.Knows G db₀ p K → v.store.txn p = .active [] → v.Holds G db₀ K → P () v) :
    wp machine ok (grownSpec G db₀) p startTransaction (OnOk P) w := by
  apply wp_start_ok (sharedSpec_isolated _ p)
  intro v hr hi _
  have hv := h.rely hK hr hi
  exact hP _ hv.start (World.start_txn v p) ⟨hv.run, hv.holds⟩

/-- A statement on the pool while a transaction is open that has written nothing. -/
theorem wp_pool_idle {q : Sql} {L : q.Res → Db → Prop} (hs : G.sound db₀) (hK : G.Lasting K)
    (h : w.Holds G db₀ K) (hopen : w.store.txn p = .active [])
    (hq : ∀ seqs clock db, K db → G.sound db → G.Fitting (q.eval seqs clock db).writes db ∧
      ∀ a, (q.eval seqs clock db).reply = .ok a →
        L a (engine.applyAll (q.eval seqs clock db).writes db))
    {P : q.Res → World → Prop}
    (hP : ∀ a v, v.Holds G db₀ (L a) → v.store.txn p = .active [] → P a v) :
    wp machine ok (grownSpec G db₀) p (sql .pool q) (OnOk P) w := by
  apply wp_pool_shared
  intro v e hr hi _
  have hv := h.rely hK hr hi
  obtain ⟨hfit, hL⟩ := hq v.seqs v.clock v.store.db hv.holds (hv.run.sound hs)
  have hcommitted := hv.run.commit hfit p
  refine ⟨fun _ => hcommitted, fun a ha => hP a _ ⟨?_, hL a ha⟩ (hr.1.txn.trans hopen)⟩
  by_cases hempty : (v.onPool q).writes = []
  · rw [World.pooled_store hempty]
    exact hv.run
  · simp only [World.pooled, List.isEmpty_iff, hempty, if_false]
    exact hcommitted

theorem wp_outer_idle (hK : G.Lasting K) (h : w.Holds G db₀ K) (hopen : w.store.txn p = .active [])
    {o : Op} (ho : o.outer = true) {P : o.Res → World → Prop}
    (hP : ∀ a v, v.Holds G db₀ K → v.store.txn p = .active [] → P a v) :
    wp machine ok (grownSpec G db₀) p (.perform o) (OnOk P) w := by
  apply wp_outer_ok (sharedSpec_isolated _ p) ho
  intro u e a v hr hi _ _ _ hstore _ _
  refine hP a v ((h.rely hK hr hi).of_store hstore) ?_
  rw [hstore]
  exact hr.1.txn.trans hopen

/-- A transaction that has written nothing always fits. -/
theorem wp_commit_idle (hopen : w.store.txn p = .active []) {P : Unit → World → Prop}
    (hP : ∀ v, P () v) : wp machine ok (grownSpec G db₀) p commit (OnOk P) w := by
  apply wp_commit_shared hopen
  intro v _ hi _
  have hnone : G.Fitting [] v.store.db := trivial
  exact ⟨hi.2.commit hnone p, hP _⟩

end Rules

section Knowledge
variable {db₀ db : Db} {o : OrderEntity} {publicId : String}

/-- What is known of an order that was found. -/
structure Found (o : OrderEntity) (db : Db) : Prop where
  has : db.Has o
  cleared : o.status ≠ .pendingPayment → o.status ≠ .cancelled → db.Cleared o.publicId

theorem has_lasting (o : OrderEntity) : recordGrowth.Lasting fun db => db.Has o :=
  fun _ _ hle h => h.mono hle

theorem found_lasting (o : OrderEntity) : recordGrowth.Lasting (Found o) :=
  fun _ _ hle h => ⟨h.has.mono hle, fun hp hc => (h.cleared hp hc).mono hle⟩

theorem true_lasting : recordGrowth.Lasting fun _ => True := fun _ _ _ _ => trivial

theorem found_of_order (hs : db.Recorded) (h : db.order publicId = some o) : Found o db :=
  have hmem := List.mem_of_find?_eq_some h
  ⟨Db.has_of_mem hmem, hs.cleared o hmem⟩

/-- What an update of a status tells of the order. -/
structure Updated (publicId : String) (status : OrderStatus) (stamp : Option Stamp)
    (o : OrderEntity) (db : Db) : Prop where
  has : db.Has o
  publicId : o.publicId = publicId
  status : o.status = status
  stamped : ∀ c, stamp = some c → (o.column c).isSome

theorem updated_lasting {status : OrderStatus} {stamp : Option Stamp} (o : OrderEntity) :
    recordGrowth.Lasting (Updated publicId status stamp o) :=
  fun _ _ hle h => ⟨h.has.mono hle, h.publicId, h.status, h.stamped⟩

theorem and_lasting {K L : Db → Prop} (hK : recordGrowth.Lasting K)
    (hL : recordGrowth.Lasting L) : recordGrowth.Lasting fun db => K db ∧ L db :=
  fun db db' hle h => ⟨hK db db' hle h.1, hL db db' hle h.2⟩

/-- The update of an order that may go on fits, and tells what it made of the order. -/
theorem eval_updateOrder {K : Db → Prop} (hK : recordGrowth.Lasting K) {status : OrderStatus}
    (hfits : ∀ db, K db → status = .cancelled ∨ db.Cleared publicId) (stamp : Option Stamp)
    (now : Time) (seqs : Seqs) (clock : Time) (hdb : K db) :
    recordGrowth.Fitting
        ((Sql.updateOrderStatus publicId status stamp now).eval seqs clock db).writes db ∧
      ∀ row,
        ((Sql.updateOrderStatus publicId status stamp now).eval seqs clock db).reply = .ok row →
        ∀ o, row = some o → K (engine.applyAll
            ((Sql.updateOrderStatus publicId status stamp now).eval seqs clock db).writes db) ∧
          Updated publicId status stamp o (engine.applyAll
            ((Sql.updateOrderStatus publicId status stamp now).eval seqs clock db).writes db) := by
  simp only [Sql.eval]
  cases hfound : db.order publicId with
  | none =>
    refine ⟨trivial, ?_⟩
    rintro _ h o rfl
    cases h
  | some o₀ =>
    have hfit : Write.FitsRecords (.setOrderStatus publicId status stamp now) db := hfits db hdb
    refine ⟨⟨hfit, trivial⟩, ?_⟩
    rintro _ h o rfl
    simp only [writing, Except.ok.injEq, Option.some.injEq] at h
    refine ⟨hK _ _ hfit.grows hdb, ?_, ?_, ?_, fun c hc => ?_⟩
    · have hname : o₀.publicId = publicId := by
        have htest := List.find?_some hfound
        simpa using htest
      refine ⟨o, mem_orders_apply.mpr (.inl ⟨o₀, List.mem_of_find?_eq_some hfound, ?_⟩), .refl o⟩
      rw [onOrder_setOrderStatus, if_pos hname]
      exact h
    · have htest := List.find?_some hfound
      rw [← h, withStatus_publicId]
      simpa using htest
    · rw [← h, withStatus_status]
    · rw [← h, withStatus_column, if_pos hc]
      rfl

variable {ok : Pid → Op → Env → World → Prop} {p : Pid} {w : World}

/-- The order route and the agents find their order on the pool. -/
theorem wp_findOrder_records (hs : db₀.Recorded) {P : Option OrderEntity → World → Prop}
    (hP : ∀ found v, v.Holds recordGrowth db₀ (fun db => ∀ o, found = some o → Found o db) →
      P found v) :
    wp machine ok (grownSpec recordGrowth db₀) p (findOrderByPublicId publicId .pool)
      (OnOk P) w := by
  apply wp_pool_tells hs (fun _ _ _ => rfl) _ hP
  intro seqs clock db found hsound hreply o ho
  simp only [Sql.eval, reading, Except.ok.injEq] at hreply
  exact found_of_order hsound (hreply.trans ho)

theorem wp_updateOrder_trx (hs : db₀.Recorded) {K : Db → Prop} (hK : recordGrowth.Lasting K)
    (h : w.Knows recordGrowth db₀ p K) {status : OrderStatus} {stamp : Option Stamp}
    (hfits : ∀ db, K db → status = .cancelled ∨ db.Cleared publicId)
    {P : OrderEntity → World → Prop}
    (hP : ∀ o v, v.Knows recordGrowth db₀ p (fun db =>
      K db ∧ Updated publicId status stamp o db) → P o v) :
    wp machine ok (grownSpec recordGrowth db₀) p (updateOrderStatus publicId status .trx stamp)
      (OnOk P) w := by
  unfold updateOrderStatus
  apply wp_seq
  apply wp_outer_knows hK h rfl
  intro e now _ v₁ _ _ hv₁
  apply wp_seq
  apply wp_trx_knows (L := fun row db => ∀ o, row = some o → K db ∧
    Updated publicId status stamp o db) hs hK hv₁
    fun seqs clock db hdb _ => eval_updateOrder hK hfits stamp now seqs clock hdb
  intro row v₂ hv₂
  apply wp_toEntity
  exact fun o ho => hP o v₂ (hv₂.mono fun db hdb => hdb o ho)

theorem wp_updateOrder_pool (hs : db₀.Recorded) {K : Db → Prop} (hK : recordGrowth.Lasting K)
    (h : w.Holds recordGrowth db₀ K) {status : OrderStatus} {stamp : Option Stamp}
    (hfits : ∀ db, K db → status = .cancelled ∨ db.Cleared publicId)
    {P : OrderEntity → World → Prop} (hP : ∀ o v, P o v) :
    wp machine ok (grownSpec recordGrowth db₀) p (updateOrderStatus publicId status .pool stamp)
      (OnOk P) w := by
  unfold updateOrderStatus
  apply wp_seq
  apply wp_outer_holds hK h rfl
  intro e now _ v₁ _ _ hv₁
  apply wp_seq
  apply wp_pool_holds (L := fun _ _ => True) hs hK hv₁
  · intro seqs clock db hdb _
    exact ⟨(eval_updateOrder hK hfits stamp now seqs clock hdb).1, fun _ _ => trivial⟩
  · intro row v₂ _
    exact wp_toEntity fun o _ => hP o v₂

end Knowledge

section Deliveries
variable {db₀ : Db} {ok : Pid → Op → Env → World → Prop} {p : Pid} {w : World}
  {order : OrderEntity}

/-- The write fits as long as the order is there. -/
def Referring (order : OrderEntity) (x : Write) : Prop := ∀ db : Db, db.Has order → x.FitsRecords db

theorem orNull_some {n : Option Nat} {m : Nat} (h : orNull n = some m) : n = some m := by
  rcases n with _ | _ | n
  · cases h
  · cases h
  · exact h

theorem stored_toEntity (data : TransactionData) (id : Nat) (now : Time) :
    (data.toEntity id now).Stored :=
  ⟨orNull_orNull _, orNull_orNull _, orNull_orNull _⟩

theorem referring_transaction {data : TransactionData} (horder : data.orderId = some order.id)
    (hkind : data.transactionType ≠ .refund) (hmark : data.isRefunded = false) (id : Nat)
    (now : Time) : Referring order (.insertTransaction (data.toEntity id now)) := by
  intro db hdb
  refine ⟨fun orderId hid => ?_, fun _ => ⟨hmark, stored_toEntity data id now⟩,
    fun hrefund => absurd hrefund hkind⟩
  have hsome : data.orderId = some orderId := orNull_some hid
  rw [horder] at hsome
  exact ⟨order, hdb, Option.some.inj hsome⟩

/-- A settlement writes rows of its order, and last the event of its delivery. -/
theorem calls_settlement_records (cfg : Config) (agentId : Nat)
    (hstatus : order.status = .delivered) (hstamped : order.deliveredAt.isSome) :
    (settleDeliveredOrder cfg order agentId .trx).Calls (Op.Appends (Referring order))
      (fun _ _ => True) fun _ => True := by
  have hnow : Op.now.Appends (Referring order) := rfl
  have hread : ∀ q : Sql, (∀ x, ¬q.MayWrite x) → (Op.sql .trx q).Appends (Referring order) :=
    fun q hq x hx => absurd hx (hq x)
  have hcreate : ∀ data : TransactionData, data.orderId = some order.id →
      data.transactionType ≠ .refund → data.isRefunded = false → ∀ now,
      (Op.sql .trx (.createTransaction data now)).Appends (Referring order) := by
    rintro data hdata hkind hmark now x ⟨id, rfl⟩
    exact referring_transaction hdata hkind hmark id now
  have hbranch : (Op.getBranch order.branchId).Appends (Referring order) := rfl
  have hrate : (fetchCommissionBps order.branchId).Calls (Op.Appends (Referring order))
      (fun _ _ => True) fun _ => True :=
    calls_fetchCommissionBps hbranch (fun _ _ => trivial) trivial
  apply Prog.calls_do hrate
  intro bps _
  apply Prog.calls_do (calls_when fun _ => calls_cod hnow (hread _ fun x hx => hx)
    (hcreate _ rfl (by rintro ⟨⟩) rfl) ?_)
  · intro _ _
    apply Prog.calls_do (calls_when fun _ => calls_book hnow (hread _ fun x hx => hx)
      (hcreate _ rfl (by rintro ⟨⟩) rfl))
    intro _ _
    apply Prog.calls_do (calls_when fun _ => calls_book hnow (hread _ fun x hx => hx)
      (hcreate _ rfl (by rintro ⟨⟩) rfl))
    intro _ _
    apply Prog.calls_do (calls_when fun _ => calls_book hnow (hread _ fun x hx => hx)
      (hcreate _ rfl (by rintro ⟨⟩) rfl))
    intro _ _
    refine Prog.calls_do (calls_when fun _ => ?_) ?_
    · apply Prog.calls_do (calls_sql (hread (.lockBalance _ _) fun x hx => hx) fun _ _ => trivial)
      intro balance _
      refine calls_sql ?_ fun _ _ => trivial
      rintro x rfl db _
      trivial
    intro _ _
    refine Prog.calls_do (calls_when fun _ => Prog.calls_discard (Q := fun _ => True) ?_ trivial) ?_
    · refine Prog.calls_do (calls_sql ?_ fun _ _ => trivial) ?_
      · rintro x ⟨id, clock, rfl⟩ db hdb
        exact ⟨order, hdb, rfl⟩
      · intro row _
        cases row with
        | some e => trivial
        | none =>
          apply Prog.calls_do (calls_sql (hread (.findEarningByOrder _) fun x hx => hx)
            fun _ _ => trivial)
          intro existing _
          cases existing <;> trivial
    intro _ _
    apply Prog.calls_do (calls_now hnow fun _ => trivial)
    intro deliveredAt _
    refine Prog.calls_discard (calls_sql ?_ fun _ _ => trivial) trivial
    rintro x ⟨id, clock, rfl⟩ db hdb
    exact OutboxInput.Tells.delivered hdb hstatus hstamped
  · rintro id now x rfl db _
    rfl

theorem wp_deliver_records (hs : db₀.Recorded) (cfg : Config) (agentId : Nat) (region : String)
    (h : w.Holds recordGrowth db₀ (Found order)) {P : OrderEntity → World → Prop}
    (hP : ∀ o v, P o v) :
    wp machine ok (grownSpec recordGrowth db₀) p (deliver cfg order agentId region) (OnOk P) w := by
  have hS := sharedSpec_isolated (recordGrowth.Run db₀) p
  unfold deliver
  split_ifs with hpicked
  · trivial
  have hstatus : order.status = .picked := not_not.mp hpicked
  apply wp_seq
  apply wp_start_knows (found_lasting order) h
  intro v₁ hv₁ _ _
  apply wp_catch_ok _ fun err v => wp_abort hS
  apply wp_seq
  apply wp_updateOrder_trx hs (found_lasting order) hv₁
  · -- The order was picked when it was read, so what it costs had been paid by then.
    intro db hdb
    exact .inr (hdb.cleared (by rw [hstatus]; decide) (by rw [hstatus]; decide))
  intro updated v₂ hv₂
  have hupdated := hv₂.known.2
  have hv₂' := hv₂.mono fun db hdb => hdb.2.has
  apply wp_seq
  apply wp_appends_knows (has_lasting updated) (fun x hx db hdb => hx db hdb)
    (calls_settlement_records cfg agentId hupdated.status (hupdated.stamped _ rfl))
    (fun _ _ _ _ _ _ _ => trivial) hv₂'
  intro earned v₃ _ hv₃
  apply wp_seq
  apply wp_commit_knows (has_lasting updated) hv₃
  intro v₄ _
  apply wp_outside hS _ hP
  apply Prog.calls_do (calls_outer rfl)
  intro _ _
  apply Prog.calls_do (calls_emitDeliveryStatus fun _ => rfl)
  intro _ _
  exact Prog.calls_do (calls_outer rfl) fun _ _ => trivial

theorem wp_pickup_records (hs : db₀.Recorded) (h : w.Holds recordGrowth db₀ (Found order))
    {P : OrderEntity → World → Prop} (hP : ∀ o v, P o v) :
    wp machine ok (grownSpec recordGrowth db₀) p (pickup order) (OnOk P) w := by
  unfold pickup
  split_ifs with hassigned
  · trivial
  have hstatus : order.status = .assigned := not_not.mp hassigned
  apply wp_seq
  apply wp_updateOrder_pool hs (found_lasting order) h
  · intro db hdb
    exact .inr (hdb.cleared (by rw [hstatus]; decide) (by rw [hstatus]; decide))
  intro updated v
  apply wp_outside (sharedSpec_isolated _ p) _ hP
  exact Prog.calls_do (calls_emitDeliveryStatus fun _ => rfl) fun _ _ => trivial

theorem wp_agentUpdateStatus_records (hs : db₀.Recorded) (cfg : Config) (publicId : String)
    (agentId : Nat) (region : String) (action : DeliveryAction) {P : OrderEntity → World → Prop}
    (hP : ∀ o v, P o v) :
    wp machine ok (grownSpec recordGrowth db₀) p
      (agentUpdateStatus cfg publicId agentId region action) (OnOk P) w := by
  unfold agentUpdateStatus
  apply wp_seq
  apply wp_findOrder_records hs
  intro found v hv
  cases found with
  | none => trivial
  | some order =>
    have hfound : v.Holds recordGrowth db₀ (Found order) :=
      ⟨hv.run, hv.holds order rfl⟩
    dsimp only
    split_ifs
    · trivial
    cases action with
    | picked => exact wp_pickup_records hs hfound hP
    | delivered => exact wp_deliver_records hs cfg agentId region hfound hP
    | _ => trivial

end Deliveries

section Statuses
variable {db₀ : Db} {ok : Pid → Op → Env → World → Prop} {p : Pid} {w : World}
  {current next : OrderStatus} {ctx : AssertTransitionContext} {stamp : Option Stamp}

/-- Nobody who uses the route brings an unpaid order anywhere but to `cancelled`. -/
theorem goesOn_of_check (hactor : ctx.actor ≠ .system)
    (h : checkTransition current next ctx = .ok stamp) :
    next = .cancelled ∨ (current ≠ .pendingPayment ∧ current ≠ .cancelled) := by
  obtain ⟨rule, hrule, hmem, _⟩ := checkTransition_ok h
  cases current with
  | pendingPayment =>
    cases next with
    | placed =>
      cases hrule
      exact absurd (List.mem_singleton.mp hmem) hactor
    | cancelled => exact .inl rfl
    | _ => cases hrule
  | cancelled => cases hrule
  | _ => exact .inr ⟨by decide, by decide⟩

/-- A status that has an event has a stamp of its own. -/
theorem stamp_of_check {eventType : EventType} (h : checkTransition current next ctx = .ok stamp)
    (hevent : outboxEventForStatus next = some eventType) :
    ∃ c, stamp = some c ∧ c.setIn next = some true := by
  obtain ⟨rule, hrule, _, rfl⟩ := checkTransition_ok h
  cases next with
  | accepted | rejected | cancelled =>
    cases current <;> cases hrule <;> exact ⟨_, rfl, rfl⟩
  | _ => cases hevent

/-- The order is updated and its event inserted on the pool, in this order. -/
theorem wp_writeStatus_records (hs : db₀.Recorded) {order : OrderEntity}
    {dto : UpdateOrderStatusRequest} (hactor : ctx.actor ≠ .system)
    (hcheck : checkTransition order.status dto.status ctx = .ok stamp)
    (h : w.Holds recordGrowth db₀ (Found order)) (hopen : w.store.txn p = .active [])
    {P : OrderEntity → World → Prop} (hP : ∀ o v, P o v) :
    wp machine ok (grownSpec recordGrowth db₀) p (writeStatus dto order stamp ctx) (OnOk P) w := by
  have hlasting := found_lasting order
  -- The row may have changed since it was read; that it was cleared cannot be undone.
  have hfits : ∀ db, Found order db → dto.status = .cancelled ∨ db.Cleared order.publicId := by
    intro db hdb
    rcases goesOn_of_check hactor hcheck with hcancelled | ⟨hpending, hcancelled⟩
    · exact .inl hcancelled
    · exact .inr (hdb.cleared hpending hcancelled)
  unfold writeStatus updateOrderStatus
  apply wp_seq
  apply wp_seq
  apply wp_outer_idle hlasting h hopen rfl
  intro now v₁ hv₁ hopen₁
  apply wp_seq
  apply wp_pool_idle
    (L := fun row db => ∀ o, row = some o → Found order db ∧
      Updated order.publicId dto.status stamp o db) hs
    hlasting hv₁ hopen₁ fun seqs clock db hdb _ => eval_updateOrder hlasting hfits stamp now seqs
      clock hdb
  intro row v₂ hv₂ hopen₂
  apply wp_toEntity
  intro updated hrow
  -- The update is on the pool, so it is committed before its event is.
  have hupdated : v₂.Holds recordGrowth db₀ (Updated order.publicId dto.status stamp updated) :=
    ⟨hv₂.run, (hv₂.holds updated hrow).2⟩
  apply wp_seq
  have hemit : wp machine ok (grownSpec recordGrowth db₀) p (emitTransition updated ctx)
      (OnOk fun _ v => v.store.txn p = .active []) v₂ := by
    unfold emitTransition
    cases hevent : outboxEventForStatus updated.status with
    | none => exact hopen₂
    | some eventType =>
      obtain ⟨c, hc, hset⟩ := stamp_of_check hcheck (hupdated.holds.status ▸ hevent)
      apply wp_pool_idle (L := fun _ _ => True) hs (updated_lasting updated) hupdated hopen₂
      · intro seqs clock db hdb _
        refine ⟨⟨?_, trivial⟩, fun _ _ => trivial⟩
        exact OutboxInput.Tells.changed hdb.has hevent (hdb.status ▸ hset) (hdb.stamped c hc)
      · exact fun _ v₃ _ hopen₃ => hopen₃
  apply wp_mono _ hemit
  intro r v₃ hopen₃
  cases r with
  | error err => trivial
  | ok _ =>
  apply wp_seq
  exact wp_commit_idle hopen₃ fun v₄ => hP _ v₄

theorem wp_updateStatus_records (hs : db₀.Recorded) {actor : ActorContext}
    {dto : UpdateOrderStatusRequest} {region orderId : String}
    {P : OrderStatusResponse → World → Prop} (hP : ∀ r v, P r v) :
    wp machine ok (grownSpec recordGrowth db₀) p (updateStatus actor dto region orderId)
      (OnOk P) w := by
  have hS := sharedSpec_isolated (recordGrowth.Run db₀) p
  unfold updateStatus
  apply wp_seq
  apply wp_findOrder_records hs
  intro found v hv
  cases found with
  | none => trivial
  | some order =>
  have hfound : v.Holds recordGrowth db₀ (Found order) := ⟨hv.run, hv.holds order rfl⟩
  dsimp only
  apply wp_seq
  apply wp_fromExcept
  intro statusActor hactor
  apply wp_seq
  rw [assertTransition_eq]
  apply wp_fromExcept
  intro stamp hcheck
  apply wp_seq
  apply wp_start_knows (found_lasting order) hfound
  intro v₁ _ hopen₁ hv₁
  apply wp_seq
  apply wp_catch_ok
  · apply wp_writeStatus_records hs (resolveStatusActor_ne_system hactor) hcheck hv₁ hopen₁
    intro updated v₂
    apply wp_outside hS _ fun _ _ => hP _ _
    apply Prog.calls_do (calls_outer rfl)
    intro _ _
    apply Prog.calls_do (calls_outer rfl)
    intro _ _
    exact Prog.calls_do (calls_outer rfl) fun _ _ => trivial
  · exact fun err v₂ => wp_abort hS

end Statuses

section Webhooks
variable {db₀ : Db} {ok : Pid → Op → Env → World → Prop} {p : Pid} {w : World}
  {ctx : WebhookContext} {order : OrderEntity} {session : PaymentSessionEntity}

/-- The order is there and its session is captured. -/
structure Paid (order : OrderEntity) (session : PaymentSessionEntity) (db : Db) : Prop where
  has : db.Has order
  captured : db.HasCaptured session.terms

theorem paid_lasting : recordGrowth.Lasting (Paid order session) :=
  fun _ _ hle h => ⟨h.has.mono hle, hle.captured _ h.captured⟩

theorem Paid.cleared {db : Db} (h : Paid order session db) (hown : session.orderId = order.id) :
    db.Cleared order.publicId :=
  ⟨order, h.has, rfl, fun _ => ⟨session.terms, h.captured, hown⟩⟩

theorem wp_capture_records (hs : db₀.Recorded)
    (h : w.Knows recordGrowth db₀ p fun db => db.Has order ∧ db.HasSession session.terms)
    {P : PaymentSessionEntity → World → Prop}
    (hP : ∀ s v, v.Knows recordGrowth db₀ p (Paid order session) → P s v) :
    wp machine ok (grownSpec recordGrowth db₀) p
      (updatePaymentSessionStatus session.id .captured .trx) (OnOk P) w := by
  have hlasting : recordGrowth.Lasting fun db => db.Has order ∧ db.HasSession session.terms :=
    fun _ _ hle hdb => ⟨hdb.1.mono hle, hle.sessions _ hdb.2⟩
  unfold updatePaymentSessionStatus
  apply wp_seq
  apply wp_outer_knows hlasting h rfl
  intro e now _ v₁ _ _ hv₁
  apply wp_seq
  apply wp_trx_knows (L := fun row db => ∀ s, row = some s → Paid order session db) hs hlasting hv₁
  · intro seqs clock db hdb _
    simp only [Sql.eval]
    cases hfound : db.paymentSessions.find? fun s => s.id = session.id with
    | none => exact ⟨trivial, by rintro _ h s rfl; cases h⟩
    | some found =>
      have hfits : (Write.setSessionStatus session.id .captured now).FitsRecords db := rfl
      refine ⟨⟨hfits, trivial⟩, fun _ _ _ _ => ⟨hdb.1.mono hfits.grows, ?_⟩⟩
      -- One with these terms is there, and the write captures whatever has its id.
      exact (hasCaptured_setSessionStatus _ _ _ db _).mpr (.inl ⟨rfl, rfl, hdb.2⟩)
  · intro row v₂ hv₂
    apply wp_toEntity
    rintro s rfl
    exact hP s v₂ (hv₂.mono fun db hdb => hdb s rfl)

/-- An order that was waiting for its payment is placed, and its items are those of the event. -/
theorem wp_placePaid_records (hs : db₀.Recorded) (hown : session.orderId = order.id)
    (h : w.Knows recordGrowth db₀ p (Paid order session))
    {P : Option (OrderEntity × Nat) → World → Prop}
    (hP : ∀ a v, v.Knows recordGrowth db₀ p (fun _ => True) → P a v) :
    wp machine ok (grownSpec recordGrowth db₀) p (placePaidOrder order) (OnOk P) w := by
  unfold placePaidOrder
  split_ifs
  · apply wp_seq
    apply wp_updateOrder_trx hs paid_lasting h fun db hdb => .inr (hdb.cleared hown)
    intro placed v₁ hv₁
    have hlasting : recordGrowth.Lasting fun db => Paid order session db ∧
        Updated order.publicId .placed none placed db :=
      and_lasting paid_lasting (updated_lasting placed)
    apply wp_seq
    apply wp_trx_reads (L := fun items db => db.Has placed ∧ db.Cleared placed.publicId ∧
      items ⊆ db.orderItems ∧ ∀ i ∈ items, i.orderId = placed.id) hs hlasting hv₁ fun _ _ _ => rfl
    · intro seqs clock db items hdb _ hreply
      simp only [Sql.eval, reading, Except.ok.injEq] at hreply
      refine ⟨hdb.2.has, ?_, ?_, ?_⟩
      · rw [hdb.2.publicId]
        exact hdb.1.cleared hown
      · rw [← hreply]
        exact List.filter_sublist.subset
      · intro i hi
        rw [← hreply] at hi
        simpa using (List.mem_filter.mp hi).2
    intro items v₂ hv₂
    have hstatus : placed.status = .placed := hv₁.known.2.status
    have hitems : recordGrowth.Lasting fun db => db.Has placed ∧ db.Cleared placed.publicId ∧
        items ⊆ db.orderItems ∧ ∀ i ∈ items, i.orderId = placed.id :=
      fun _ _ hle hdb => ⟨hdb.1.mono hle, hdb.2.1.mono hle,
        List.Subset.trans hdb.2.2.1 hle.orderItems, hdb.2.2.2⟩
    apply wp_seq
    apply wp_trx_knows (L := fun _ _ => True) hs hitems hv₂
    · intro seqs clock db hdb _
      refine ⟨⟨?_, trivial⟩, fun _ _ => trivial⟩
      exact OutboxInput.Tells.placed hdb.1 hstatus hdb.2.1 hdb.2.2.1 hdb.2.2.2
    · exact fun _ v₃ hv₃ => hP _ v₃ hv₃
  · exact hP none w (h.mono fun _ _ => trivial)

/-- The write fits once the session of the order is captured. -/
def Payment (order : OrderEntity) (session : PaymentSessionEntity) (x : Write) : Prop :=
  ∀ db, Paid order session db → x.FitsRecords db

/-- Between the capture and the placement: a charge of the order. -/
theorem calls_charge_records {status : TransactionStatus} {dstAccId : Nat} :
    (recordCharge ctx order session status dstAccId).Calls (Op.Appends (Payment order session))
      (fun _ _ => True) fun _ => True := by
  have hnow : Op.now.Appends (Payment order session) := rfl
  have hread : (Op.sql .trx (.findTransactionByProviderReference ctx.transactionId)).Appends
      (Payment order session) := fun x hx => absurd hx id
  apply calls_recordCharge hnow hread
  rintro now x ⟨id, rfl⟩ db hdb
  exact referring_transaction rfl (by rintro ⟨⟩) rfl id now db hdb.has

/-- And the event of the payment. -/
theorem calls_completed_records (hown : session.orderId = order.id) (completedAt : Time) :
    (insertOutboxEvent .trx (paymentEvent ctx order session .paymentCompleted completedAt)).Calls
      (Op.Appends (Payment order session)) (fun _ _ => True) fun _ => True := by
  refine calls_sql ?_ fun _ _ => trivial
  rintro x ⟨id, clock, rfl⟩ db hdb
  exact OutboxInput.Tells.paid hdb.has hdb.captured hown

theorem wp_applySuccess_records (hs : db₀.Recorded) (hown : session.orderId = order.id)
    (h : w.Knows recordGrowth db₀ p fun db => db.Has order ∧ db.HasSession session.terms)
    {P : Option (OrderEntity × Nat) → World → Prop}
    (hP : ∀ a v, v.Knows recordGrowth db₀ p (fun _ => True) → P a v) :
    wp machine ok (grownSpec recordGrowth db₀) p (applySuccess ctx order session) (OnOk P) w := by
  have hfits : ∀ x, Payment order session x → ∀ db, Paid order session db →
      recordGrowth.fits x db := fun _ hx db hdb => hx db hdb
  have hbranch : (Op.getBranch order.branchId).Appends (Payment order session) := rfl
  have hnow : Op.now.Appends (Payment order session) := rfl
  unfold applySuccess
  apply wp_seq
  apply wp_capture_records hs h
  intro _ v₁ hv₁
  apply wp_seq
  apply wp_appends_knows paid_lasting hfits (calls_fetchRestaurantOwner hbranch)
    (fun _ _ _ _ _ _ _ => trivial) hv₁
  intro owner v₂ _ hv₂
  apply wp_seq
  apply wp_appends_knows paid_lasting hfits calls_charge_records
    (fun _ _ _ _ _ _ _ => trivial) hv₂
  intro _ v₃ _ hv₃
  apply wp_seq
  apply wp_outer_knows paid_lasting hv₃ rfl
  intro e completedAt _ v₄ _ _ hv₄
  apply wp_seq
  apply wp_appends_knows paid_lasting hfits (calls_completed_records hown completedAt)
    (fun _ _ _ _ _ _ _ => trivial) hv₄
  intro _ v₅ _ hv₅
  exact wp_placePaid_records hs hown hv₅ hP

/-- The order that the webhook names, as its transaction finds it. -/
theorem wp_findReferenced_records (hs : db₀.Recorded) {reference : Option Json}
    (h : w.Knows recordGrowth db₀ p fun _ => True) {P : Option OrderEntity → World → Prop}
    (hP : ∀ found v, v.Knows recordGrowth db₀ p (fun db => ∀ o, found = some o → db.Has o) →
      P found v) :
    wp machine ok (grownSpec recordGrowth db₀) p (findReferencedOrder reference .trx)
      (OnOk P) w := by
  unfold findReferencedOrder
  split
  · apply wp_trx_reads hs true_lasting h (fun _ _ _ => rfl) _ hP
    intro seqs clock db found _ hsound hreply o ho
    simp only [Sql.eval, reading, Except.ok.injEq] at hreply
    exact (found_of_order hsound (hreply.trans ho)).has
  · exact hP none w (h.mono fun _ _ o ho => by cases ho)
  · trivial

theorem wp_processWebhook_records (hs : db₀.Recorded) {event : Json}
    (hpay : event.isText "pay" = true) {insertedId : Nat}
    (h : w.Knows recordGrowth db₀ p fun _ => True) {P : Unit → World → Prop}
    (hP : ∀ v, P () v) :
    wp machine ok (grownSpec recordGrowth db₀) p (processWebhook event ctx insertedId)
      (OnOk P) w := by
  have hS := sharedSpec_isolated (recordGrowth.Run db₀) p
  unfold processWebhook
  apply wp_seq
  apply wp_findReferenced_records hs h
  intro found v₁ hv₁
  cases found with
  | none => trivial
  | some order =>
  have hv₁' := hv₁.mono fun db hdb => hdb order rfl
  apply wp_seq
  apply wp_trx_reads (L := fun row db => ∀ s, row = some s →
    (db.Has order ∧ db.HasSession s.terms) ∧ s.orderId = order.id) hs (has_lasting order) hv₁'
    fun _ _ _ => rfl
  · intro seqs clock db row hdb _ hreply s hrow
    simp only [Sql.eval, reading, Except.ok.injEq] at hreply
    rw [← hreply] at hrow
    obtain ⟨hmem, htest⟩ := List.mem_filter.mp (mem_of_firstDesc hrow)
    simp only [Bool.and_eq_true, decide_eq_true_eq] at htest
    exact ⟨⟨hdb, s, hmem, rfl⟩, htest.1⟩
  intro row v₂ hv₂
  cases row with
  | none => trivial
  | some session =>
  have hown := (hv₂.known session rfl).2
  apply wp_seq
  unfold applyEvent
  rw [hpay, Bool.true_or, if_pos rfl]
  apply wp_applySuccess_records hs hown (hv₂.mono fun db hdb => (hdb session rfl).1)
  intro broadcast v₃ hv₃
  apply wp_seq
  apply wp_outer_knows true_lasting hv₃ rfl
  intro e processedAt _ v₄ _ _ hv₄
  apply wp_seq
  apply wp_trx_knows (L := fun _ _ => True) hs true_lasting hv₄
  · intro seqs clock db _ _
    have hfits : (Write.setWebhookEvent insertedId (some processedAt) none).FitsRecords db :=
      trivial
    exact ⟨⟨hfits, trivial⟩, fun _ _ => trivial⟩
  intro _ v₅ hv₅
  apply wp_seq
  apply wp_commit_knows true_lasting hv₅
  exact fun v₆ _ => wp_outside hS calls_announcePlaced fun _ v => hP v

/-- The body of the webhook is parsed and its signature checked before anything is written. -/
theorem wp_webhook_records (hs : db₀.Recorded) (hmacSha256 : String → String → String)
    (cfg : Config) (rawBody : Option Json) (signature region : String)
    {P : Unit → World → Prop} (hP : ∀ v, P () v) :
    wp machine ok (grownSpec recordGrowth db₀) p
      (verifyAndProcessWebhook hmacSha256 cfg rawBody signature region) (OnOk P) w := by
  have hS := sharedSpec_isolated (recordGrowth.Run db₀) p
  have hmark : ∀ id processedAt processError x,
      (Sql.updateWebhookEventStatus id processedAt processError).MayWrite x →
      ∀ db, recordGrowth.fits x db := by
    rintro id processedAt processError x rfl db
    trivial
  unfold verifyAndProcessWebhook
  split
  · trivial
  next envelope _ =>
  split_ifs with hevent
  · exact hP w
  · trivial
  have hpay : envelope.event.isText "pay" = true := by
    simpa using hevent
  apply wp_seq
  apply wp_pool_fits fun x hx => absurd hx id
  intro provider v₁
  cases provider with
  | none => trivial
  | some provider =>
  dsimp only
  split_ifs
  · trivial
  apply wp_seq
  apply wp_fromExcept
  intro isValid _
  split_ifs
  · trivial
  apply wp_seq
  apply wp_fromExcept
  intro transactionId _
  unfold receiveWebhook insertWebhookEvent
  apply wp_seq
  apply wp_seq
  apply wp_now_ok hS
  intro v₂ _ _
  apply wp_pool_fits
  · rintro x ⟨id, rfl⟩ db
    trivial
  intro inserted v₃
  cases inserted with
  | none => exact hP v₃
  | some insertedEvent =>
  dsimp only
  apply wp_seq
  apply wp_start_fresh
  intro v₄ hv₄
  apply wp_catch_ok (wp_processWebhook_records hs hpay hv₄ hP)
  intro error v₅
  apply wp_seq
  apply wp_rollback hS
  intro v₆ _ _ _
  apply wp_seq
  apply wp_now_ok hS
  intro v₇ _ _
  apply wp_seq
  exact wp_pool_fits (hmark _ _ _) fun _ _ => trivial

end Webhooks

section Refunds
variable {db₀ : Db} {ok : Pid → Op → Env → World → Prop} {p : Pid} {w : World}
  {tx : TransactionEntity}

/-- What is known of a transaction that was found. -/
structure FoundRow (tx : TransactionEntity) (db : Db) : Prop where
  has : db.HasTransaction tx
  order : ∀ id, tx.orderId = some id → db.HasOrderId id
  stored : tx.transactionType = .charge → tx.Stored

theorem foundRow_lasting (tx : TransactionEntity) : recordGrowth.Lasting (FoundRow tx) :=
  fun _ _ hle h => ⟨h.has.mono hle, fun id hid => (h.order id hid).mono hle, h.stored⟩

theorem foundRow_of_mem {db : Db} (hs : db.Recorded) (h : tx ∈ db.transactions) : FoundRow tx db :=
  ⟨⟨tx, h, .refl tx⟩, hs.transactions tx h, hs.charges tx h⟩

theorem refundable_of_assert {amount : Int} (h : assertRefundable tx amount = .ok ()) :
    tx.transactionType = .charge ∧ tx.status = .succeeded ∧ amount ≤ tx.amount := by
  unfold assertRefundable at h
  split_ifs at h with hkind _ hamount
  have hboth := not_or.mp hkind
  exact ⟨not_not.mp hboth.1, not_not.mp hboth.2, not_lt.mp hamount⟩

/-- Whatever version of the charge is there, it is marked. -/
theorem hasTransaction_mark {db : Db} (h : db.HasTransaction tx) (now : Time) :
    (engine.apply (.markRefunded tx.id now) db).HasTransaction { tx with isRefunded := true } := by
  obtain ⟨row, hrow, hcont⟩ := h
  have hid : row.id = tx.id := hcont.reads (f := fun row => row.id) fun _ => rfl
  refine ⟨_, mem_transactions_apply.mpr (.inl ⟨row, hrow, rfl⟩), ?_⟩
  rw [onTransaction_markRefunded, if_pos hid]
  exact ⟨hcont.fixed, hcont.succeeded, fun _ => rfl⟩

theorem wp_markRefunded_records (hs : db₀.Recorded)
    (h : w.Knows recordGrowth db₀ p (FoundRow tx)) {P : Unit → World → Prop}
    (hP : ∀ a v, v.Knows recordGrowth db₀ p (FoundRow { tx with isRefunded := true }) → P a v) :
    wp machine ok (grownSpec recordGrowth db₀) p (markTransactionAsRefunded tx.id .trx)
      (OnOk P) w := by
  have hlasting := foundRow_lasting tx
  unfold markTransactionAsRefunded
  apply wp_seq
  apply wp_outer_knows hlasting h rfl
  intro e now _ v₁ _ _ hv₁
  apply wp_trx_knows (L := fun _ db => FoundRow { tx with isRefunded := true } db) hs hlasting hv₁
    _ hP
  intro seqs clock db hdb _
  have hfits : (Write.markRefunded tx.id now).FitsRecords db := trivial
  refine ⟨⟨hfits, trivial⟩, fun _ _ => ?_⟩
  have hlater : FoundRow tx (engine.apply (.markRefunded tx.id now) db) :=
    hlasting _ _ hfits.grows hdb
  have hstored : tx.transactionType = .charge →
      ({ tx with isRefunded := true } : TransactionEntity).Stored := by
    intro hkind
    obtain ⟨horder, hsrc, hdst⟩ := hdb.stored hkind
    exact ⟨horder, hsrc, hdst⟩
  exact ⟨hasTransaction_mark hdb.has now, hlater.order, hstored⟩

/-- The row of a refund pays back the charge that was marked before it. -/
theorem calls_createRefund_records {refundRes : RefundResult} {region : String} {amount : Int}
    (h : tx.transactionType = .charge ∧ tx.status = .succeeded ∧ amount ≤ tx.amount) :
    (createTransaction (refundData region tx refundRes amount) .trx).Calls
      (Op.Appends fun x => ∀ db, FoundRow { tx with isRefunded := true } db →
        recordGrowth.fits x db) (fun _ _ => True) fun _ => True := by
  obtain ⟨hkind, hstatus, hamount⟩ := h
  refine calls_createTransaction rfl fun now => ?_
  rintro x ⟨id, rfl⟩ db hdb
  obtain ⟨horder, hsrc, hdst⟩ := hdb.stored hkind
  refine ⟨fun orderId hid => hdb.order orderId (orNull_some hid), nofun, fun _ => ?_⟩
  exact ⟨_, hdb.has, rfl, hkind, hstatus, rfl, hamount, rfl, horder, hdst, hsrc⟩

theorem wp_refundBody_records (hs : db₀.Recorded) (cfg : Config) {transactionId : Nat}
    {amount : Int} {region : String} (h : w.Knows recordGrowth db₀ p fun _ => True)
    {P : PaymentResponse → World → Prop} (hP : ∀ a v, P a v) :
    wp machine ok (grownSpec recordGrowth db₀) p
      (refundBody cfg transactionId amount region) (OnOk P) w := by
  unfold refundBody
  apply wp_seq
  apply wp_trx_reads (L := fun found db => ∀ tx, found = some tx → FoundRow tx db) hs true_lasting
    h fun _ _ _ => rfl
  · intro seqs clock db found _ hsound hreply tx hfound
    simp only [Sql.eval, reading, Except.ok.injEq] at hreply
    rw [← hreply] at hfound
    exact foundRow_of_mem hsound (List.mem_of_find?_eq_some hfound)
  intro found v₁ hv₁
  cases found with
  | none => trivial
  | some tx =>
  -- The checks are of the row as it was read; a second refund may pass them as well.
  apply wp_seq
  apply wp_fromExcept
  intro _ hassert
  have hrefundable := refundable_of_assert hassert
  have hlasting := foundRow_lasting tx
  have hknows := hv₁.mono fun db hdb => hdb tx rfl
  have hfits : ∀ x, (∀ db, FoundRow tx db → recordGrowth.fits x db) →
      ∀ db, FoundRow tx db → recordGrowth.fits x db := fun _ h => h
  apply wp_seq
  apply wp_appends_knows hlasting hfits (calls_lookUpOrder fun id x hx => absurd hx fun h => h)
    (fun _ _ _ _ _ _ _ => trivial) hknows
  intro _ v₂ _ hv₂
  apply wp_seq
  apply wp_appends_knows hlasting hfits (calls_kashierRefund rfl rfl)
    (fun _ _ _ _ _ _ _ => trivial) hv₂
  intro refundRes v₃ _ hv₃
  split_ifs
  · trivial
  unfold recordRefund
  apply wp_seq
  apply wp_markRefunded_records hs hv₃
  intro _ v₄ hv₄
  have hmarked := foundRow_lasting { tx with isRefunded := true }
  apply wp_seq
  apply wp_appends_knows hmarked (fun _ hx db hdb => hx db hdb)
    (calls_createRefund_records hrefundable) (fun _ _ _ _ _ _ _ => trivial) hv₄
  intro refundTx v₅ _ hv₅
  apply wp_seq
  apply wp_commit_knows hmarked hv₅
  exact fun v₆ _ => hP _ v₆

theorem wp_refundPayment_records (hs : db₀.Recorded) (cfg : Config)
    {transactionId : Nat} {amount : Int} {region : String} {P : PaymentResponse → World → Prop}
    (hP : ∀ a v, P a v) :
    wp machine ok (grownSpec recordGrowth db₀) p
      (refundPayment cfg transactionId amount region) (OnOk P) w := by
  unfold refundPayment
  apply wp_seq
  apply wp_start_fresh
  intro v₁ hv₁
  apply wp_catch_ok (wp_refundBody_records hs cfg hv₁ hP)
  exact fun err v => wp_abort (sharedSpec_isolated _ p)

end Refunds

section Placements
variable {db₀ : Db} {ok : Pid → Op → Env → World → Prop} {p : Pid} {w : World}

/-- The order that is inserted takes its status and its way of payment from the data. -/
structure InsertedFrom (data : OrderData) (order : OrderEntity) (db : Db) : Prop where
  has : db.Has order
  status : order.status = data.status
  method : order.paymentMethod = data.paymentMethod

theorem insertedFrom_lasting {data : OrderData} (order : OrderEntity) :
    recordGrowth.Lasting (InsertedFrom data order) :=
  fun _ _ hle h => ⟨h.has.mono hle, h.status, h.method⟩

/-- An order that is paid online waits for its payment. -/
theorem wp_createOrder_records (hs : db₀.Recorded) {data : OrderData}
    (hdata : data.paymentMethod = .online → data.status = .pendingPayment)
    (h : w.Knows recordGrowth db₀ p fun _ => True) {P : OrderEntity → World → Prop}
    (hP : ∀ o v, v.Knows recordGrowth db₀ p (InsertedFrom data o) → P o v) :
    wp machine ok (grownSpec recordGrowth db₀) p (createOrder data .trx) (OnOk P) w := by
  unfold createOrder
  apply wp_seq
  apply wp_outer_knows true_lasting h rfl
  intro e now _ v₁ _ _ hv₁
  apply wp_trx_knows (L := fun o db => InsertedFrom data o db) hs true_lasting hv₁ _ hP
  intro seqs clock db _ _
  simp only [Sql.eval]
  cases data.restaurantOwnerId with
  | none => exact ⟨trivial, fun o ho => by cases ho⟩
  | some ownerId =>
    refine ⟨⟨hdata, trivial⟩, fun o ho => ?_⟩
    simp only [writing, Except.ok.injEq] at ho
    subst ho
    exact ⟨has_apply.mpr (.inr ⟨_, rfl, .refl _⟩), rfl, rfl⟩

/-- Its items are inserted with its id. -/
theorem wp_insertItems_records (hs : db₀.Recorded) {data : OrderData} {order : OrderEntity}
    {lines : List OrderItemData} (hlines : ∀ l ∈ lines, l.orderId = order.id)
    (h : w.Knows recordGrowth db₀ p (InsertedFrom data order))
    {P : List OrderItemEntity → World → Prop}
    (hP : ∀ items v, v.Knows recordGrowth db₀ p (fun db => InsertedFrom data order db ∧
      items ⊆ db.orderItems ∧ ∀ i ∈ items, i.orderId = order.id) → P items v) :
    wp machine ok (grownSpec recordGrowth db₀) p (bulkInsertItems lines .trx) (OnOk P) w := by
  unfold bulkInsertItems
  apply wp_seq
  apply wp_outer_knows (insertedFrom_lasting order) h rfl
  intro e now _ v₁ _ _ hv₁
  apply wp_trx_knows (L := fun items db => InsertedFrom data order db ∧ items ⊆ db.orderItems ∧
    ∀ i ∈ items, i.orderId = order.id) hs (insertedFrom_lasting order) hv₁ _ hP
  intro seqs clock db hdb _
  simp only [Sql.eval]
  split_ifs
  · have hown : ∀ i ∈ itemRows lines seqs.orderItems now, i.orderId = order.id := by
      intro i hi
      apply hlines i.toOrderItemData
      rw [← toData_itemRows lines seqs.orderItems now]
      exact List.mem_map_of_mem hi
    have hfit : recordGrowth.Fitting
        ((itemRows lines seqs.orderItems now).map Write.insertOrderItem) db := by
      apply Growth.fitting_of_lasting (insertedFrom_lasting order) _ hdb
      intro x hx db' hdb'
      obtain ⟨i, hi, rfl⟩ := List.mem_map.mp hx
      exact ⟨order, hdb'.has, (hown i hi).symm⟩
    refine ⟨hfit, fun items hitems => ?_⟩
    simp only [writing, Except.ok.injEq] at hitems
    subst hitems
    refine ⟨insertedFrom_lasting order _ _ hfit.le hdb, ?_, hown⟩
    simp only [writing, applyAll_insertItems]
    exact List.subset_append_right _ _
  · exact ⟨trivial, fun items hitems => by cases hitems⟩

/-- What stands behind the event of an order that is placed at once. -/
theorem tells_inserted {data : OrderData} {order : OrderEntity} {items : List OrderItemEntity}
    (hdata : data.paymentMethod = .online → data.status = .pendingPayment) {db : Db}
    (h : InsertedFrom data order db) (hitems : items ⊆ db.orderItems)
    (hown : ∀ i ∈ items, i.orderId = order.id) (hplaced : order.status = .placed) :
    (orderPlacedEvent order items).Tells db := by
  refine .placed h.has hplaced ⟨order, h.has, rfl, fun honline => ?_⟩ hitems hown
  have hpending : order.status = .pendingPayment :=
    h.status.trans (hdata (h.method.symm.trans honline))
  rw [hplaced] at hpending
  cases hpending

theorem wp_insertOrder_records (hs : db₀.Recorded) {data : OrderData}
    {lines : Nat → List OrderItemData} (hlines : ∀ id, ∀ l ∈ lines id, l.orderId = id)
    (hdata : data.paymentMethod = .online → data.status = .pendingPayment)
    (h : w.Knows recordGrowth db₀ p fun _ => True)
    {P : OrderEntity × List OrderItemEntity → World → Prop}
    (hP : ∀ o items v, v.Holds recordGrowth db₀ (InsertedFrom data o) → P (o, items) v) :
    wp machine ok (grownSpec recordGrowth db₀) p (insertOrder data lines) (OnOk P) w := by
  unfold insertOrder
  apply wp_seq
  apply wp_createOrder_records hs hdata h
  intro order v₁ hv₁
  apply wp_seq
  apply wp_insertItems_records hs (hlines order.id) hv₁
  intro items v₂ hv₂
  -- The event is inserted with the order and its items, in one commit.
  have hlasting : recordGrowth.Lasting fun db => InsertedFrom data order db ∧
      items ⊆ db.orderItems ∧ ∀ i ∈ items, i.orderId = order.id :=
    fun db db' hle hdb => ⟨insertedFrom_lasting order db db' hle hdb.1,
      List.Subset.trans hdb.2.1 hle.orderItems, hdb.2.2⟩
  have hfits : ∀ x, (∀ db : Db, (InsertedFrom data order db ∧ items ⊆ db.orderItems ∧
      ∀ i ∈ items, i.orderId = order.id) → x.FitsRecords db) →
      ∀ db : Db, (InsertedFrom data order db ∧ items ⊆ db.orderItems ∧
        ∀ i ∈ items, i.orderId = order.id) → recordGrowth.fits x db := fun _ h => h
  apply wp_seq
  have hevent : (onlyIf (order.status = .placed)
      (insertOutboxEvent .trx (orderPlacedEvent order items))).Calls
      (Op.Appends fun x => ∀ db : Db, (InsertedFrom data order db ∧ items ⊆ db.orderItems ∧
        ∀ i ∈ items, i.orderId = order.id) → x.FitsRecords db) (fun _ _ => True)
      fun _ => True := by
    refine calls_when fun hplaced => calls_sql ?_ fun _ _ => trivial
    rintro x ⟨id, clock, rfl⟩ db ⟨hdb, hitems, hown⟩
    exact tells_inserted hdata hdb hitems hown hplaced
  apply wp_appends_knows hlasting hfits hevent (fun _ _ _ _ _ _ _ => trivial) hv₂
  intro _ v₃ _ hv₃
  apply wp_seq
  apply wp_commit_knows (insertedFrom_lasting order) (hv₃.mono fun _ hdb => hdb.1)
  exact fun v₄ hv₄ => hP order items v₄ hv₄

/-- The session asks for the total of the order that was just committed. -/
theorem wp_openPayment_records (hs : db₀.Recorded) (cfg : Config) {order : OrderEntity}
    {branchId : Nat} {stock : List ReserveStockItem} (honline : order.paymentMethod = .online)
    (h : w.Holds recordGrowth db₀ fun db => db.Has order)
    {P : OrderResponsePaymentInfo → World → Prop} (hP : ∀ a v, P a v) :
    wp machine ok (grownSpec recordGrowth db₀) p (openPayment cfg order branchId stock)
      (OnOk P) w := by
  have hS := sharedSpec_isolated (recordGrowth.Run db₀) p
  have hlasting := has_lasting order
  unfold openPayment
  apply wp_catch_ok
  · unfold initializePaymentSession
    apply wp_seq
    apply wp_seq
    apply wp_pool_reads hs hlasting h fun _ _ _ => rfl
    intro existing v₁ hv₁
    cases existing with
    | some session => exact hP _ v₁
    | none =>
      apply wp_seq
      apply wp_outer_holds hlasting hv₁ rfl
      intro e result _ v₂ _ _ hv₂
      unfold createPaymentSession
      apply wp_seq
      apply wp_seq
      apply wp_outer_holds hlasting hv₂ rfl
      intro e now _ v₃ _ _ hv₃
      apply wp_pool_holds (L := fun _ _ => True) hs hlasting hv₃
      · intro seqs clock db hdb _
        refine ⟨?_, fun _ _ => trivial⟩
        simp only [Sql.eval]
        split_ifs
        · trivial
        · exact ⟨⟨order, hdb, rfl, honline, rfl, rfl⟩, trivial⟩
      · exact fun session v₄ _ => hP _ v₄
  · -- The order was committed, so this update is rejected.
    intro payErr v
    have hquiet : (do
        let _ ← updateOrderStatus order.publicId .cancelled .trx (some .cancelledAt)
        undoStock branchId stock
        throw payErr : Svc OrderResponsePaymentInfo).Calls (fun o => o.commits = false)
        (fun _ _ => True) fun _ => False := by
      have hupdate : (updateOrderStatus order.publicId .cancelled .trx (some .cancelledAt)).Calls
          (fun o => o.commits = false) (fun _ _ => True) fun _ => True :=
        Prog.calls_do (calls_quiet rfl) fun _ _ => Prog.calls_do (calls_quiet rfl) fun _ _ =>
          calls_toEntity fun _ _ => trivial
      exact Prog.calls_do hupdate fun _ _ => Prog.calls_do calls_undoStock_quiet fun _ _ => trivial
    exact wp_quiet hS hquiet fun _ _ hnever => absurd hnever id

theorem wp_submitOrder_records (hs : db₀.Recorded) (cfg : Config) {actor : ActorContext}
    {resolvedRegion : String} {branch : Branch} {address : CoreCustomerAddress}
    {products : List CoreBranchProduct} {dto : CreateOrderRequest}
    {P : OrderResponse → World → Prop} (hP : ∀ r v, P r v) :
    wp machine ok (grownSpec recordGrowth db₀) p
      (submitOrder cfg actor resolvedRegion branch address products dto) (OnOk P) w := by
  have hS := sharedSpec_isolated (recordGrowth.Run db₀) p
  unfold submitOrder
  apply wp_seq
  apply wp_outer_ok hS rfl
  intro _ _ publicId _ _ _ _ _ _ _ _ _
  apply wp_seq
  apply wp_outer_ok hS rfl
  intro _ _ _ _ _ _ _ _ _ _ _ _
  apply wp_seq
  apply wp_start_fresh
  intro v₁ hv₁
  apply wp_seq
  apply wp_catch_ok
  · apply wp_insertOrder_records hs (fun id l hl => (mem_orderLines hl).1) _ hv₁
    · intro order items v₂ hv₂
      -- What follows the commit: the session of an order that is paid online, and the cache.
      apply wp_seq
      have hpayment : wp machine ok (grownSpec recordGrowth db₀) p
          (paymentData cfg dto order (dto.items.map fun i => ⟨i.productId, i.quantity⟩))
          (OnOk fun _ _ => True) v₂ := by
        have hhas : v₂.Holds recordGrowth db₀ fun db => db.Has order := ⟨hv₂.run, hv₂.holds.has⟩
        unfold paymentData
        split_ifs with honline
        · apply wp_seq
          exact wp_openPayment_records hs cfg (hv₂.holds.method.trans honline) hhas
            fun _ _ => trivial
        · trivial
      apply wp_mono _ hpayment
      intro r v₃ _
      cases r with
      | error err => trivial
      | ok payment =>
      apply wp_outside hS _ fun _ _ => hP _ _
      apply Prog.calls_do (calls_outer rfl)
      intro _ _
      exact Prog.calls_do (calls_when fun _ => calls_outer rfl) fun _ _ => trivial
    · intro honline
      have hmethod : dto.paymentMethod = .online := honline
      simp [placedOrderData, hmethod]
  · intro err v
    refine wp_quiet (Q := fun _ => False) hS ?_ fun _ _ hnever => absurd hnever id
    apply Prog.calls_do (calls_quiet rfl)
    intro _ _
    exact Prog.calls_do calls_undoStock_quiet fun _ _ => trivial

theorem wp_placeOrder_records (hs : db₀.Recorded) (cfg : Config) (actor : ActorContext)
    (region : Option String) (dto : CreateOrderRequest) {P : OrderResponse → World → Prop}
    (hP : ∀ r v, P r v) :
    wp machine ok (grownSpec recordGrowth db₀) p (placeOrder cfg actor region dto)
      (OnOk P) w := by
  have hS := sharedSpec_isolated (recordGrowth.Run db₀) p
  unfold placeOrder
  apply wp_seq
  apply wp_outer_ok hS rfl
  intro _ _ branch _ _ _ _ _ _ _ _ _
  split_ifs
  · trivial
  apply wp_seq
  apply wp_outer_ok hS rfl
  intro _ _ flag _ _ _ _ _ _ _ _ _
  split_ifs
  · trivial
  apply wp_seq
  apply wp_fromExcept
  intro resolvedRegion _
  split_ifs
  · trivial
  apply wp_seq
  apply wp_outer_ok hS rfl
  intro _ _ address _ _ _ _ _ _ _ _ _
  split_ifs
  · trivial
  apply wp_seq
  apply wp_outer_ok hS rfl
  intro _ _ products _ _ _ _ _ _ _ _ _
  split_ifs
  · trivial
  · exact wp_submitOrder_records hs cfg hP
  · trivial

end Placements

section Calls
variable {db₀ : Db} {ok : Pid → Op → Env → World → Prop} {p : Pid} {w : World}
  (hmacSha256 : String → String → String) (cfg : Config)

/-- The writes of a call all of whose writes fit, whatever it has read. -/
theorem wp_fitting_records {c : Call} {H : Write → Prop} (hc : Within H (c.prog hmacSha256 cfg))
    (hfits : ∀ x, H x → ∀ db : Db, x.FitsRecords db) (hlog : w.log p = []) :
    wp machine ok (grownSpec recordGrowth db₀) p (c.prog hmacSha256 cfg)
      (OnOk fun _ _ => True) w := by
  have hnone : ∀ x ∈ w.log p, H x := by
    intro x hx
    rw [hlog] at hx
    cases hx
  apply wp_mono _ (wp_harmless hc (grown_keptBy hfits p) (fun _ _ _ _ _ _ _ _ _ => trivial) hnone)
  intro r v _
  cases r <;> trivial

theorem wp_call_records (hs : db₀.Recorded) (c : Call) (hlog : w.log p = []) :
    wp machine ok (grownSpec recordGrowth db₀) p (c.prog hmacSha256 cfg)
      (OnOk fun _ _ => True) w := by
  cases c with
  | placeOrder actor region dto =>
    exact wp_seq (wp_placeOrder_records hs cfg actor region dto fun _ _ => trivial)
  | webhook rawBody signature region =>
    exact wp_seq (wp_webhook_records hs hmacSha256 cfg rawBody signature region fun _ => trivial)
  | updateStatus actor dto region orderId =>
    exact wp_seq (wp_updateStatus_records hs fun _ _ => trivial)
  | agentUpdateStatus publicId agentId region action =>
    exact wp_seq (wp_agentUpdateStatus_records hs cfg publicId agentId region action
      fun _ _ => trivial)
  | refundPayment input =>
    exact wp_seq (wp_refundPayment_records hs cfg fun _ _ => trivial)
  | claim publicId agentId region | adminAssign publicId agentId region =>
    -- An agent is put on the row, which says nothing of payments or items.
    apply wp_fitting_records hmacSha256 cfg (within_mayWrite hmacSha256 cfg _) _ hlog
    rintro x ⟨now, rfl⟩ db
    trivial
  | recordPayout input =>
    have hwithin : Within (fun x => ∀ db : Db, x.FitsRecords db)
        (Call.prog hmacSha256 cfg (.recordPayout input)) := by
      refine within_do (within_recordPayout ?_ fun _ _ _ _ _ => trivial) fun _ => trivial
      -- A payout is neither a charge nor a refund and names no order.
      intro row hkind _ hnone db
      refine ⟨fun id hid => ?_, fun h => ?_, fun h => ?_⟩
      · rw [hnone] at hid
        cases hid
      · rw [hkind] at h
        cases h
      · rw [hkind] at h
        cases h
    exact wp_fitting_records hmacSha256 cfg hwithin (fun _ h => h) hlog

end Calls

end OrderService
