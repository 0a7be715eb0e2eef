import OrderService.AssignmentSpec
import OrderService.Calls
import OrderService.FreshWrite
import OrderService.StatusHistory
import OrderService.WebhookEffects

/-! When the committed status changes of a run follow the transition table. -/
namespace OrderService
open ReadCommitted Interleaving

section Tracking

/-- The committed tables are those of the history, which follows the graph. -/
def Graphed (before db : Db) (history : List (Pid × List Write)) : Prop :=
  db = tablesAfter before history ∧ FollowsGraph before history

/-- The call has read the status last, and its open transaction has not touched the orders. -/
structure Tracking (p : Pid) (status : OrderStatus) (w : World) : Prop where
  seen : w.seen p = some status
  log : ∃ log, w.store.txn p = .active log ∧ ∀ x ∈ log, x.OffOrders

/-- The open transaction moves the order, whose row it holds, from `source` to `target`. -/
structure Moving (p : Pid) (publicId : String) (source target : OrderStatus) (w : World) :
    Prop where
  locked : (.order publicId, p) ∈ w.store.locks
  status : ∀ o, w.store.db.order publicId = some o → o.status = source
  log : ∃ log ws stamp now,
    w.store.txn p = .active (log ++ .setOrderStatus publicId target stamp now :: ws) ∧
    (∀ x ∈ log, x.OffOrders) ∧ ∀ x ∈ ws, x.OffOrders

/-- The operations of a transaction that do not touch the orders. -/
def Op.Beside (o : Op) : Prop := o.Appends Write.OffOrders ∧ o.finds = false

variable {before : Db} {p : Pid} {w : World} {publicId : String} {source target : OrderStatus}

theorem graphed_commit {db : Db} {history : List (Pid × List Write)} {log : List Write}
    (h : Graphed before db history) (hlog : Follows db (engine.applyAll log db)) :
    Graphed before (engine.applyAll log db) (history ++ [(p, log)]) := by
  obtain ⟨rfl, hgraph⟩ := h
  refine ⟨?_, followsGraph_snoc hgraph hlog⟩
  rw [tablesAfter_append, tablesAfter_singleton]

theorem graphed_keptBy (p : Pid) : KeptBy (Graphed before) p Write.OffOrders :=
  fun db _ _ h hlog => graphed_commit h (follows_of_off hlog db)

theorem graphed_keptByAssign (p : Pid) (publicId : String) (agentId : Nat) :
    KeptByAssign (Graphed before) p publicId agentId :=
  fun db _ _ now h _ => graphed_commit h (follows_of_assign db publicId agentId now)

theorem Tracking.stable {w' : World} (h : Tracking p source w)
    (hr : (sharedSpec (Graphed before)).rely p w w') : Tracking p source w' where
  seen := hr.2.trans h.seen
  log := by
    rw [hr.1.txn]
    exact h.log

theorem Moving.stable {w' : World} (h : Moving p publicId source target w)
    (hr : (sharedSpec (Graphed before)).rely p w w') : Moving p publicId source target w' where
  locked := (hr.1.locks _).mpr h.locked
  status := by
    have hsame : w'.store.db.order publicId = w.store.db.order publicId :=
      hr.1.reads_eq (order_reads publicId) h.locked
    rw [hsame]
    exact h.status
  log := by
    rw [hr.1.txn]
    exact h.log

theorem wp_beside {α : Type} {prog : Svc α} {P : α → World → Prop}
    (hc : prog.Calls Op.Beside (fun _ _ => True) fun _ => True) (h : Tracking p source w)
    (hP : ∀ a w', Tracking p source w' → P a w') :
    wp machine FreshWrite (sharedSpec (Graphed before)) p prog (OnOk P) w := by
  obtain ⟨log, hlog, hoff⟩ := h.log
  refine wp_mono ?_ (wp_appends (sharedSpec_isolated _ p) (F := fun w => w.seen p = some source)
    (fun o ho => ho.1) hc ?_ ?_ hlog h.seen)
  · intro r w' hr
    cases r with
    | error err => trivial
    | ok a =>
      obtain ⟨hseen, _, ws, hlog', hws⟩ := hr
      refine hP a w' ⟨hseen, log ++ ws, hlog', fun x hx => ?_⟩
      rcases List.mem_append.mp hx with hx | hx
      · exact hoff x hx
      · exact hws x hx
  · exact fun w w' hr hseen => hr.2.trans hseen
  · exact fun o e w r w' ho _ _ hx hseen =>
      ⟨(exec_seen hx (.inr ho.2)).trans hseen, fun _ _ => trivial⟩

/-- The status write of a transaction takes the row's lock, and finds the status that was read. -/
theorem wp_move (h : Tracking p source w) {stamp : Option Stamp} {P : OrderEntity → World → Prop}
    (hP : ∀ o w', Moving p publicId source target w' → P o w') :
    wp machine FreshWrite (sharedSpec (Graphed before)) p
      (updateOrderStatus publicId target .trx stamp) (OnOk P) w := by
  have hS := sharedSpec_isolated (Graphed before) p
  apply wp_seq
  apply wp_now_ok hS
  intro w₁ hr₁ _
  obtain ⟨log, hlog, hoff⟩ := (h.stable hr₁).log
  apply wp_seq
  apply wp_trx_ok hS hlog
  intro w₂ e row hr₂ _ hlog₂ hfresh _ hreply
  apply wp_toEntity
  rintro o rfl
  obtain ⟨hwrites, o₀, hfound, _⟩ := updateOrderStatus_reply hreply
  have hview : w₂.view p = engine.applyAll log w₂.store.db := by
    rw [World.view_eq, World.log_of_active hlog₂]
  refine hP o _ ⟨?_, fun a ha => ?_, log, [], stamp, w₁.clock, ?_, hoff, by simp⟩
  · apply World.mem_queried_locks
    rw [World.inTrx, Engine.keys, hwrites]
    simp [engine, Write.key]
  · -- The write was fresh, and the transaction had not touched the row.
    have hseen := ((h.stable hr₁).stable hr₂).seen
    have hrow : (w₂.view p).order publicId = some a := by
      rw [hview, order_applyAll_of_off hoff]
      exact ha
    have hread : w₂.seen p = some a.status := hfresh a hrow
    rw [hseen, Option.some.injEq] at hread
    exact hread.symm
  · rw [World.queried_txn, World.log_of_active hlog₂, World.inTrx, hwrites]

theorem wp_moving {α : Type} {prog : Svc α} {P : α → World → Prop}
    (hc : prog.Calls (Op.Appends Write.OffOrders) (fun _ _ => True) fun _ => True)
    (h : Moving p publicId source target w)
    (hP : ∀ a w', Moving p publicId source target w' → P a w') :
    wp machine FreshWrite (sharedSpec (Graphed before)) p prog (OnOk P) w := by
  obtain ⟨log, ws, stamp, now, hlog, hoff, hws⟩ := h.log
  refine wp_mono ?_ (wp_appends (sharedSpec_isolated _ p)
    (F := fun w => (.order publicId, p) ∈ w.store.locks ∧
      ∀ o, w.store.db.order publicId = some o → o.status = source)
    (fun o ho => ho) hc ?_ ?_ hlog ⟨h.locked, h.status⟩)
  · intro r w' hr
    cases r with
    | error err => trivial
    | ok a =>
      obtain ⟨⟨hlocked, hstatus⟩, _, ws', hlog', hws'⟩ := hr
      refine hP a w' ⟨hlocked, hstatus, log, ws ++ ws', stamp, now, ?_, hoff, fun x hx => ?_⟩
      · rw [hlog', List.append_assoc, List.cons_append]
      · rcases List.mem_append.mp hx with hx | hx
        · exact hws x hx
        · exact hws' x hx
  · intro w w' hr hF
    have hsame : w'.store.db.order publicId = w.store.db.order publicId :=
      hr.1.reads_eq (order_reads publicId) hF.1
    exact ⟨(hr.1.locks _).mpr hF.1, by rw [hsame]; exact hF.2⟩
  · intro o e w r w' ho _ _ hx hF
    obtain ⟨hdb, _, hlocks⟩ := exec_appends ho hx
    exact ⟨⟨hlocks _ hF.1, by rw [hdb]; exact hF.2⟩, fun _ _ => trivial⟩

theorem wp_commit_moving (hedge : Edge source target) (h : Moving p publicId source target w)
    {P : Unit → World → Prop} (hP : ∀ w', P () w') :
    wp machine FreshWrite (sharedSpec (Graphed before)) p commit (OnOk P) w := by
  obtain ⟨log, ws, stamp, now, hlog, hoff, hws⟩ := h.log
  apply wp_commit_shared hlog
  intro w₁ hr₁ hi₁ _
  have hfollows := follows_of_move hoff hws hedge (h.stable hr₁).status stamp now
  exact ⟨graphed_commit hi₁.2 hfollows, hP _⟩

theorem wp_commit_tracking (h : Tracking p source w) {P : Unit → World → Prop}
    (hP : ∀ w', P () w') :
    wp machine FreshWrite (sharedSpec (Graphed before)) p commit (OnOk P) w := by
  obtain ⟨log, hlog, hoff⟩ := h.log
  apply wp_commit_shared hlog
  intro w₁ _ hi₁ _
  exact ⟨graphed_keptBy p _ _ _ hi₁.2 hoff, hP _⟩

/-- The status write on the pool commits at once. -/
theorem wp_movePool (hedge : Edge source target) (hseen : w.seen p = some source)
    {stamp : Option Stamp} {P : OrderEntity → World → Prop}
    (hP : ∀ o w', w'.store.txn p = w.store.txn p → P o w') :
    wp machine FreshWrite (sharedSpec (Graphed before)) p
      (updateOrderStatus publicId target .pool stamp) (OnOk P) w := by
  apply wp_seq
  apply wp_now_ok (sharedSpec_isolated _ p)
  intro w₁ hr₁ _
  apply wp_seq
  apply wp_pool_shared
  intro w₂ e hr₂ hi₂ hfresh
  have hread : w₂.seen p = some source := (hr₂.2.trans hr₁.2).trans hseen
  refine ⟨fun hne => ?_, fun row hreply => ?_⟩
  · -- Something was written, so the row was there, with the status that was read.
    have hwrites : (w₂.onPool (.updateOrderStatus publicId target stamp w₁.clock)).writes
        = [.setOrderStatus publicId target stamp w₁.clock] := by
      simp only [World.onPool, Sql.eval] at hne ⊢
      cases hfind : w₂.store.db.order publicId with
      | none =>
        rw [hfind] at hne
        exact absurd rfl hne
      | some o => rfl
    have hstatus : ∀ o, w₂.store.db.order publicId = some o → o.status = source := by
      intro o ho
      have hfreshRow : w₂.seen p = some o.status := hfresh o ho
      rw [hread, Option.some.injEq] at hfreshRow
      exact hfreshRow.symm
    rw [hwrites]
    have hfollows : Follows w₂.store.db (engine.applyAll
        ([] ++ [.setOrderStatus publicId target stamp w₁.clock]) w₂.store.db) :=
      follows_of_move (by simp) (by simp) hedge hstatus stamp w₁.clock
    exact graphed_commit hi₂.2 hfollows
  · apply wp_toEntity
    rintro o rfl
    exact hP o _ (hr₂.1.txn.trans hr₁.1.txn)

end Tracking

section Programs
variable {before : Db} {p : Pid} {w : World} {cfg : Config}

theorem wp_pickup_graph {order : OrderEntity} (hseen : w.seen p = some order.status) :
    wp machine FreshWrite (sharedSpec (Graphed before)) p (pickup order)
      (OnOk fun _ _ => True) w := by
  unfold pickup
  split_ifs with hstatus
  · trivial
  have hassigned : order.status = .assigned := by simpa using hstatus
  rw [hassigned] at hseen
  apply wp_seq
  apply wp_movePool (by decide) hseen
  intro updated w₁ _
  apply wp_seq
  exact wp_outside (sharedSpec_isolated _ p) (calls_emitDeliveryStatus fun _ => rfl)
    fun _ _ => trivial

theorem calls_beside_settle {order : OrderEntity} {agentId : Nat} :
    (settleDeliveredOrder cfg order agentId .trx).Calls (Op.Appends Write.OffOrders)
      (fun _ _ => True) fun _ => True := by
  apply calls_settleDeliveredOrder fun _ => True
  · intro q hq x hx
    cases hq x hx <;> trivial
  · rfl
  · rfl
  · exact fun _ _ => trivial
  · trivial

theorem wp_deliver_graph {order : OrderEntity} {agentId : Nat} {region : String}
    (hseen : w.seen p = some order.status) :
    wp machine FreshWrite (sharedSpec (Graphed before)) p (deliver cfg order agentId region)
      (OnOk fun _ _ => True) w := by
  have hS := sharedSpec_isolated (Graphed before) p
  unfold deliver
  split_ifs with hstatus
  · trivial
  have hpicked : order.status = .picked := by simpa using hstatus
  rw [hpicked] at hseen
  apply wp_seq
  apply wp_start_ok hS
  intro w₁ hr₁ _ _
  have htracking : Tracking p .picked { w₁ with store := w₁.store.start p } :=
    ⟨hr₁.2.trans hseen, [], World.start_txn w₁ p, by simp⟩
  refine wp_catch_ok ?_ fun err w' => wp_abort hS
  apply wp_seq
  apply wp_move htracking
  intro updated w₂ hmoving
  apply wp_seq
  apply wp_moving calls_beside_settle hmoving
  intro _ w₃ hmoving₃
  apply wp_seq
  apply wp_commit_moving (by decide) hmoving₃
  intro w₄
  apply wp_outside hS _ fun _ _ => trivial
  apply Prog.calls_do (calls_outer rfl)
  intro _ _
  apply Prog.calls_do (calls_emitDeliveryStatus fun _ => rfl)
  intro _ _
  exact Prog.calls_discard (calls_outer rfl) trivial

theorem wp_agentUpdateStatus_graph {publicId region : String} {agentId : Nat}
    {action : DeliveryAction} :
    wp machine FreshWrite (sharedSpec (Graphed before)) p
      (agentUpdateStatus cfg publicId agentId region action) (OnOk fun _ _ => True) w := by
  apply wp_seq
  apply wp_read (sharedSpec_isolated _ p) sharedSpec_ofStore
  · exact fun _ => trivial
  intro order v w₁ _ _ _ hseen _
  dsimp only
  split_ifs
  · trivial
  cases action with
  | picked => exact wp_pickup_graph hseen
  | delivered => exact wp_deliver_graph hseen
  | _ => trivial

theorem wp_updateStatus_graph {actor : ActorContext} {dto : UpdateOrderStatusRequest}
    {region orderId : String} :
    wp machine FreshWrite (sharedSpec (Graphed before)) p (updateStatus actor dto region orderId)
      (OnOk fun _ _ => True) w := by
  have hS := sharedSpec_isolated (Graphed before) p
  apply wp_seq
  apply wp_read (sharedSpec_isolated _ p) sharedSpec_ofStore
  · exact fun _ => trivial
  intro order v w₁ _ _ _ hseen _
  apply wp_seq
  cases resolveStatusActor actor order with
  | error err => trivial
  | ok statusActor =>
    change wp _ _ _ _ (assertTransition order.status dto.status _ >>= _) _ _
    rw [assertTransition_eq]
    cases hcheck : checkTransition order.status dto.status _ with
    | error err => trivial
    | ok stamp =>
      have hedge := edge_of_checkTransition hcheck
      change wp _ _ _ _ (startTransaction >>= _) _ _
      apply wp_seq
      apply wp_start_ok hS
      intro w₂ hr₂ _ _
      have hseen₂ : w₂.seen p = some order.status := hr₂.2.trans hseen
      apply wp_seq
      apply wp_mono (Q := OnOk fun _ _ => True)
      · intro r w₃ _
        cases r with
        | error err => trivial
        | ok updated =>
          apply wp_outside hS _ fun _ _ => trivial
          apply Prog.calls_do (calls_outer rfl)
          intro _ _
          apply Prog.calls_do (calls_outer rfl)
          intro _ _
          exact Prog.calls_discard (calls_outer rfl) trivial
      refine wp_catch_ok ?_ fun err w' => wp_abort hS
      apply wp_seq
      apply wp_movePool (w := { w₂ with store := w₂.store.start p }) hedge hseen₂
      -- The transaction around it stays empty.
      intro updated w₃ htxn
      have hlog : ∀ x ∈ w₃.log p, x.OffOrders := by
        intro x hx
        have hempty := htxn.trans (World.start_txn w₂ p)
        rw [World.log_of_active hempty] at hx
        cases hx
      apply wp_mono _ (wp_harmless (R := fun _ _ => True) (Q := fun _ => True) _ (graphed_keptBy p)
        (fun _ _ _ _ _ _ _ _ _ => trivial) hlog)
      · intro r w₄ _
        cases r <;> trivial
      · apply Prog.calls_do (Q := fun _ => True)
        · unfold emitTransition
          split
          · trivial
          · refine calls_sql ?_ fun _ _ => trivial
            rintro x ⟨id, clock, rfl⟩
            trivial
        · exact fun _ _ => Prog.calls_discard (calls_any trivial) trivial

theorem beside_sql {q : Sql} (hq : ∀ x, q.MayWrite x → x.OffOrders) (hfinds : q.finds = false) :
    (Op.sql .trx q).Beside := ⟨hq, hfinds⟩

theorem calls_updateSession_beside {id : Nat} {status : PaymentSessionStatus} :
    (updatePaymentSessionStatus id status .trx).Calls Op.Beside (fun _ _ => True)
      fun _ => True := by
  apply calls_updateSession ⟨rfl, rfl⟩
  intro now
  refine beside_sql ?_ rfl
  rintro x rfl
  trivial

theorem calls_recordCharge_beside {ctx : WebhookContext} {order : OrderEntity}
    {session : PaymentSessionEntity} {status : TransactionStatus} {dstAccId : Nat} :
    (recordCharge ctx order session status dstAccId).Calls Op.Beside (fun _ _ => True)
      fun _ => True := by
  apply calls_recordCharge ⟨rfl, rfl⟩
  · exact beside_sql (fun x hx => absurd hx id) rfl
  · intro now
    refine beside_sql ?_ rfl
    rintro x ⟨id, rfl⟩
    trivial

theorem calls_paymentEvent_beside {input : OutboxInput} :
    (insertOutboxEvent .trx input).Calls Op.Beside (fun _ _ => True) fun _ => True := by
  refine calls_sql (beside_sql ?_ rfl) fun _ _ => trivial
  rintro x ⟨id, clock, rfl⟩
  trivial

/-- What the processing of a webhook has done to the status of its order before it commits. -/
def Processed (p : Pid) (order : OrderEntity) (w : World) : Prop :=
  Tracking p order.status w ∨ Moving p order.publicId .pendingPayment .placed w

theorem wp_placePaidOrder {order : OrderEntity} (h : Tracking p order.status w) :
    wp machine FreshWrite (sharedSpec (Graphed before)) p (placePaidOrder order)
      (OnOk fun _ w' => Processed p order w') w := by
  unfold placePaidOrder
  split_ifs with hpending
  case neg => exact .inl h
  rw [hpending] at h
  apply wp_seq
  apply wp_move h
  intro placed w₁ hmoving
  apply wp_seq
  refine wp_moving ?_ hmoving fun items w₂ hmoving₂ => ?_
  · exact calls_sql (fun x hx => absurd hx id) fun _ _ => trivial
  apply wp_seq
  refine wp_moving ?_ hmoving₂ fun _ w₃ hmoving₃ => .inr hmoving₃
  exact calls_paymentEvent_beside.weaken fun o ho => ho.1

theorem wp_applyEvent {event : Json} {ctx : WebhookContext} {order : OrderEntity}
    {session : PaymentSessionEntity} (h : Tracking p order.status w) :
    wp machine FreshWrite (sharedSpec (Graphed before)) p (applyEvent event ctx order session)
      (OnOk fun _ w' => Processed p order w') w := by
  unfold applyEvent
  split_ifs
  · apply wp_seq
    apply wp_beside calls_updateSession_beside h
    intro _ w₁ h₁
    apply wp_seq
    apply wp_beside (calls_fetchRestaurantOwner ⟨rfl, rfl⟩) h₁
    intro ownerId w₂ h₂
    apply wp_seq
    apply wp_beside calls_recordCharge_beside h₂
    intro _ w₃ h₃
    apply wp_seq
    apply wp_beside (calls_now ⟨rfl, rfl⟩ fun _ => trivial) h₃
    intro completedAt w₄ h₄
    apply wp_seq
    apply wp_beside calls_paymentEvent_beside h₄
    intro _ w₅ h₅
    exact wp_placePaidOrder h₅
  · apply wp_seq
    apply wp_beside calls_updateSession_beside h
    intro _ w₁ h₁
    apply wp_seq
    apply wp_beside calls_recordCharge_beside h₁
    intro _ w₂ h₂
    apply wp_seq
    apply wp_beside (calls_now ⟨rfl, rfl⟩ fun _ => trivial) h₂
    intro failedAt w₃ h₃
    apply wp_seq
    apply wp_beside calls_paymentEvent_beside h₃
    exact fun _ w₄ h₄ => .inl h₄
  · exact .inl h

theorem wp_processedCommit {order : OrderEntity} (h : Processed p order w) {P : Unit → World → Prop}
    (hP : ∀ w', P () w') :
    wp machine FreshWrite (sharedSpec (Graphed before)) p commit (OnOk P) w := by
  rcases h with h | h
  · exact wp_commit_tracking h hP
  · exact wp_commit_moving (by decide) h hP

theorem wp_processedBeside {α : Type} {prog : Svc α} {order : OrderEntity}
    {P : α → World → Prop} (hc : prog.Calls Op.Beside (fun _ _ => True) fun _ => True)
    (h : Processed p order w) (hP : ∀ a w', Processed p order w' → P a w') :
    wp machine FreshWrite (sharedSpec (Graphed before)) p prog (OnOk P) w := by
  rcases h with h | h
  · exact wp_beside hc h fun a w' h' => hP a w' (.inl h')
  · exact wp_moving (hc.weaken fun o ho => ho.1) h fun a w' h' => hP a w' (.inr h')

theorem wp_findReferencedOrder {reference : Option Json} (hlog : w.store.txn p = .active [])
    {P : Option OrderEntity → World → Prop} (hnone : ∀ w', P none w')
    (hsome : ∀ o w', Tracking p o.status w' → P (some o) w') :
    wp machine FreshWrite (sharedSpec (Graphed before)) p (findReferencedOrder reference .trx)
      (OnOk P) w := by
  unfold findReferencedOrder
  split
  · apply wp_trx_ok (sharedSpec_isolated _ p) hlog
    intro w₁ e found _ _ hlog₁ _ _ hreply
    cases found with
    | none => exact hnone _
    | some o =>
      refine hsome o _ ⟨?_, [], World.queried_txn_of_read hlog₁ rfl, by simp⟩
      change Sql.observe p w₁.seen (.findOrderByPublicId _) (w₁.inTrx p _).reply p = _
      rw [hreply]
      exact Function.update_self _ _ _
  · exact hnone w
  · trivial

theorem wp_processWebhook {event : Json} {ctx : WebhookContext} {insertedId : Nat}
    (hlog : w.store.txn p = .active []) :
    wp machine FreshWrite (sharedSpec (Graphed before)) p (processWebhook event ctx insertedId)
      (OnOk fun _ _ => True) w := by
  apply wp_seq
  apply wp_findReferencedOrder hlog
  · exact fun _ => trivial
  intro order w₁ h₁
  apply wp_seq
  refine wp_beside (calls_sql (beside_sql (fun x hx => absurd hx id) rfl) fun _ _ => trivial) h₁ ?_
  intro found w₂ h₂
  cases found with
  | none => trivial
  | some session =>
    apply wp_seq
    apply wp_mono _ (wp_applyEvent h₂)
    intro r w₃ h₃
    cases r with
    | error err => trivial
    | ok broadcast =>
      apply wp_seq
      apply wp_processedBeside (calls_now ⟨rfl, rfl⟩ fun _ => trivial) h₃
      intro processedAt w₄ h₄
      apply wp_seq
      refine wp_processedBeside (calls_sql (beside_sql ?_ rfl) fun _ _ => trivial) h₄ ?_
      · rintro x rfl
        trivial
      intro _ w₅ h₅
      apply wp_seq
      apply wp_processedCommit h₅
      intro w₆
      exact wp_outside (sharedSpec_isolated _ p) calls_announcePlaced fun _ _ => trivial

theorem wp_webhook {hmacSha256 : String → String → String} {rawBody : Option Json}
    {signature region : String} :
    wp machine FreshWrite (sharedSpec (Graphed before)) p
      (verifyAndProcessWebhook hmacSha256 cfg rawBody signature region)
      (OnOk fun _ _ => True) w :=
  wp_webhook_shared (graphed_keptBy p) (fun _ => trivial) (fun _ _ _ => trivial)
    fun _ _ _ _ _ hlog => wp_processWebhook hlog

end Programs

section Runs
variable (hmacSha256 : String → String → String) (cfg : Config)

/-- The six operations that change an order's status. -/
def Call.changesStatus : Call → Bool
  | .updateStatus .. => true
  | .webhook .. => true
  | .claim .. => true
  | .adminAssign .. => true
  | .agentUpdateStatus .. => true
  | _ => false

theorem wp_changesStatus {before : Db} {p : Pid} {c : Call} (hkind : c.changesStatus = true)
    {w : World} :
    wp machine FreshWrite (sharedSpec (Graphed before)) p (c.prog hmacSha256 cfg)
      (OnOk fun _ _ => True) w := by
  cases c with
  | updateStatus actor dto region orderId =>
    apply wp_seq
    apply wp_mono _ wp_updateStatus_graph
    intro r w' _
    cases r <;> trivial
  | webhook rawBody signature region =>
    apply wp_seq
    apply wp_mono _ wp_webhook
    intro r w' _
    cases r <;> trivial
  | claim publicId agentId region =>
    apply wp_seq
    apply wp_mono _ (wp_claim (graphed_keptByAssign p publicId agentId) cfg region)
    intro r w' _
    cases r <;> trivial
  | adminAssign publicId agentId region =>
    apply wp_seq
    apply wp_mono _ (wp_adminAssign (graphed_keptByAssign p publicId agentId) cfg region)
    intro r w' _
    cases r <;> trivial
  | agentUpdateStatus publicId agentId region action =>
    apply wp_seq
    apply wp_mono _ wp_agentUpdateStatus_graph
    intro r w' _
    cases r <;> trivial
  | _ => cases hkind

/-- What a history says of the statuses of the orders. -/
structure StatusTrail (before after : Db) (history : List (Pid × List Write)) : Prop where
  tables : after = tablesAfter before history
  edges : FollowsGraph before history
  /-- A rejected, cancelled or delivered order stays so. -/
  final : ∀ past future, history = past ++ future → ∀ publicId o,
    (tablesAfter before past).order publicId = some o →
    (o.status = .rejected ∨ o.status = .cancelled ∨ o.status = .delivered) →
    ∃ o', after.order publicId = some o' ∧ o'.status = o.status
  /-- No order goes back. -/
  forward : ∀ past future, history = past ++ future → ∀ publicId o,
    (tablesAfter before past).order publicId = some o →
    ∃ o', after.order publicId = some o' ∧ o.status.rank ≤ o'.status.rank

theorem statusTrail_of_graphed {before after : Db} {history : List (Pid × List Write)}
    (h : Graphed before after history) : StatusTrail before after history where
  tables := h.1
  edges := h.2
  final := by
    intro past future heq publicId o ho hfinal
    rw [h.1]
    obtain ⟨o', ho', hrel⟩ := status_along
      (fun s t => s = .rejected ∨ s = .cancelled ∨ s = .delivered → t = s)
      (fun _ _ => rfl) (fun a b c hab hbc ha => by
        have hba : b = a := hab ha
        rw [← hba]
        exact hbc (by rw [hba]; exact ha))
      (fun s t hedge hs => absurd hedge (not_edge_of_final hs)) h.2 heq ho
    exact ⟨o', ho', hrel hfinal⟩
  forward := by
    intro past future heq publicId o ho
    rw [h.1]
    exact status_along (fun s t => s.rank ≤ t.rank) (fun _ => Nat.le_refl _)
      (fun _ _ _ => Nat.le_trans) (fun _ _ hedge => Nat.le_of_lt (rank_lt_of_edge hedge)) h.2 heq ho

/-- In every interleaving in which no status is written over one that its call has not read, the
statuses follow the transition table. -/
theorem status_changes_follow_graph (w : World) (hw : w.AtRest) (calls : Pid → Option Call)
    (hcalls : ∀ p c, calls p = some c → c.changesStatus = true)
    {t : Sys Pid Op Op.Res Err World Reply}
    (h : machine.Reaches FreshWrite (running hmacSha256 cfg calls w) t) :
    StatusTrail w.store.db t.world.store.db t.world.store.history := by
  have hwp : ∀ p prog, (running hmacSha256 cfg calls w).procs p = some prog →
      wp machine FreshWrite (sharedSpec (Graphed w.store.db)) p prog (OnOk fun _ _ => True) w := by
    intro p prog hprog
    obtain ⟨c, hc, rfl⟩ := Option.map_eq_some_iff.mp hprog
    exact wp_changesStatus hmacSha256 cfg (hcalls p c hc)
  have hinit : Graphed w.store.db w.store.db [] := by
    refine ⟨rfl, ?_⟩
    intro past b future heq
    simp at heq
  exact statusTrail_of_graphed (shared_reaches hw hinit hwp h)

end Runs

/-- An admin cancels an order while the restaurant accepts it. -/
def cancelAndAccept : Pid → Option Call
  | 0 => some (.updateStatus ⟨1, .systemAdmin, none, none, none⟩ ⟨.cancelled, some "closed"⟩ "eg"
      "order-1")
  | 1 => some (.updateStatus ⟨20, .restaurantUser, some 1, some "owner", none⟩ ⟨.accepted, none⟩
      "eg" "order-1")
  | _ => none

def placedOrder : World where
  store := Store.ofDb { orders := [OrderEntity.sample "order-1" .placed] }

/-- The admin reads what the restaurant wrote. -/
def acceptThenCancelSchedule : List (Label Pid Env Ext) :=
  ([1, 1, 1, 1, 0, 1, 0, 0, 1, 0, 0, 0, 1, 1, 1, 0, 0, 0] : List Pid).map fun p => .act p {}

theorem status_changes_follow_graph_accept_then_cancel :
    ∃ t, machine.run freshWrite acceptThenCancelSchedule
        (running (fun _ _ => "") sampleConfig cancelAndAccept placedOrder) = some t ∧
      StatusTrail placedOrder.store.db t.world.store.db t.world.store.history := by
  have hcalls : ∀ p c, cancelAndAccept p = some c → c.changesStatus = true := by
    intro p c hc
    unfold cancelAndAccept at hc
    split at hc <;> cases hc <;> rfl
  obtain ⟨t, ht⟩ := Option.isSome_iff_exists.mp (by decide : (machine.run freshWrite
    acceptThenCancelSchedule (running (fun _ _ => "") sampleConfig cancelAndAccept
      placedOrder)).isSome = true)
  exact ⟨t, ht, status_changes_follow_graph _ sampleConfig placedOrder ⟨rfl, fun _ => rfl, rfl⟩
    cancelAndAccept hcalls (Machine.reaches_of_run fresh_of_freshWrite _ ht)⟩

/-- Both read the placed order before either writes. -/
def cancelAndAcceptSchedule : List (Label Pid Env Ext) :=
  ([0, 1, 0, 1, 0, 0, 0, 0, 1, 1, 1, 1, 0, 0, 0, 1, 1, 1] : List Pid).map fun p => .act p {}

/-- An order that was cancelled is accepted. -/
theorem cancelled_order_accepted :
    ∃ t, machine.Reaches anyOp (running (fun _ _ => "") sampleConfig cancelAndAccept placedOrder)
        t ∧
      ¬StatusTrail placedOrder.store.db t.world.store.db t.world.store.history := by
  have hrun : ((machine.run (fun _ _ _ _ => true) cancelAndAcceptSchedule
      (running (fun _ _ => "") sampleConfig cancelAndAccept placedOrder)).any fun t =>
      ((tablesAfter placedOrder.store.db (t.world.store.history.take 1)).order "order-1").map
          OrderEntity.status = some .cancelled ∧
        (t.world.store.db.order "order-1").map OrderEntity.status = some .accepted) = true := by
    decide
  obtain ⟨t, ht, hstatus⟩ := (Option.any_eq_true _ _).mp hrun
  obtain ⟨hpast, hnow⟩ := of_decide_eq_true hstatus
  refine ⟨t, Machine.reaches_of_run (fun _ _ _ _ _ => trivial) _ ht, fun htrail => ?_⟩
  obtain ⟨o, ho, hcancelled⟩ := Option.map_eq_some_iff.mp hpast
  obtain ⟨o', ho', hsame⟩ := htrail.final _ _ (List.take_append_drop 1 _).symm "order-1" o ho
    (.inr (.inl hcancelled))
  rw [ho', Option.map_some, hsame, hcancelled] at hnow
  cases hnow

end OrderService
