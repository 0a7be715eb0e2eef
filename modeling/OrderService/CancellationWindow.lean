import OrderService.Interleaving.Throwing
import OrderService.LifecycleInTurn
import OrderService.StatusAuthority

/-! The minute in which a customer may cancel: `assertTransition` asks for it on a transition that
its table does not have. -/
namespace OrderService
open ReadCommitted Interleaving

section Statement

/-- The order has not been accepted, and was placed at most a minute ago. -/
def InWindow (order : OrderEntity) (now : Time) : Prop :=
  order.acceptedAt = none ∧ now - order.createdAt ≤ customerCancelWindowMs

/-- Under this id the customer finds his order, placed. -/
structure FindsPlaced (actor : ActorContext) (orderId : String) (w : World) (order : OrderEntity) :
    Prop where
  found : w.store.db.order orderId = some order
  placed : order.status = .placed
  customer : resolveStatusActor actor order = .ok .customer

/-- The call cancels the order only within the window; after that it throws the window's error,
and the orders stay as they were. -/
def KeepsWindow (actor : ActorContext) (reason : Option String) (region orderId : String)
    (p : Pid) (es : List Env) (w : World) (order : OrderEntity) : Prop :=
  let after := machine.runAlone p (updateStatus actor ⟨.cancelled, reason⟩ region orderId) es w
  ((after.2.store.db.order orderId).map OrderEntity.status = some .cancelled →
      InWindow order w.clock) ∧
    (¬InWindow order w.clock → after.1 = .threw (.app cancellationWindowExpiredError) ∧
      after.2.store.db.orders = w.store.db.orders)

end Statement

section Errors
variable {p : Pid} {w w' : World} {e : Env} {err : Err}

theorem eval_error {q : Sql} {seqs : Seqs} {clock : Time} {db : Db}
    (h : (q.eval seqs clock db).reply = .error err) : err = .failed := by
  cases q
  all_goals
    simp only [Sql.eval, reading, writing] at h
    first
      | cases h
      | split at h <;> first | exact (Except.error.inj h).symm | cases h

/-- A statement is rejected by the database or by the driver, with an error that is none of the
application's. -/
theorem execSql_error {c : Conn} {q : Sql} (h : execSql p c q w = some (.error err, w')) :
    err = .failed ∨ err = .completed := by
  cases c with
  | pool =>
    obtain ⟨a, ha, heq⟩ := Option.map_eq_some_iff.mp h
    obtain ⟨hreply, -, -⟩ := autocommit_cases ha
    rw [Prod.mk.injEq, hreply] at heq
    exact .inl (eval_error heq.1)
  | trx =>
    obtain ⟨a, ha, heq⟩ := Option.map_eq_some_iff.mp h
    rcases query_cases ha with ⟨hnone, -, -⟩ | ⟨log, -, hsome, -, -⟩
    · rw [hnone] at heq
      have herr : Except.error Err.completed = (Except.error err : Except Err q.Res) :=
        congrArg Prod.fst heq
      exact .inr (Except.error.inj herr).symm
    · rw [hsome] at heq
      exact .inl (eval_error (congrArg Prod.fst heq))

theorem error_of_reply {ρ : Type} {err' : Err}
    (h : some ((.error err', w) : Except Err ρ × World) = some (.error err, w')) : err' = err :=
  Except.error.inj (congrArg Prod.fst (Option.some.inj h))

theorem exec_error {o : Op} (h : exec p o e w = some (.error err, w')) :
    err = .failed ∨ err = .completed := by
  cases o
  case sql c q =>
    simp only [exec] at h
    split_ifs at h with hfail
    · exact .inl (error_of_reply h).symm
    · exact execSql_error h
  case commit =>
    simp only [exec] at h
    split_ifs at h with hfail
    · exact .inl (error_of_reply h).symm
    · cases hcommit : w.store.commit engine p with
      | none =>
        rw [hcommit] at h
        exact .inr (error_of_reply h).symm
      | some s =>
        rw [hcommit] at h
        cases h
  all_goals
    simp only [exec] at h
    first
      | cases h
      | split_ifs at h <;> first | exact .inl (error_of_reply h).symm | cases h

theorem resolve_error {actor : ActorContext} {order : OrderEntity}
    (h : resolveStatusActor actor order = .error err) : err = .app unAuthorisedError := by
  unfold resolveStatusActor at h
  split_ifs at h <;> exact (Except.error.inj h).symm

theorem invalidTransition_ne (source target : OrderStatus) :
    invalidStatusTransitionError source target ≠ cancellationWindowExpiredError := by
  cases source <;> cases target <;> decide

theorem check_error {current next : OrderStatus} {ctx : AssertTransitionContext}
    (h : checkTransition current next ctx = .error err) :
    err ≠ .app cancellationWindowExpiredError := by
  unfold checkTransition at h
  cases hrule : transitions current next with
  | none =>
    rw [hrule] at h
    rw [← Except.error.inj h]
    exact fun heq => invalidTransition_ne current next (Err.app.inj heq)
  | some allowed =>
    rw [hrule] at h
    dsimp only at h
    by_cases hactor : ctx.actor ∉ allowed.actors
    · rw [if_pos hactor] at h
      rw [← Except.error.inj h]
      exact fun heq => invalidTransition_ne current next (Err.app.inj heq)
    rw [if_neg hactor] at h
    split_ifs at h with hreason
    rw [← Except.error.inj h]
    decide

theorem writeStatus_throws {dto : UpdateOrderStatusRequest} {order : OrderEntity}
    {stamp : Option Stamp} {ctx : AssertTransitionContext} :
    (writeStatus dto order stamp ctx).Throws (· ≠ .app cancellationWindowExpiredError) := by
  have hemit : ∀ updated, (emitTransition updated ctx).Throws
      (· ≠ .app cancellationWindowExpiredError) := by
    intro updated
    unfold emitTransition
    cases outboxEventForStatus updated.status with
    | none => trivial
    | some eventType => exact Prog.throws_perform
  refine Prog.throws_do ?_ fun updated => ?_
  · refine Prog.throws_do Prog.throws_perform fun updatedAt => ?_
    refine Prog.throws_do Prog.throws_perform fun row => ?_
    cases row with
    | none => exact fun heq => absurd heq (by decide)
    | some row => trivial
  · refine Prog.throws_do (hemit updated) fun _ => ?_
    exact Prog.throws_do Prog.throws_perform fun _ => trivial

/-- Neither the checks nor the change throw the error of the window. -/
theorem updateStatus_throws (actor : ActorContext) (dto : UpdateOrderStatusRequest)
    (region orderId : String) : (updateStatus actor dto region orderId).Throws
      (· ≠ .app cancellationWindowExpiredError) := by
  unfold updateStatus
  refine Prog.throws_do Prog.throws_perform fun found => ?_
  cases found with
  | none => exact fun heq => absurd heq (by decide)
  | some order =>
    refine Prog.throws_do (Prog.throws_ofExcept fun err herr => ?_) fun statusActor => ?_
    · rw [resolve_error herr]
      decide
    simp only [assertTransition_eq]
    refine Prog.throws_do (Prog.throws_ofExcept fun err herr => ?_) fun stamp => ?_
    · exact check_error herr
    refine Prog.throws_do Prog.throws_perform fun _ => ?_
    refine Prog.throws_do (Prog.throws_catch ?_ ?_) fun updated => ?_
    · exact writeStatus_throws
    · exact fun err herr => Prog.throws_do Prog.throws_perform fun _ => herr
    · refine Prog.throws_do Prog.throws_perform fun _ => ?_
      refine Prog.throws_do Prog.throws_perform fun _ => ?_
      exact Prog.throws_do Prog.throws_perform fun _ => trivial

end Errors

section Result
variable {actor : ActorContext} {reason : Option String} {region orderId : String} {p : Pid}
  {w : World} {order : OrderEntity}

theorem orders_next {α : Type} {o : Op} {k : Except Err o.Res → Svc α} {e : Env} {es : List Env}
    {r : Except Err o.Res} {w' : World} {orders : List OrderEntity}
    (hx : exec p o e w = some (r, w'))
    (h : (machine.runAlone p (k r) es w').2.store.db.orders = orders) :
    (machine.runAlone p (.op o k) (e :: es) w).2.store.db.orders = orders := by
  rw [runAlone_next hx]
  exact h

/-- Nothing but the reason is asked of the customer: with one his placed order is cancelled,
however long ago he placed it. -/
theorem cancelled_however_late (hw : w.AtRest) (h : FindsPlaced actor orderId w order)
    (hreason : blankReason reason = false) {find start clock update : Env}
    (hfind : find.fail = false) (hstart : start.fail = false) (hupdate : update.fail = false)
    (rest : List Env) :
    (machine.runAlone p (updateStatus actor ⟨.cancelled, reason⟩ region orderId)
        (find :: start :: clock :: update :: rest) w).2.store.db.order orderId
      = some (order.withStatus .cancelled (some .cancelledAt) w.clock) := by
  have hempty : HasWritten p [] w := hasWritten_atRest hw p
  obtain rfl : order.publicId = orderId := by simpa using List.find?_some h.found
  have hcheck : checkTransition order.status .cancelled
      ⟨.customer, reason, some order.createdAt, order.acceptedAt⟩ = .ok (some .cancelledAt) := by
    simp [checkTransition, h.placed, transitions, hreason]
  have hmove : checkAndMove actor ⟨.cancelled, reason⟩ region order
      = moveOrder ⟨.cancelled, reason⟩ region order (some .cancelledAt)
        ⟨.customer, reason, some order.createdAt, order.acceptedAt⟩ := by
    simp only [checkAndMove, assertTransition_eq, h.customer, hcheck, Prog.ofExcept, Prog.bind_eq,
      Prog.bind]
  set seen := w.pooled p (.findOrderByPublicId order.publicId) with hseen
  have hread : HasWritten p [] seen := hempty.pooled (.findOrderByPublicId order.publicId)
  have hdb : seen.store.db = w.store.db := rfl
  set opened : World := { seen with store := seen.store.start p }
  have hopened : HasWritten p [] opened := hread.started
  set update' : Sql := .updateOrderStatus order.publicId .cancelled (some .cancelledAt) w.clock
  -- The lookup, the start of the transaction, the clock, and the update on the pool.
  have hfound : exec p (.sql .pool (.findOrderByPublicId order.publicId)) find w
      = some (.ok (some order), seen) := by
    rw [hempty.exec_pool hfind, hseen, ← h.found]
    rfl
  have hbegin : exec p .start start seen = some (.ok (), opened) := by
    simp [exec, hstart, opened]
  have hanswer : opened.onPool update'
      = writing (some (order.withStatus .cancelled (some .cancelledAt) w.clock))
        [.setOrderStatus order.publicId .cancelled (some .cancelledAt) w.clock] := by
    have horder : opened.store.db.order order.publicId = some order := h.found
    simp only [World.onPool, Sql.eval, update', horder]
  have hupdated : exec p (.sql .pool update') update opened
      = some (.ok (some (order.withStatus .cancelled (some .cancelledAt) w.clock)),
        opened.pooled p update') := by
    rw [hopened.exec_pool hupdate, hanswer]
    rfl
  have hmoved := hopened.pooled update'
  rw [hanswer] at hmoved
  set ctx : AssertTransitionContext :=
    ⟨.customer, reason, some order.createdAt, order.acceptedAt⟩ with hctx
  set cancelled := order.withStatus .cancelled (some .cancelledAt) w.clock
  -- What is left writes no order.
  have hrest : Within Write.OffOrders ((tryCatch
      (do emitTransition cancelled ctx
          commit
          pure cancelled : Svc OrderEntity) fun e => do
            rollback
            throw e) >>= fun updated => do
              let _ ← cache (.del (.restaurantOrders region order.branchId))
              emit (.customer order.customerId) .orderStatusChanged updated.publicId
              emit (.branch order.branchId) .orderStatusChanged updated.publicId
              pure (OrderStatusResponse.ofOrder updated)) := by
    refine within_do (within_catch ?_ fun err => ?_) fun updated => ?_
    · refine within_do ?_ fun _ => within_do (within_any trivial) fun _ => trivial
      unfold emitTransition
      split
      · trivial
      · exact within_insertOutboxEvent fun _ _ => trivial
    · exact within_do (within_any trivial) fun _ => trivial
    · exact within_do (within_any trivial) fun _ => within_do (within_any trivial) fun _ =>
        within_do (within_any trivial) fun _ => trivial
  have hkept := hmoved.kept (off_orders_kept p (opened.pooled p update').store.db.orders) hrest rest
    rfl
  have horders : (machine.runAlone p (updateStatus actor ⟨.cancelled, reason⟩ region order.publicId)
      (find :: start :: clock :: update :: rest) w).2.store.db.orders
        = (opened.pooled p update').store.db.orders := by
    refine orders_next hfound ?_
    change (machine.runAlone p (checkAndMove actor ⟨.cancelled, reason⟩ region order) _ _).2.store.db.orders = _
    rw [hmove]
    exact orders_next hbegin (orders_next (o := .now) rfl (orders_next hupdated hkept))
  have hafter : (opened.pooled p update').store.db = engine.apply
      (.setOrderStatus order.publicId .cancelled (some .cancelledAt) w.clock) w.store.db := by
    change engine.applyAll (opened.onPool update').writes w.store.db = _
    rw [hanswer]
    rfl
  rw [Db.order, horders, ← Db.order, hafter, order_setOrderStatus, h.found]
  rfl

/-- Whatever fails, a call on a placed order of the customer keeps the window exactly if the order
is in it: the error of the window is never thrown. -/
theorem cancellation_window (actor : ActorContext) (reason : Option String)
    (region orderId : String) (p : Pid) (es : List Env) (w : World) :
    (∀ order, FindsPlaced actor orderId w order →
        KeepsWindow actor reason region orderId p es w order) ↔
      ∀ order, FindsPlaced actor orderId w order → InWindow order w.clock := by
  refine forall_congr' fun order => forall_congr' fun _ => ⟨fun hkeeps => ?_, fun hin => ?_⟩
  · by_contra hout
    have hthrew := (hkeeps.2 hout).1
    exact machine.threw_runAlone (E := (· ≠ .app cancellationWindowExpiredError))
      (fun o e w err w' hx => by
        rcases exec_error hx with rfl | rfl
        · decide
        · decide)
      (updateStatus_throws actor ⟨.cancelled, reason⟩ region orderId) hthrew rfl
  · exact ⟨fun _ => hin, fun hout => absurd hin hout⟩

def customerThree : ActorContext := ⟨3, .other "customer", none, none, none⟩

/-- Customer 3 placed the order 61 seconds ago. -/
def placedAMinuteAgo : World :=
  { store := Store.ofDb { orders := [OrderEntity.sample "order-1" .placed] }, clock := 61000 }

/-- The order is cancelled all the same. -/
theorem cancelled_after_a_minute :
    FindsPlaced customerThree "order-1" placedAMinuteAgo (OrderEntity.sample "order-1" .placed) ∧
      ¬KeepsWindow customerThree (some "changed my mind") "eg" "order-1" 0 (List.replicate 9 {})
        placedAMinuteAgo (OrderEntity.sample "order-1" .placed) := by
  have hlate : ¬InWindow (OrderEntity.sample "order-1" .placed) placedAMinuteAgo.clock := by
    intro hin
    exact absurd hin.2 (by decide)
  have hcancelled : ((machine.runAlone 0 (updateStatus customerThree
      ⟨.cancelled, some "changed my mind"⟩ "eg" "order-1") (List.replicate 9 {})
        placedAMinuteAgo).2.store.db.order "order-1").map OrderEntity.status
          = some .cancelled := by decide +kernel
  exact ⟨⟨rfl, rfl, rfl⟩, fun hkeeps => hlate (hkeeps.1 hcancelled)⟩

end Result

end OrderService
