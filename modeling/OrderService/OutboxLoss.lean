import OrderService.OutboxAtomic

/-! The order route writes a status and its event on the pool, in two commits, and so loses the
event when it fails between them. -/
namespace OrderService
open ReadCommitted Interleaving

section OrderRoute
variable {p : Pid} {w : World} {ws : List Write} {α : Type}

/-- No row is locked, the transaction of `p` is empty, and `p` has committed `ws`. -/
structure HasWritten (p : Pid) (ws : List Write) (w : World) : Prop where
  locked : Locked engine w.store
  locks : w.store.locks = []
  log : w.log p = []
  wrote : batchesOf p w.store.history = ws

theorem HasWritten.started (h : HasWritten p ws w) :
    HasWritten p ws { w with store := w.store.start p } where
  locked := start_locked h.locked
  locks := h.locks
  log := World.log_of_active (World.start_txn w p)
  wrote := h.wrote

theorem HasWritten.pooled (h : HasWritten p ws w) (q : Sql) :
    HasWritten p (ws ++ (w.onPool q).writes) (w.pooled p q) where
  locked := ⟨h.locked.log_locked, h.locked.exclusive⟩
  locks := h.locks
  log := h.log
  wrote := by
    by_cases hempty : (w.onPool q).writes = []
    · have hstore : (w.pooled p q).store = w.store := World.pooled_store hempty
      rw [hstore, hempty, List.append_nil]
      exact h.wrote
    · simp only [World.pooled, List.isEmpty_iff, hempty, if_false]
      rw [batchesOf_append_self, h.wrote]

/-- Without locks no statement on the pool has to wait. -/
theorem HasWritten.exec_pool (h : HasWritten p ws w) {q : Sql} {e : Env} (hfail : e.fail = false) :
    exec p (.sql .pool q) e w = some ((w.onPool q).reply, w.pooled p q) := by
  have hfree : (engine.keys (q.eval w.seqs w.clock w.store.db)).any
      (fun k => w.store.locks.any fun l => decide (l.1 = k)) = false := by
    rw [h.locks]
    simp
  simp only [exec, hfail, execSql, Store.autocommit, hfree]
  rfl

/-- A program that writes nothing adds nothing to what was committed. -/
theorem HasWritten.runAlone (h : HasWritten p ws w) {prog : Svc α}
    (hprog : Within (fun _ => False) prog) (es : List Env) :
    batchesOf p (machine.runAlone p prog es w).2.store.history = ws := by
  have hkept : KeptBy (fun _ history => batchesOf p history = ws) p fun _ => False := by
    intro db history log hbatches hlog
    have hempty : log = [] := List.eq_nil_iff_forall_not_mem.mpr hlog
    rw [batchesOf_append_self, hempty, List.append_nil]
    exact hbatches
  exact runAlone_shared (I := fun _ history => batchesOf p history = ws) ⟨h.locked, h.wrote⟩
    (wp_harmless hprog hkept (fun _ _ _ _ _ _ _ _ _ => trivial)
      fun x hx => by rw [h.log] at hx; cases hx)

/-- Where the answers end the process dies, and a statement that fails leaves an error. -/
theorem HasWritten.interrupted (h : HasWritten p ws w) {o : Op} {k : Except Err o.Res → Svc α}
    (hfails : ∀ e, e.fail = true → exec p o e w = some (.error .failed, w))
    (herror : Within (fun _ => False) (k (.error .failed))) {es : List Env}
    (hes : ∀ e es', es = e :: es' → e.fail = true) :
    batchesOf p (machine.runAlone p (.op o k) es w).2.store.history = ws := by
  cases es with
  | nil => exact h.wrote
  | cons e es =>
    have hx : machine.exec p o e w = some (.error .failed, w) := hfails e (hes e es rfl)
    simp only [Machine.runAlone, hx]
    exact h.runAlone herror es

/-- The rest of the run after one operation. -/
theorem runAlone_next {o : Op} {k : Except Err o.Res → Svc α} {e : Env} {es : List Env}
    {r : Except Err o.Res} {w' : World} (hx : exec p o e w = some (r, w')) :
    machine.runAlone p (.op o k) (e :: es) w = machine.runAlone p (k r) es w' := by
  have hx' : machine.exec p o e w = some (r, w') := hx
  simp only [Machine.runAlone, hx']

theorem batches_next {o : Op} {k : Except Err o.Res → Svc α} {e : Env} {es : List Env}
    {r : Except Err o.Res} {w' : World} (hx : exec p o e w = some (r, w'))
    (h : batchesOf p (machine.runAlone p (k r) es w').2.store.history = ws) :
    batchesOf p (machine.runAlone p (.op o k) (e :: es) w).2.store.history = ws := by
  rw [runAlone_next hx]
  exact h

theorem exec_pool_fails {q : Sql} {e : Env} (hfail : e.fail = true) :
    exec p (.sql .pool q) e w = some (.error .failed, w) := by
  simp only [exec, hfail, if_true]

section Moving
variable {actor : ActorContext} {dto : UpdateOrderStatusRequest} {region orderId : String}
  {order : OrderEntity} {stamp : Option Stamp} {ctx : AssertTransitionContext}
  {eventType : EventType}

/-- What `OrderService.updateStatus` does when its checks have passed. -/
def moveOrder (dto : UpdateOrderStatusRequest) (region : String) (order : OrderEntity)
    (stamp : Option Stamp) (ctx : AssertTransitionContext) : Svc OrderStatusResponse := do
  startTransaction
  let updated ← tryCatch (writeStatus dto order stamp ctx) fun e => do
    rollback
    throw e
  let _ ← cache (.del (.restaurantOrders region order.branchId))
  emit (.customer order.customerId) .orderStatusChanged updated.publicId
  emit (.branch order.branchId) .orderStatusChanged updated.publicId
  pure (.ofOrder updated)

/-- After the status the event is written; only then are both committed. -/
theorem batches_event (h : HasWritten p ws w) {updated : OrderEntity}
    (hevent : outboxEventForStatus updated.status = some eventType)
    {after : OrderEntity → Svc α} (hafter : ∀ o, Within (fun _ => False) (after o))
    (es : List Env) :
    ∃ row : OutboxRow, row.aggregateId = updated.publicId ∧ row.eventType = eventType ∧
      batchesOf p (machine.runAlone p ((tryCatch
        (do emitTransition updated ctx
            commit
            pure updated : Svc OrderEntity) fun e => do
              rollback
              throw e) >>= after) es w).2.store.history
        = if es.head?.all Env.fail then ws else ws ++ [.insertOutbox row] := by
  have hemit : emitTransition updated ctx
      = insertOutboxEvent .pool (transitionEvent updated eventType ctx) := by
    rw [emitTransition, hevent]
  have hundo : Within (fun _ => False) (do
      rollback
      throw .failed : Svc OrderEntity) := within_do (within_any trivial) fun _ => trivial
  rw [hemit]
  refine ⟨{ transitionEvent updated eventType ctx with
    id := w.seqs.eventsOutbox, createdAt := w.clock }, rfl, rfl, ?_⟩
  split_ifs with hfail
  · refine h.interrupted (fun e he => exec_pool_fails he) ?_ fun e es' hes => ?_
    · exact within_do hundo hafter
    · rw [hes] at hfail
      exact hfail
  · cases es with
    | nil => exact absurd rfl hfail
    | cons e es =>
      have hok : e.fail = false := by simpa using hfail
      have hrow := h.pooled (.insertOutboxEvent (transitionEvent updated eventType ctx))
      have hrest : Within (fun _ => False) ((tryCatch
          (do commit
              pure updated : Svc OrderEntity) fun e => do
                rollback
                throw e) >>= after) := by
        refine within_do (within_catch ?_ fun err => ?_) hafter
        · exact within_do (within_any trivial) fun _ => trivial
        · exact within_do (within_any trivial) fun _ => trivial
      exact batches_next (r := .ok ()) (h.exec_pool hok) (hrow.runAlone hrest es)

/-- The status is written first, on the pool. -/
theorem batches_writeStatus (h : HasWritten p [] w)
    (horder : w.store.db.order order.publicId = some order)
    (hevent : outboxEventForStatus dto.status = some eventType)
    {after : OrderEntity → Svc α} (hafter : ∀ o, Within (fun _ => False) (after o))
    {update : Env} (hupdate : update.fail = false) (clock : Env) (rest : List Env) :
    ∃ now, ∃ row : OutboxRow, row.aggregateId = order.publicId ∧ row.eventType = eventType ∧
      batchesOf p (machine.runAlone p ((tryCatch (writeStatus dto order stamp ctx) fun e => do
          rollback
          throw e) >>= after) (clock :: update :: rest) w).2.store.history
        = if rest.head?.all Env.fail then
            [.setOrderStatus order.publicId dto.status stamp now]
          else [.setOrderStatus order.publicId dto.status stamp now, .insertOutbox row] := by
  have hmoved := h.pooled (.updateOrderStatus order.publicId dto.status stamp w.clock)
  have hanswer : w.onPool (.updateOrderStatus order.publicId dto.status stamp w.clock)
      = writing (some (order.withStatus dto.status stamp w.clock))
        [.setOrderStatus order.publicId dto.status stamp w.clock] := by
    simp only [World.onPool, Sql.eval, horder]
  have hx : exec p (.sql .pool (.updateOrderStatus order.publicId dto.status stamp w.clock))
      update w = some (.ok (some (order.withStatus dto.status stamp w.clock)),
        w.pooled p (.updateOrderStatus order.publicId dto.status stamp w.clock)) := by
    rw [h.exec_pool hupdate, hanswer]
    rfl
  rw [hanswer, List.nil_append] at hmoved
  have hevent' : outboxEventForStatus (order.withStatus dto.status stamp w.clock).status
      = some eventType := by
    rw [withStatus_status]
    exact hevent
  obtain ⟨row, hid, hkind, hrow⟩ := batches_event hmoved hevent' hafter rest
  rw [withStatus_publicId] at hid
  refine ⟨w.clock, row, hid, hkind, ?_⟩
  exact batches_next (o := .now) rfl (batches_next hx hrow)

theorem within_afterMove {region : String} {order updated : OrderEntity} :
    Within (fun _ => False) (do
      let _ ← cache (.del (.restaurantOrders region order.branchId))
      emit (.customer order.customerId) .orderStatusChanged updated.publicId
      emit (.branch order.branchId) .orderStatusChanged updated.publicId
      pure (.ofOrder updated) : Svc OrderStatusResponse) := by
  refine within_do (within_any trivial) fun _ => within_do (within_any trivial) fun _ => ?_
  exact within_do (within_any trivial) fun _ => trivial

/-- The writes that an allowed change commits: none, the status alone, or the status and its
event. -/
theorem batches_moveOrder (h : HasWritten p [] w)
    (horder : w.store.db.order order.publicId = some order)
    (hevent : outboxEventForStatus dto.status = some eventType) (es : List Env) :
    ∃ now, ∃ row : OutboxRow, row.aggregateId = order.publicId ∧ row.eventType = eventType ∧
      batchesOf p (machine.runAlone p (moveOrder dto region order stamp ctx) es w).2.store.history
        = match statusWritten es with
          | none => []
          | some rest => if rest.head?.all Env.fail then
              [.setOrderStatus order.publicId dto.status stamp now]
            else [.setOrderStatus order.publicId dto.status stamp now, .insertOutbox row] := by
  have hany : ∃ row : OutboxRow, row.aggregateId = order.publicId ∧ row.eventType = eventType :=
    ⟨{ transitionEvent order eventType ctx with id := 0, createdAt := 0 }, rfl, rfl⟩
  have hundo : ∀ e, Within (fun _ => False) (do
      rollback
      throw e : Svc OrderEntity) := fun e => within_do (within_any trivial) fun _ => trivial
  obtain ⟨row₀, hid₀, hkind₀⟩ := hany
  -- The transaction may not start, or the process may die before it has written the status.
  cases es with
  | nil => exact ⟨0, row₀, hid₀, hkind₀, h.wrote⟩
  | cons start es =>
    cases hstart : start.fail with
    | true =>
      refine ⟨0, row₀, hid₀, hkind₀, ?_⟩
      have hnone : statusWritten (start :: es) = none := by
        rcases es with _ | ⟨clock, _ | ⟨update, rest⟩⟩ <;> simp [statusWritten, hstart]
      rw [hnone]
      refine h.interrupted (o := .start) (fun e he => by simp [exec, he]) ?_ ?_
      · trivial
      · intro e es' heq
        rw [← (List.cons.inj heq).1]
        exact hstart
    | false =>
      have hx : exec p .start start w = some (.ok (), { w with store := w.store.start p }) := by
        simp [exec, hstart]
      have hopened := h.started
      rcases es with _ | ⟨clock, _ | ⟨update, rest⟩⟩
      · exact ⟨0, row₀, hid₀, hkind₀, batches_next hx hopened.wrote⟩
      · refine ⟨0, row₀, hid₀, hkind₀, batches_next hx (batches_next (o := .now) rfl ?_)⟩
        exact hopened.wrote
      · cases hupdate : update.fail with
        | true =>
          refine ⟨0, row₀, hid₀, hkind₀, ?_⟩
          have hnone : statusWritten (start :: clock :: update :: rest) = none := by
            simp [statusWritten, hupdate]
          rw [hnone]
          refine batches_next hx (batches_next (o := .now) rfl ?_)
          refine batches_next (exec_pool_fails hupdate) (hopened.runAlone ?_ rest)
          exact within_do (hundo _) fun _ => within_afterMove
        | false =>
          obtain ⟨now, row, hid, hkind, hwritten⟩ := batches_writeStatus
            hopened horder hevent (fun _ => within_afterMove) hupdate clock rest
          refine ⟨now, row, hid, hkind, ?_⟩
          have hsome : statusWritten (start :: clock :: update :: rest) = some rest := by
            simp [statusWritten, hstart, hupdate]
          rw [hsome]
          exact batches_next hx hwritten

/-- The checks of `OrderService.updateStatus`, and the change. -/
def checkAndMove (actor : ActorContext) (dto : UpdateOrderStatusRequest) (region : String)
    (order : OrderEntity) : Svc OrderStatusResponse := do
  let statusActor ← Interleaving.Prog.ofExcept (resolveStatusActor actor order)
  let ctx : AssertTransitionContext :=
    ⟨statusActor, dto.reason, some order.createdAt, order.acceptedAt⟩
  let stamp ← assertTransition order.status dto.status ctx
  moveOrder dto region order stamp ctx

theorem checkAndMove_cases (actor : ActorContext) (dto : UpdateOrderStatusRequest)
    (region : String) (order : OrderEntity) :
    ((∃ e, checkAndMove actor dto region order = .throw e) ∧ mayMove actor dto order = false) ∨
      ((∃ stamp ctx, checkAndMove actor dto region order = moveOrder dto region order stamp ctx) ∧
        mayMove actor dto order = true) := by
  unfold checkAndMove mayMove
  simp only [assertTransition_eq]
  cases resolveStatusActor actor order with
  | error e => exact .inl ⟨⟨e, rfl⟩, rfl⟩
  | ok statusActor =>
    dsimp only
    cases hcheck : checkTransition order.status dto.status
        ⟨statusActor, dto.reason, some order.createdAt, order.acceptedAt⟩ with
    | error e =>
      refine .inl ⟨⟨e, ?_⟩, rfl⟩
      simp only [Prog.ofExcept, Prog.bind_eq, Prog.bind, hcheck]
    | ok stamp =>
      refine .inr ⟨⟨stamp,
        ⟨statusActor, dto.reason, some order.createdAt, order.acceptedAt⟩, ?_⟩, rfl⟩
      simp only [Prog.ofExcept, Prog.bind_eq, Prog.bind, hcheck]

/-- A refused call, or one that dies before its checks, has written nothing. -/
theorem updateStatus_told (hdto : outboxEventForStatus dto.status = some eventType)
    (h : HasWritten p [] w) (es : List Env) :
    Told (batchesOf p (machine.runAlone p (updateStatus actor dto region orderId) es w).2.store.history)
      ↔ (Call.updateStatus actor dto region orderId).losesEvent es w.store.db = false := by
  have hevent : eventFor dto.status = some eventType := by
    cases hstatus : dto.status <;> rw [hstatus] at hdto <;> first | exact hdto | cases hdto
  have hempty : Told [] := told_of_silent fun x hx => by cases hx
  have hnothing : ∀ {written : List Write} {lost : Bool}, written = [] → lost = false →
      (Told written ↔ lost = false) := by
    rintro written lost rfl hlost
    exact ⟨fun _ => hlost, fun _ => hempty⟩
  cases es with
  | nil => exact hnothing h.wrote rfl
  | cons find es =>
    cases hfind : find.fail with
    | true =>
      refine hnothing (h.interrupted (fun e he => exec_pool_fails he) ?_ ?_) ?_
      · trivial
      · intro e es' heq
        rw [← (List.cons.inj heq).1]
        exact hfind
      · simp [Call.losesEvent, hfind]
    | false =>
      have hx : exec p (.sql .pool (.findOrderByPublicId orderId)) find w
          = some (.ok (w.store.db.order orderId), w.pooled p (.findOrderByPublicId orderId)) :=
        h.exec_pool hfind
      have hread : HasWritten p [] (w.pooled p (.findOrderByPublicId orderId)) :=
        h.pooled (.findOrderByPublicId orderId)
      cases hfound : w.store.db.order orderId with
      | none =>
        rw [hfound] at hx
        refine hnothing (batches_next hx hread.wrote) ?_
        simp [Call.losesEvent, hfound]
      | some order =>
        rw [hfound] at hx
        have hrest : machine.runAlone p (updateStatus actor dto region orderId) (find :: es) w
            = machine.runAlone p (checkAndMove actor dto region order) es
              (w.pooled p (.findOrderByPublicId orderId)) := runAlone_next hx
        rw [hrest]
        rcases checkAndMove_cases actor dto region order with ⟨⟨e, hthrow⟩, hrefused⟩ | ⟨hmove, hmay⟩
        · rw [hthrow]
          refine hnothing hread.wrote ?_
          simp [Call.losesEvent, hfound, hrefused]
        · obtain ⟨stamp, ctx, hmove⟩ := hmove
          have hpid : order.publicId = orderId := by simpa using List.find?_some hfound
          have horder : (w.pooled p (.findOrderByPublicId orderId)).store.db.order order.publicId
              = some order := by
            rw [hpid]
            exact hfound
          obtain ⟨now, row, hid, hkind, hwritten⟩ := batches_moveOrder
            hread horder hdto es
          have hlost : (Call.updateStatus actor dto region orderId).losesEvent (find :: es) w.store.db
              = (statusWritten es).any fun rest => rest.head?.all Env.fail := by
            simp [Call.losesEvent, hfind, hfound, hmay]
          rw [hmove, hwritten, hlost]
          cases hreached : statusWritten es with
          | none => exact hnothing rfl rfl
          | some rest =>
            dsimp only [Option.any_some]
            split_ifs with hfail
            · refine iff_of_false (fun htold => ?_) (by simp [hfail])
              -- The status was given, and nothing tells of it.
              obtain ⟨x, hx, htells⟩ := (htold order.publicId dto.status eventType hevent).mp
                ⟨_, List.mem_singleton_self _, rfl, rfl⟩
              rw [List.mem_singleton.mp hx] at htells
              exact htells
            · refine iff_of_true ?_ (by simpa using hfail)
              apply told_of_change _ hevent
              · exact ⟨_, List.mem_cons_self, rfl, rfl⟩
              · exact ⟨.insertOutbox row, by simp, hid, hkind⟩
              · intro x hx
                rcases List.mem_cons.mp hx with rfl | hx
                · exact .inr concerns_setOrderStatus
                · rw [List.mem_singleton.mp hx]
                  exact .inr (concerns_insertOutbox hid hkind)

end Moving

theorem hasWritten_atRest (h : w.AtRest) (p : Pid) : HasWritten p [] w where
  locked := h.locked
  locks := h.locks
  log := by
    rw [World.log, h.txn p]
    rfl
  wrote := by
    rw [h.history]
    rfl

/-- What a call keeps told at every commit is told at the end. -/
theorem told_of_wp {prog : Svc α} (hw : w.AtRest) (es : List Env)
    (hwp : wp machine anyOp (sharedSpec ToldHistory) p prog (OnOk fun _ _ => True) w) :
    Told (batchesOf p (machine.runAlone p prog es w).2.store.history) := by
  have hstart : ToldHistory w.store.db w.store.history := by
    rw [hw.history]
    exact fun b hb => by cases hb
  exact told_batchesOf (runAlone_shared ⟨hw.locked, hstart⟩ hwp) p

end OrderRoute

section Result

/-- Whatever fails and whenever the process dies: a new status is committed if and only if its
event is, unless the order route loses the event. -/
theorem status_iff_event (hmacSha256 : String → String → String) (cfg : Config) (c : Call)
    (hc : c.announces = true) (w : World) (hw : w.AtRest) (p : Pid) (es : List Env) :
    Told (batchesOf p (machine.runAlone p (c.prog hmacSha256 cfg) es w).2.store.history) ↔
      c.losesEvent es w.store.db = false := by
  cases c with
  | placeOrder actor region dto =>
    have hcod : dto.paymentMethod = .cod := by simpa [Call.announces] using hc
    refine iff_of_true (told_of_wp hw es ?_) rfl
    exact wp_seq (wp_mono (fun r v _ => by cases r <;> trivial) (wp_placeOrder_told hcod))
  | webhook rawBody signature region =>
    refine iff_of_true (told_of_wp hw es ?_) rfl
    exact wp_seq (wp_mono (fun r v _ => by cases r <;> trivial) (wp_webhook_told hmacSha256))
  | updateStatus actor dto region orderId =>
    obtain ⟨eventType, hevent⟩ := Option.isSome_iff_exists.mp hc
    rw [Call.prog, Machine.runAlone_map]
    exact updateStatus_told hevent (hasWritten_atRest hw p) es
  | agentUpdateStatus publicId agentId region action =>
    have hdelivered : action = .delivered := by simpa [Call.announces] using hc
    subst hdelivered
    refine iff_of_true (told_of_wp hw es ?_) rfl
    exact wp_seq (wp_mono (fun r v _ => by cases r <;> trivial) wp_agentUpdateStatus_told)
  | _ => cases hc

/-- An order that the restaurant has not accepted yet. -/
def unacceptedOrder : World :=
  { store := Store.ofDb { orders := [OrderEntity.sample "order-1" .placed] } }

def acceptOrder : Call := .updateStatus restaurantOwner ⟨.accepted, none⟩ "eg" "order-1"

/-- The answers to an acceptance whose event cannot be written. -/
def eventWriteFails : List Env := [{}, {}, {}, {}, { fail := true }, {}]

theorem status_iff_event_accepted :
    Told (batchesOf 0 (machine.runAlone 0 (acceptOrder.prog (fun _ _ => "") sampleConfig)
      (List.replicate 9 {}) unacceptedOrder).2.store.history) :=
  (status_iff_event (fun _ _ => "") sampleConfig acceptOrder (by decide) unacceptedOrder
    ⟨rfl, fun _ => rfl, rfl⟩ 0 (List.replicate 9 {})).mpr (by decide +kernel)

/-- The write of the event fails: the order stays accepted, and nothing tells of it. -/
theorem event_lost_accepted :
    let written := batchesOf 0 (machine.runAlone 0 (acceptOrder.prog (fun _ _ => "") sampleConfig)
      eventWriteFails unacceptedOrder).2.store.history
    written = [.setOrderStatus "order-1" .accepted (some .acceptedAt) 0] ∧ ¬Told written := by
  have hwritten : batchesOf 0 (machine.runAlone 0 (acceptOrder.prog (fun _ _ => "") sampleConfig)
      eventWriteFails unacceptedOrder).2.store.history
        = [.setOrderStatus "order-1" .accepted (some .acceptedAt) 0] := by rfl
  refine ⟨hwritten, fun htold => ?_⟩
  rw [hwritten] at htold
  obtain ⟨x, hx, htells⟩ := (htold "order-1" .accepted .orderAccepted rfl).mp
    ⟨_, List.mem_singleton_self _, rfl, rfl⟩
  rw [List.mem_singleton.mp hx] at htells
  exact htells

end Result

end OrderService
