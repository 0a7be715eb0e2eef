import OrderService.AssignmentSpec
import OrderService.Broadcasts
import OrderService.CallEffects
import OrderService.DeliverySpec
import OrderService.PlacementEffects
import OrderService.RowLocks

/-! The order in which each service locks its rows: every service keeps to the ranks of the keys,
and has closed its transaction at its end. -/
namespace OrderService
open ReadCommitted Interleaving

section Statements
variable {publicId : String} {status : OrderStatus} {stamp : Option Stamp} {α : Type}
  {M : Option (List Key) → Prop}

theorem moves_toEntity {row : Option α} : Moves (toEntity row) M M := by
  cases row with
  | none => exact moves_throw
  | some a => exact moves_pure

theorem moves_now : Moves now M M := moves_still (calls_any (o := .now) trivial)

/-- A statement that gets the time, and of which the first row is read back. -/
theorem moves_entity {q : Time → Sql} {key : Key} (hq : ∀ t, ∀ k ∈ (q t).keys, k = key)
    {f : (t : Time) → (q t).Res → Svc α} (hf : ∀ t r, Moves (f t r) (UpTo key) (UpTo key)) :
    Moves (now >>= fun t => sql .trx (q t) >>= f t) (UpTo key) (UpTo key) :=
  moves_do moves_now fun t => moves_do (moves_locking (hq t)) (hf t)

theorem moves_updateOrderStatus : Moves (updateOrderStatus publicId status .trx stamp)
    (UpTo (.order publicId)) (UpTo (.order publicId)) :=
  moves_entity (q := fun t => .updateOrderStatus publicId status stamp t)
    (fun _ _ hk => List.mem_singleton.mp hk) fun _ _ => moves_toEntity

theorem moves_createTransaction {data : TransactionData} {key : String}
    (hkey : data.idempotencyKey = some key) : Moves (createTransaction data .trx)
      (UpTo (.idempotency key)) (UpTo (.idempotency key)) := by
  refine moves_entity (q := fun t => .createTransaction data t) (fun t k hk => ?_) fun _ _ =>
    moves_toEntity
  simp only [Sql.keys, hkey] at hk
  unfold orNullText at hk
  split at hk
  · cases hk
  · simpa using hk

theorem moves_outbox {input : OutboxInput} : Moves (insertOutboxEvent .trx input) M M :=
  moves_still (calls_sql (by rfl) fun _ _ => trivial)

end Statements

section Ranks

theorem hasPrefix_append (start text : String) : hasPrefix start (start ++ text) = true := by
  unfold hasPrefix
  rw [String.toList_append, List.isPrefixOf_iff_prefix]
  exact List.prefix_append _ _

/-- Two starts of which none begins with the other are not confused. -/
theorem hasPrefix_other {start other text : String}
    (h : start.toList.isPrefixOf other.toList = false)
    (h' : other.toList.isPrefixOf start.toList = false) :
    hasPrefix start (other ++ text) = false := by
  unfold hasPrefix
  rw [String.toList_append, Bool.eq_false_iff, ne_eq, List.isPrefixOf_iff_prefix]
  intro hpre
  have hother : other.toList <+: other.toList ++ text.toList := List.prefix_append _ _
  rcases List.prefix_or_prefix_of_prefix hpre hother with hp | hp
  · rw [← List.isPrefixOf_iff_prefix, h] at hp
    cases hp
  · rw [← List.isPrefixOf_iff_prefix, h'] at hp
    cases hp

theorem rank_charge (id : String) : (Key.idempotency ("kashier:" ++ id)).rank = 1 := by
  simp only [Key.rank, hasPrefix_append, if_true]

theorem rank_codCollect (id : String) : (Key.idempotency ("cod-collect:" ++ id)).rank = 3 := by
  have hcharge : hasPrefix "kashier:" ("cod-collect:" ++ id) = false :=
    hasPrefix_other (by decide) (by decide)
  simp [Key.rank, hasPrefix_append, hcharge]

theorem rank_commission (id : String) : (Key.idempotency ("commission:" ++ id)).rank = 5 := by
  have hcharge : hasPrefix "kashier:" ("commission:" ++ id) = false :=
    hasPrefix_other (by decide) (by decide)
  have hcod : hasPrefix "cod-collect:" ("commission:" ++ id) = false :=
    hasPrefix_other (by decide) (by decide)
  simp [Key.rank, hasPrefix_append, hcharge, hcod]

theorem rank_serviceFee (id : String) : (Key.idempotency ("service-fee:" ++ id)).rank = 6 := by
  have hcharge : hasPrefix "kashier:" ("service-fee:" ++ id) = false :=
    hasPrefix_other (by decide) (by decide)
  have hcod : hasPrefix "cod-collect:" ("service-fee:" ++ id) = false :=
    hasPrefix_other (by decide) (by decide)
  have hcommission : hasPrefix "commission:" ("service-fee:" ++ id) = false :=
    hasPrefix_other (by decide) (by decide)
  simp [Key.rank, hasPrefix_append, hcharge, hcod, hcommission]

theorem rank_deliveryFee (id : String) : (Key.idempotency ("delivery-fee:" ++ id)).rank = 7 := by
  have hcharge : hasPrefix "kashier:" ("delivery-fee:" ++ id) = false :=
    hasPrefix_other (by decide) (by decide)
  have hcod : hasPrefix "cod-collect:" ("delivery-fee:" ++ id) = false :=
    hasPrefix_other (by decide) (by decide)
  have hcommission : hasPrefix "commission:" ("delivery-fee:" ++ id) = false :=
    hasPrefix_other (by decide) (by decide)
  have hservice : hasPrefix "service-fee:" ("delivery-fee:" ++ id) = false :=
    hasPrefix_other (by decide) (by decide)
  simp [Key.rank, hasPrefix_append, hcharge, hcod, hcommission, hservice]

theorem rank_foreign {input : PayoutInput} (h : input.Foreign) :
    (Key.idempotency input.idempotencyKey).rank = 11 := by
  simp only [PayoutInput.Foreign, ownPrefixes, List.forall_mem_cons] at h
  simp [Key.rank, h]

end Ranks

section Settlement
variable {order : OrderEntity} {agentId : Nat}

theorem moves_collectCod : Moves (collectCod order .trx) (Below 3) (Below 5) := by
  apply moves_do (moves_still (calls_sql (by rfl) fun _ _ => trivial))
  intro existingCod
  cases existingCod with
  | none =>
    have hrank := rank_codCollect order.publicId
    refine moves_do (R := Below 5) ?_ fun _ => moves_pure
    exact (moves_createTransaction rfl).locks (by rw [hrank]) (by rw [hrank]; decide)
  | some cod =>
    dsimp only
    split_ifs
    · refine moves_do (R := Below 5) ?_ fun _ => moves_pure
      have hupdate : Moves (updateTransactionStatus cod.id .succeeded .trx)
          (UpTo (.transaction cod.id)) (UpTo (.transaction cod.id)) :=
        moves_entity (q := fun t => .updateTransactionStatus cod.id .succeeded t)
          (fun _ _ hk => List.mem_singleton.mp hk) fun _ _ => moves_toEntity
      exact hupdate.locks (by simp [Key.rank]) (by simp [Key.rank])
    · exact moves_raise (by decide)

theorem moves_bookTransfer {transfer : TransactionData} {key : String} {n : Nat}
    (hkey : transfer.idempotencyKey = some key) (hrank : (Key.idempotency key).rank = n) :
    Moves (bookTransfer order transfer .trx) (Below n) (Below (n + 1)) := by
  apply moves_do (moves_still (calls_sql (by rfl) fun _ _ => trivial))
  intro existing
  cases existing with
  | none =>
    refine moves_do (R := Below (n + 1)) ?_ fun _ => moves_pure
    exact (moves_createTransaction hkey).locks (Nat.le_of_eq hrank.symm)
      (Nat.lt_succ_of_le (Nat.le_of_eq hrank))
  | some t => exact moves_raise (Nat.le_succ n)

theorem moves_creditRestaurant {net : Int} :
    Moves (creditRestaurant order net .trx) (Below 8) (Below 9) := by
  have hlock : Moves (creditRestaurant order net .trx)
      (UpTo (.balance order.restaurantId order.currency))
      (UpTo (.balance order.restaurantId order.currency)) := by
    apply moves_do (moves_locking (q := .lockBalance order.restaurantId order.currency)
      fun _ hk => List.mem_singleton.mp hk)
    intro _
    exact moves_locking (q := .upsertBalance order.restaurantId order.region order.currency net)
      fun _ hk => List.mem_singleton.mp hk
  exact hlock.locks (by simp [Key.rank]) (by simp [Key.rank])

theorem moves_recordEarning {amount : Int} :
    Moves (recordEarning order agentId amount .trx) (Below 9) (Below 10) := by
  refine moves_do (R := Below 10) ?_ fun _ => moves_pure
  have hinsert : Moves
      (insertEarning ⟨order.region, agentId, order.id, amount, order.currency⟩ .trx)
      (UpTo (.earning order.id)) (UpTo (.earning order.id)) := by
    apply moves_do (moves_locking
      (q := .insertEarning ⟨order.region, agentId, order.id, amount, order.currency⟩)
      fun _ hk => List.mem_singleton.mp hk)
    intro row
    cases row with
    | some e => exact moves_pure
    | none =>
      apply moves_do (moves_still (calls_sql (by rfl) fun _ _ => trivial))
      intro existing
      cases existing with
      | none => exact moves_throw
      | some e => exact moves_pure
  exact hinsert.locks (by simp [Key.rank]) (by simp [Key.rank])

theorem moves_settleDeliveredOrder (cfg : Config) :
    Moves (settleDeliveredOrder cfg order agentId .trx) (Below 3) (Below 10) := by
  apply moves_do (moves_still (calls_fetchCommissionBps trivial (fun _ _ => trivial) trivial))
  intro commissionBps
  apply moves_do (moves_onlyIf moves_collectCod (by decide))
  intro _
  apply moves_do (moves_onlyIf (moves_bookTransfer rfl (rank_commission _)) (by decide))
  intro _
  apply moves_do (moves_onlyIf (moves_bookTransfer rfl (rank_serviceFee _)) (by decide))
  intro _
  apply moves_do (moves_onlyIf (moves_bookTransfer rfl (rank_deliveryFee _)) (by decide))
  intro _
  apply moves_do (moves_onlyIf moves_creditRestaurant (by decide))
  intro _
  apply moves_do (moves_onlyIf moves_recordEarning (by decide))
  intro _
  exact moves_do moves_now fun _ => moves_do moves_outbox fun _ => moves_pure

end Settlement

section Bodies
variable {publicId region : String} {agentId : Nat}

theorem moves_read {q : Sql} {M : Option (List Key) → Prop} (hq : q.keys = []) :
    Moves (sql .trx q) M M :=
  moves_still (calls_sql hq fun _ _ => trivial)

theorem moves_insertOrder (data : OrderData) (lines : Nat → List OrderItemData) :
    Moves (insertOrder data lines) (Below 0) (· = none) := by
  have hcreate : Moves (createOrder data .trx) (UpTo (.order data.publicId))
      (UpTo (.order data.publicId)) :=
    moves_do moves_now fun t => moves_locking (q := .createOrder data t)
      fun _ hk => List.mem_singleton.mp hk
  apply moves_do (hcreate.locks (Nat.zero_le _) (Nat.lt_succ_self _))
  intro order
  have hitems : Moves (bulkInsertItems (lines order.id) .trx) (Below 3) (Below 3) :=
    moves_do moves_now fun _ => moves_read rfl
  apply moves_do hitems
  intro items
  apply moves_do (moves_onlyIf moves_outbox (Nat.le_refl _))
  intro _
  exact moves_do moves_commit fun _ => moves_pure

theorem moves_writeStatus (dto : UpdateOrderStatusRequest) (order : OrderEntity)
    (stamp : Option Stamp) (ctx : AssertTransitionContext) :
    Moves (writeStatus dto order stamp ctx) (Below 0) (· = none) := by
  have hupdate : Moves (updateOrderStatus order.publicId dto.status .pool stamp) (Below 0)
      (Below 0) :=
    moves_do moves_now fun _ => moves_do moves_pool fun _ => moves_toEntity
  apply moves_do hupdate
  intro updated
  have hemit : Moves (emitTransition updated ctx) (Below 0) (Below 0) := by
    unfold emitTransition
    split
    · exact moves_pure
    · exact moves_pool
  exact moves_do hemit fun _ => moves_do moves_commit fun _ => moves_pure

theorem moves_recordCharge (ctx : WebhookContext) (order : OrderEntity)
    (session : PaymentSessionEntity) (status : TransactionStatus) (dstAccId : Nat) :
    Moves (recordCharge ctx order session status dstAccId) (Below 1) (Below 2) := by
  apply moves_do (moves_read rfl)
  intro existingTx
  cases existingTx with
  | some t => exact moves_raise (by decide)
  | none =>
    have hrank := rank_charge ctx.transactionId
    refine moves_do (R := Below 2) ?_ fun _ => moves_pure
    exact (moves_createTransaction rfl).locks (by rw [hrank]) (by rw [hrank]; decide)

theorem moves_updateSession (id : Nat) (status : PaymentSessionStatus) :
    Moves (updatePaymentSessionStatus id status .trx) (Below 0) (Below 1) := by
  have hupdate : Moves (updatePaymentSessionStatus id status .trx) (UpTo (.session id))
      (UpTo (.session id)) :=
    moves_entity (q := fun t => .updatePaymentSessionStatus id status t)
      (fun _ _ hk => List.mem_singleton.mp hk) fun _ _ => moves_toEntity
  exact hupdate.locks (Nat.zero_le _) (by simp [Key.rank])

theorem moves_placePaidOrder (order : OrderEntity) :
    Moves (placePaidOrder order) (Below 2) (Below 3) := by
  unfold placePaidOrder
  split_ifs
  · apply moves_do (moves_updateOrderStatus.locks (by simp [Key.rank]) (Nat.lt_succ_self _))
    intro placed
    have hitems : Moves (findItemsByOrderIds [placed.id] .trx) (Below 3) (Below 3) := moves_read rfl
    exact moves_do hitems fun _ => moves_do moves_outbox fun _ => moves_pure
  · exact moves_raise (by decide)

theorem moves_applyEvent (event : Json) (ctx : WebhookContext) (order : OrderEntity)
    (session : PaymentSessionEntity) :
    Moves (applyEvent event ctx order session) (Below 0) (Below 3) := by
  unfold applyEvent
  split_ifs
  · apply moves_do (moves_updateSession _ _)
    intro _
    apply moves_do (moves_still (calls_fetchRestaurantOwner trivial))
    intro owner
    apply moves_do (moves_recordCharge _ _ _ _ _)
    intro _
    exact moves_do moves_now fun _ => moves_do moves_outbox fun _ => moves_placePaidOrder order
  · apply moves_do (moves_updateSession _ _)
    intro _
    apply moves_do (moves_recordCharge _ _ _ _ _)
    intro _
    exact moves_do moves_now fun _ => moves_do moves_outbox fun _ => moves_raise (by decide)
  · exact moves_raise (by decide)

theorem moves_processWebhook (event : Json) (ctx : WebhookContext) (insertedId : Nat) :
    Moves (processWebhook event ctx insertedId) (Below 0) (· = none) := by
  have hfind : Moves (findReferencedOrder (orderReference ctx.data) .trx) (Below 0) (Below 0) := by
    unfold findReferencedOrder
    split
    · exact moves_read rfl
    · exact moves_pure
    · exact moves_throw
  apply moves_do hfind
  intro found
  cases found with
  | none => exact moves_throw
  | some order =>
    apply moves_do (moves_read rfl)
    intro session
    cases session with
    | none => exact moves_throw
    | some session =>
      apply moves_do (moves_applyEvent _ _ _ _)
      intro broadcast
      have hmark : ∀ processedAt, Moves
          (updateWebhookEventStatus insertedId (some processedAt) none .trx) (Below 3)
          (Below 11) := by
        intro processedAt
        have hlock : Moves (updateWebhookEventStatus insertedId (some processedAt) none .trx)
            (UpTo (.webhookRow insertedId)) (UpTo (.webhookRow insertedId)) :=
          moves_locking fun _ hk => List.mem_singleton.mp hk
        exact hlock.locks (by simp [Key.rank]) (by simp [Key.rank])
      apply moves_do moves_now
      intro processedAt
      apply moves_do (hmark processedAt)
      intro _
      apply moves_do moves_commit
      intro _
      exact moves_outer calls_announcePlaced

theorem moves_deliverBody (cfg : Config) (order : OrderEntity) :
    Moves (deliverBody cfg order agentId region) (Below 0) (· = none) := by
  apply moves_do (moves_updateOrderStatus.locks (Nat.zero_le _) (Nat.lt_succ_self _))
  intro updated
  apply moves_do (moves_settleDeliveredOrder cfg)
  intro _
  apply moves_do moves_commit
  intro _
  exact moves_outer calls_afterDelivery

theorem moves_takeOrder : Moves (takeOrder publicId agentId) (Below 0) (· = none) := by
  have hclaim : Moves (claimReadyOrderForAgent publicId agentId .trx) (UpTo (.order publicId))
      (UpTo (.order publicId)) :=
    moves_do moves_now fun t => moves_locking (q := .claimReadyOrderForAgent publicId agentId t)
      fun _ hk => List.mem_singleton.mp hk
  apply moves_do (hclaim.locks (Nat.zero_le _) (Nat.lt_succ_self _))
  intro claimed
  cases claimed with
  | none =>
    have hrelease : (releaseClaim publicId).Calls Op.still (fun _ _ => True) fun _ => True :=
      Prog.calls_do (calls_any (by trivial)) fun _ _ => trivial
    exact moves_do (moves_still hrelease) fun _ => moves_throw
  | some updated => exact moves_do moves_commit fun _ => moves_pure

theorem moves_recordPayoutBody {input : PayoutInput} (hforeign : input.Foreign)
    (ownerUserId : Nat) :
    Moves (recordPayoutBody input ownerUserId) (Below 0) (· = none) := by
  apply moves_do (moves_read rfl)
  intro existing
  cases existing with
  | some row => exact moves_do moves_commit fun _ => moves_pure
  | none =>
    have hbalance : ∀ {q : Sql}, q.keys = [.balance input.restaurantId input.currency] →
        Moves (sql .trx q) (UpTo (.balance input.restaurantId input.currency))
          (UpTo (.balance input.restaurantId input.currency)) := by
      intro q hq
      exact moves_locking fun _ hk => List.mem_singleton.mp (hq ▸ hk)
    have hrank := rank_foreign hforeign
    apply Moves.weaken (M := UpTo (.balance input.restaurantId input.currency)) _
      (fun _ h => (h.mono (Nat.zero_le _)).upTo) fun _ h => h
    apply moves_do (hbalance rfl)
    intro balance
    cases balance with
    | none => exact moves_throw
    | some b =>
      dsimp only
      split_ifs
      · exact moves_throw
      · apply moves_do (hbalance rfl)
        intro _
        have hcreate : Moves (createTransaction (payoutTransaction input ownerUserId) .trx)
            (Below 9) (Below 12) :=
          (moves_createTransaction rfl).locks (by rw [hrank]; decide) (by rw [hrank]; decide)
        apply moves_do (hcreate.weaken (fun _ h => h.below (by simp [Key.rank])) fun _ h => h)
        intro payout
        exact moves_do moves_commit fun _ => moves_pure

theorem moves_refundBody (cfg : Config) (transactionId : Nat) (amount : Int) :
    Moves (refundBody cfg transactionId amount region) (Below 0) (· = none) := by
  apply moves_do (moves_read rfl)
  intro found
  cases found with
  | none => exact moves_throw
  | some tx =>
    apply moves_do moves_ofExcept
    intro _
    apply moves_do (moves_still (calls_lookUpOrder fun _ => rfl))
    intro _
    apply moves_do (moves_still (calls_kashierRefund trivial trivial))
    intro refundRes
    split_ifs
    · exact moves_throw
    · have hmark : Moves (markTransactionAsRefunded tx.id .trx) (UpTo (.transaction tx.id))
          (UpTo (.transaction tx.id)) :=
        moves_do moves_now fun t => moves_locking (q := .markTransactionAsRefunded tx.id t)
          fun _ hk => List.mem_singleton.mp hk
      apply moves_do (hmark.locks (Nat.zero_le _) (Nat.lt_succ_self _))
      intro _
      have hrow : (createTransaction (refundData region tx refundRes amount) .trx).Calls Op.still
          (fun _ _ => True) fun _ => True :=
        calls_createTransaction (by trivial) fun t => by rfl
      apply moves_do (moves_still hrow)
      intro refundTx
      exact moves_do moves_commit fun _ => moves_pure

end Bodies

section Closing
variable {cfg : Config} {region publicId : String} {agentId : Nat}

theorem closes_assertTransition (current next : OrderStatus) (ctx : AssertTransitionContext) :
    ClosesFrom none (assertTransition current next ctx) := by
  unfold assertTransition
  split
  · exact closes_throw
  split_ifs
  · exact closes_throw
  · split
    · exact closes_throw
    · exact closes_pure
    · apply closes_do (closes_perform (by simp))
      intro dateNow
      split_ifs
      · exact closes_throw
      · exact closes_pure
  · exact closes_pure
  · exact closes_throw

theorem closes_updateStatus (actor : ActorContext) (dto : UpdateOrderStatusRequest)
    (region orderId : String) :
    ClosesFrom none (OrderService.updateStatus actor dto region orderId) := by
  apply closes_do (closes_perform (by simp))
  intro found
  cases found with
  | none => exact rfl
  | some order =>
    apply closes_do closes_ofExcept
    intro statusActor
    apply closes_do (closes_assertTransition _ _ _)
    intro stamp
    apply closes_start
    apply closes_do (closes_rethrow (moves_writeStatus dto order stamp _))
    intro updated
    apply closes_do (closes_perform (by simp))
    intro _
    apply closes_do (closes_perform (by simp))
    intro _
    exact closes_do (closes_perform (by simp)) fun _ => closes_pure

theorem closes_placeOrder (actor : ActorContext) (region : Option String)
    (dto : CreateOrderRequest) :
    ClosesFrom none (OrderService.placeOrder cfg actor region dto) := by
  apply closes_do (closes_perform (by simp))
  intro branch
  split_ifs
  · exact rfl
  apply closes_do (closes_perform (by simp))
  intro flag
  split_ifs
  · exact rfl
  apply closes_do closes_ofExcept
  intro resolvedRegion
  split_ifs
  · exact rfl
  apply closes_do (closes_perform (by simp))
  intro address
  split_ifs
  · exact rfl
  apply closes_do (closes_perform (by simp))
  intro products
  split_ifs
  · exact rfl
  · apply closes_do (closes_perform (by simp))
    intro publicId
    apply closes_do (closes_perform (by simp))
    intro _
    apply closes_start
    have hundo : ∀ err : Err, (do
        undoStock dto.branchId (dto.items.map fun i => ⟨i.productId, i.quantity⟩)
        throw err : Svc (OrderEntity × List OrderItemEntity)).Calls (· ≠ .start)
        (fun _ _ => True) fun _ => True := by
      intro err
      have hstock : (undoStock dto.branchId
          (dto.items.map fun i => ⟨i.productId, i.quantity⟩)).Calls (· ≠ .start)
          (fun _ _ => True) fun _ => True :=
        Prog.calls_catch (calls_any (o := .undoReserveStock _ _ none) (by simp)) fun _ => trivial
      exact Prog.calls_do hstock fun _ _ => trivial
    apply closes_do (closes_try (moves_insertOrder _ _) hundo)
    intro placed
    apply closes_unstarted
    refine (calls_afterPlacement (H := fun _ => True) fun _ => trivial).weaken fun o ho heq => ?_
    subst heq
    exact ho
  · exact rfl

theorem closes_webhook (hmacSha256 : String → String → String) (rawBody : Option Json)
    (signature region : String) :
    ClosesFrom none (verifyAndProcessWebhook hmacSha256 cfg rawBody signature region) := by
  unfold verifyAndProcessWebhook
  split
  · exact rfl
  split_ifs
  · exact rfl
  · exact rfl
  apply closes_do (closes_perform (by simp))
  intro kashierProvider
  split
  · exact rfl
  split_ifs
  · exact rfl
  apply closes_do closes_ofExcept
  intro isValid
  split_ifs
  · exact rfl
  apply closes_do closes_ofExcept
  intro transactionId
  unfold receiveWebhook
  have hinsert : ∀ data, ClosesFrom none (insertWebhookEvent data .pool) := fun _ =>
    closes_do (closes_perform (by simp)) fun _ => closes_perform (by simp)
  apply closes_do (hinsert _)
  intro inserted
  cases inserted with
  | none => exact rfl
  | some insertedEvent =>
    apply closes_start
    refine closes_try (moves_processWebhook _ _ _) fun error => ?_
    have hmark : ∀ processedAt,
        (updateWebhookEventStatus insertedEvent.id processedAt (some error.message) .pool).Calls
          (· ≠ .start) (fun _ _ => True) fun _ => True := fun _ =>
      calls_any (o := .sql .pool (.updateWebhookEventStatus _ _ _)) (by simp)
    apply Prog.calls_do (calls_any (o := .now) (by simp))
    intro processedAt _
    exact Prog.calls_do (hmark _) fun _ _ => trivial

theorem closes_agentUpdateStatus (publicId : String) (agentId : Nat) (region : String)
    (action : DeliveryAction) :
    ClosesFrom none (OrderService.agentUpdateStatus cfg publicId agentId region action) := by
  apply closes_do (closes_perform (by simp))
  intro found
  cases found with
  | none => exact rfl
  | some order =>
    dsimp only
    split_ifs
    · exact rfl
    cases action with
    | picked =>
      dsimp only
      unfold pickup
      split_ifs
      · exact rfl
      have hupdate : (updateOrderStatus order.publicId .picked .pool (some .pickedAt)).Calls
          (· ≠ .start) (fun _ _ => True) fun _ => True := by
        apply Prog.calls_do (calls_any (by simp))
        intro t _
        apply Prog.calls_do (calls_any (by simp))
        exact fun row _ => calls_toEntity fun _ _ => trivial
      apply closes_do (closes_unstarted hupdate)
      intro updated
      apply closes_do (closes_do (closes_perform (by simp)) fun _ => closes_perform (by simp))
      exact fun _ => rfl
    | delivered =>
      dsimp only
      unfold deliver
      split_ifs
      · exact rfl
      exact closes_start (closes_rethrow (moves_deliverBody cfg order))
    | _ => exact rfl

theorem closes_releasing {body : Svc OrderEntity} (hbody : Moves body (Below 0) (· = none))
    (losers : List Nat) : ClosesFrom (some []) (do
      let updated ← releasingOnError publicId body
      afterAssignment publicId updated agentId region losers) := by
  refine closes_do (closes_try hbody fun err => ?_) fun updated =>
    closes_unstarted (unstarted_of_outer calls_afterAssignment)
  apply unstarted_of_outer
  exact Prog.calls_do calls_releaseClaim fun _ _ => trivial

theorem closes_claim (publicId : String) (agentId : Nat) (region : String) :
    ClosesFrom none (OrderService.claim cfg publicId agentId region) := by
  apply closes_do (closes_perform (by simp))
  intro offered
  cases offered with
  | none => exact rfl
  | some value =>
    dsimp only
    split_ifs
    case neg => exact rfl
    apply closes_do (closes_perform (by simp))
    intro ok
    split_ifs
    · exact rfl
    apply closes_start
    apply closes_releasing
    apply moves_do (moves_read rfl)
    intro order
    cases order with
    | none =>
      have hrelease : (releaseClaim publicId).Calls Op.still (fun _ _ => True) fun _ => True :=
        Prog.calls_do (calls_any (by trivial)) fun _ _ => trivial
      exact moves_do (moves_still hrelease) fun _ => moves_throw
    | some o => exact moves_takeOrder

theorem closes_adminAssign (publicId : String) (agentId : Nat) (region : String) :
    ClosesFrom none (OrderService.adminAssign cfg publicId agentId region) := by
  apply closes_do (closes_perform (by simp))
  intro ok
  split_ifs
  · exact rfl
  · exact closes_start (closes_releasing moves_takeOrder [])

theorem closes_recordPayout {input : PayoutInput} (hforeign : input.Foreign) :
    ClosesFrom none (OrderService.recordPayout input) := by
  have howner : ClosesFrom none (findRestaurantOwnerId input.restaurantId input.region .pool) :=
    closes_do (closes_perform (by simp)) fun _ => closes_pure
  apply closes_do howner
  intro owner
  cases owner with
  | none => exact rfl
  | some ownerUserId =>
    exact closes_start (closes_rethrow (moves_recordPayoutBody hforeign ownerUserId))

theorem closes_refundPayment (transactionId : Nat) (amount : Int) (region : String) :
    ClosesFrom none (OrderService.refundPayment cfg transactionId amount region) :=
  closes_start (closes_rethrow (moves_refundBody cfg transactionId amount))

theorem closes_freeCandidates (raw result : List Nat) :
    ClosesFrom none (freeCandidates cfg region raw result) := by
  induction raw generalizing result with
  | nil => exact rfl
  | cons agent raw ih =>
    apply closes_do (closes_perform (by simp))
    intro online
    split
    · exact ih result
    · apply closes_do (closes_perform (by simp))
      intro busy
      split_ifs
      · exact ih result
      · exact rfl
      · exact ih _

theorem closes_countAttempt (ttlSeconds : Nat) :
    ClosesFrom none (countAttempt publicId ttlSeconds) :=
  closes_do (closes_perform (by simp)) fun _ => closes_perform (by simp)

theorem closes_branchOrNull (branchId : Nat) : ClosesFrom none (branchOrNull branchId) :=
  closes_catch (closes_do (closes_perform (by simp)) fun _ => closes_pure) fun _ => closes_pure

theorem closes_forM {α : Type} {f : α → Svc Unit} (hf : ∀ a, ClosesFrom none (f a)) (l : List α) :
    ClosesFrom none (l.forM f) := by
  induction l with
  | nil => exact closes_pure
  | cons a l ih => exact closes_do (hf a) fun _ => ih

theorem closes_offerTo (order : OrderEntity) (candidates : List Nat) :
    ClosesFrom none (offerTo cfg order candidates) := by
  apply closes_do (closes_perform (by simp))
  intro offerSet
  split_ifs
  · exact rfl
  apply closes_do (closes_countAttempt _)
  intro _
  apply closes_do (closes_branchOrNull _)
  intro _
  exact closes_do (closes_forM (fun _ => closes_perform (by simp)) _) fun _ => closes_pure

theorem closes_tryAssign (order : OrderEntity) : ClosesFrom none (tryAssign cfg order region) := by
  apply closes_do (closes_perform (by simp))
  intro offered
  split_ifs
  · exact rfl
  apply closes_do (closes_perform (by simp))
  intro attemptsRaw
  split_ifs
  · exact closes_do (closes_perform (by simp)) fun _ => rfl
  have hcandidates : ClosesFrom none (findCandidates cfg region order.branchLng order.branchLat) :=
    closes_do (closes_perform (by simp)) fun raw => closes_freeCandidates raw []
  apply closes_do hcandidates
  intro candidates
  split_ifs
  · exact closes_do (closes_countAttempt _) fun _ => rfl
  · exact closes_offerTo order candidates

theorem closes_tryOrders (orders : List OrderEntity) (tally : TickResult) :
    ClosesFrom none (tryOrders cfg region orders tally) := by
  induction orders generalizing tally with
  | nil => exact rfl
  | cons order orders ih =>
    apply closes_do (closes_catch (closes_do (closes_tryAssign order) fun _ => closes_pure)
      fun _ => closes_pure)
    intro result
    split_ifs
    · exact ih _
    · exact ih _

theorem closes_tickRegion : ClosesFrom none (tickRegion cfg region) :=
  closes_do (closes_perform (by simp)) fun _ => closes_tryOrders _ _

theorem closes_rejectOffer : ClosesFrom none (OrderService.rejectOffer publicId agentId) := by
  apply closes_do (closes_perform (by simp))
  intro offered
  cases offered with
  | none => exact rfl
  | some value =>
    dsimp only
    split_ifs
    · exact closes_do (closes_perform (by simp)) fun _ => rfl
    · exact closes_do (closes_perform (by simp)) fun _ => closes_perform (by simp)
    · exact rfl

theorem closes_updatePosition : ClosesFrom none (OrderService.updatePosition publicId agentId) := by
  apply closes_do (closes_perform (by simp))
  intro found
  cases found with
  | none => exact rfl
  | some order =>
    dsimp only
    split_ifs
    · exact rfl
    · exact closes_perform (by simp)

/-- The key of a payout is none of those that the service makes itself. -/
def Work.Foreign : Work → Prop
  | .call (.recordPayout input) => input.Foreign
  | _ => True

theorem closes_call (hmacSha256 : String → String → String) (c : Call) (h : (Work.call c).Foreign) :
    ClosesFrom none (c.prog hmacSha256 cfg) := by
  cases c with
  | placeOrder actor region dto => exact closes_do (closes_placeOrder _ _ _) fun _ => closes_pure
  | webhook rawBody signature region =>
    exact closes_do (closes_webhook _ _ _ _) fun _ => closes_pure
  | updateStatus actor dto region orderId =>
    exact closes_do (closes_updateStatus _ _ _ _) fun _ => closes_pure
  | claim publicId agentId region => exact closes_do (closes_claim _ _ _) fun _ => closes_pure
  | adminAssign publicId agentId region =>
    exact closes_do (closes_adminAssign _ _ _) fun _ => closes_pure
  | agentUpdateStatus publicId agentId region action =>
    exact closes_do (closes_agentUpdateStatus _ _ _ _) fun _ => closes_pure
  | recordPayout input => exact closes_do (closes_recordPayout h) fun _ => closes_pure
  | refundPayment input => exact closes_do (closes_refundPayment _ _ _) fun _ => closes_pure

theorem closes_work (hmacSha256 : String → String → String) (x : Work) (h : x.Foreign) :
    ClosesFrom none (x.prog hmacSha256 cfg) := by
  cases x with
  | call c => exact closes_do (closes_call hmacSha256 c h) fun _ => closes_pure
  | updatePosition publicId agentId => exact closes_updatePosition
  | tickRegion region => exact closes_do closes_tickRegion fun _ => closes_pure
  | rejectOffer publicId agentId => exact closes_rejectOffer

end Closing

end OrderService
