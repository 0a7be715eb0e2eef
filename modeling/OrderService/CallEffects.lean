import OrderService.Calls
import OrderService.WebhookEffects

/-! What each call of the service can write, whatever it is told and whenever it fails. -/
namespace OrderService
open ReadCommitted Interleaving

/-- The writes that a call can come to. -/
def Call.MayWrite : Call → Write → Prop
  | .placeOrder .., x => match x with
    | .insertOrder row => row.status = .placed ∨ row.status = .pendingPayment
    | .insertOrderItem _ => True
    | .insertOutbox row => row.eventType = .orderPlaced
    | .insertSession _ => True
    | .setOrderStatus _ status _ _ => status = .cancelled
    | _ => False
  | .webhook .., x => match x with
    | .insertWebhookEvent _ => True
    | .setWebhookEvent .. => True
    | .setSessionStatus .. => True
    | .insertTransaction row => row.transactionType = .charge
    | .insertOutbox row => row.eventType = .paymentCompleted ∨ row.eventType = .paymentFailed ∨
        row.eventType = .orderPlaced
    | .setOrderStatus _ status stamp _ => status = .placed ∧ stamp = none
    | _ => False
  | .updateStatus _ dto _ _, x => match x with
    | .setOrderStatus _ status _ _ => status = dto.status
    | .insertOutbox row => row.eventType = .orderAccepted ∨ row.eventType = .orderRejected ∨
        row.eventType = .orderCancelled
    | _ => False
  | .claim publicId agentId _, x => ∃ now, x = .assignOrder publicId agentId now
  | .adminAssign publicId agentId _, x => ∃ now, x = .assignOrder publicId agentId now
  | .agentUpdateStatus _ agentId _ action, x =>
    match action with
    | .picked => ∃ publicId stamp now, x = .setOrderStatus publicId .picked stamp now
    | .delivered => (∃ publicId stamp now, x = .setOrderStatus publicId .delivered stamp now) ∨
        ∃ order, SettlementWrite order agentId (fun _ => True) x
    | _ => False
  | .recordPayout input, x => match x with
    | .insertTransaction row => row.transactionType = .payout ∧ row.amount = input.amount
    | .addBalance .. => True
    | _ => False
  | .refundPayment input, x => match x with
    | .markRefunded .. => True
    | .insertTransaction row => row.transactionType = .refund ∧ row.amount = input.amount ∧
        row.idempotencyKey = none
    | _ => False

/-- Every statement of the program writes within `H`. -/
abbrev Within (H : Write → Prop) {α : Type} (prog : Svc α) : Prop :=
  prog.Calls (Op.Harmless H) (fun _ _ => True) fun _ => True

section Rules
variable {H : Write → Prop} {α β : Type}

theorem within_do {prog : Svc α} {f : α → Svc β} (hp : Within H prog) (hf : ∀ a, Within H (f a)) :
    Within H (prog >>= f) := Prog.calls_do hp fun a _ => hf a

theorem within_catch {prog : Svc α} {handler : Err → Svc α} (hp : Within H prog)
    (hh : ∀ e, Within H (handler e)) : Within H (tryCatch prog handler) := Prog.calls_catch hp hh

theorem within_sql {c : Conn} {q : Sql} (hq : ∀ x, q.MayWrite x → H x) : Within H (sql c q) :=
  calls_sql hq fun _ _ => trivial

/-- A statement that only reads. -/
theorem within_read {c : Conn} {q : Sql} (hq : ∀ x, ¬q.MayWrite x) : Within H (sql c q) :=
  within_sql fun x hx => absurd hx (hq x)

theorem within_any {o : Op} (ho : o.Harmless H) : Within H (Prog.perform o) := calls_any ho

theorem within_now : Within H now := calls_now trivial fun _ => trivial

theorem within_toEntity {row : Option α} : Within H (toEntity row) := calls_toEntity fun _ _ => trivial

theorem within_ofExcept {a : Except Err α} : Within H (.ofExcept a : Svc α) :=
  Prog.calls_ofExcept fun _ _ => trivial

theorem within_updateOrderStatus {publicId : String} {status : OrderStatus} {c : Conn}
    {stamp : Option Stamp} (h : ∀ now, H (.setOrderStatus publicId status stamp now)) :
    Within H (updateOrderStatus publicId status c stamp) := by
  refine within_do within_now fun now => within_do (within_sql ?_) fun _ => within_toEntity
  rintro x rfl
  exact h now

theorem within_createTransaction {data : TransactionData} {c : Conn}
    (h : ∀ id now, H (.insertTransaction (data.toEntity id now))) :
    Within H (createTransaction data c) := by
  refine calls_createTransaction trivial fun now => ?_
  rintro x ⟨id, rfl⟩
  exact h id now

theorem within_insertOutboxEvent {input : OutboxInput} {c : Conn}
    (h : ∀ id clock, H (.insertOutbox { input with id := id, createdAt := clock })) :
    Within H (insertOutboxEvent c input) := by
  apply within_sql
  rintro x ⟨id, clock, rfl⟩
  exact h id clock

theorem within_outside {prog : Svc α}
    (h : prog.Calls (fun o => o.outer = true) (fun _ _ => True) fun _ => True) : Within H prog := by
  apply h.weaken
  intro o ho
  cases o with
  | sql c q => cases ho
  | _ => trivial

end Rules

section Place
variable (cfg : Config) {H : Write → Prop}

/-- What an order placement writes. -/
structure Places (H : Write → Prop) : Prop where
  order : ∀ row, row.status = .placed ∨ row.status = .pendingPayment → H (.insertOrder row)
  item : ∀ row, H (.insertOrderItem row)
  event : ∀ row, row.eventType = .orderPlaced → H (.insertOutbox row)
  session : ∀ row, H (.insertSession row)
  cancelled : ∀ publicId stamp now, H (.setOrderStatus publicId .cancelled stamp now)

theorem within_undoStock {branchId : Nat} {items : List ReserveStockItem} :
    Within H (undoStock branchId items) :=
  within_catch (within_any trivial) fun _ => trivial

theorem within_insertOrder {data : OrderData} {lines : Nat → List OrderItemData}
    (horder : ∀ id ownerId now, H (.insertOrder (data.toEntity id ownerId now)))
    (hitem : ∀ row, H (.insertOrderItem row))
    (hevent : ∀ row, row.eventType = .orderPlaced → H (.insertOutbox row)) :
    Within H (insertOrder data lines) := by
  refine within_do (within_do within_now fun now => within_sql ?_) fun order => ?_
  · rintro x ⟨id, ownerId, _, rfl⟩
    exact horder id ownerId now
  refine within_do (within_do within_now fun now => within_sql ?_) fun items => ?_
  · rintro x ⟨row, rfl⟩
    exact hitem row
  refine within_do (calls_onlyIf (within_insertOutboxEvent fun id clock => hevent _ rfl)) ?_
  exact fun _ => within_do (within_any trivial) fun _ => trivial

theorem within_openPayment {order : OrderEntity} {branchId : Nat} {stock : List ReserveStockItem}
    (hsession : ∀ row, H (.insertSession row))
    (hcancelled : ∀ publicId stamp now, H (.setOrderStatus publicId .cancelled stamp now)) :
    Within H (openPayment cfg order branchId stock) := by
  refine within_catch (within_do (within_do (within_read fun x hx => hx) fun existing => ?_)
    fun _ => trivial) fun err => ?_
  · cases existing with
    | some session => trivial
    | none =>
      refine within_do (within_any trivial) fun result => within_do ?_ fun _ => trivial
      refine within_do within_now fun now => within_sql ?_
      rintro x ⟨id, rfl⟩
      exact hsession _
  · refine within_do (within_updateOrderStatus fun now => hcancelled _ _ now) fun _ => ?_
    exact within_do within_undoStock fun _ => trivial

/-- A new order is placed, or waits for its payment. -/
theorem placedOrderData_status (actor : ActorContext) (region : String) (branch : Branch)
    (address : CoreCustomerAddress) (dto : CreateOrderRequest) (publicId : String)
    (subtotal : Int) :
    (placedOrderData actor region branch address dto publicId subtotal).status = .placed ∨
      (placedOrderData actor region branch address dto publicId subtotal).status
        = .pendingPayment := by
  unfold placedOrderData
  by_cases hcod : dto.paymentMethod = .cod
  · exact .inl (if_pos hcod)
  · exact .inr (if_neg hcod)

/-- A placement inserts the order of its request, and otherwise what comes with any order. -/
theorem within_submission {actor : ActorContext} {resolvedRegion : String} {branch : Branch}
    {address : CoreCustomerAddress} {products : List CoreBranchProduct} {dto : CreateOrderRequest}
    (horder : ∀ publicId subtotal id ownerId now, H (.insertOrder
      ((placedOrderData actor resolvedRegion branch address dto publicId subtotal).toEntity id
        ownerId now)))
    (hitem : ∀ row, H (.insertOrderItem row))
    (hevent : ∀ row, row.eventType = .orderPlaced → H (.insertOutbox row))
    (hsession : ∀ row, H (.insertSession row))
    (hcancelled : ∀ publicId stamp now, H (.setOrderStatus publicId .cancelled stamp now)) :
    Within H (submitOrder cfg actor resolvedRegion branch address products dto) := by
  refine within_do (within_any trivial) fun publicId => ?_
  refine within_do (within_any trivial) fun _ => within_do (within_any trivial) fun _ => ?_
  refine within_do (within_catch (within_insertOrder (horder publicId _) hitem hevent)
    fun err => ?_) fun placed => ?_
  · refine within_do (within_any trivial) fun _ => within_do within_undoStock fun _ => trivial
  refine within_do ?_ fun payment => ?_
  · unfold paymentData
    split_ifs
    · exact within_do (within_openPayment cfg hsession hcancelled) fun _ => trivial
    · trivial
  refine within_do (within_any trivial) fun _ => ?_
  exact within_do (calls_onlyIf (within_any trivial)) fun _ => trivial

variable (hH : Places H)
include hH

theorem within_submitOrder {actor : ActorContext} {resolvedRegion : String} {branch : Branch}
    {address : CoreCustomerAddress} {products : List CoreBranchProduct}
    {dto : CreateOrderRequest} :
    Within H (submitOrder cfg actor resolvedRegion branch address products dto) := by
  refine within_submission cfg (fun publicId subtotal id ownerId now => hH.order _ ?_) hH.item
    hH.event hH.session hH.cancelled
  exact placedOrderData_status actor resolvedRegion branch address dto publicId subtotal

theorem within_placeOrder {actor : ActorContext} {region : Option String}
    {dto : CreateOrderRequest} : Within H (placeOrder cfg actor region dto) := by
  refine within_do (within_any trivial) fun branch => ?_
  split_ifs
  · trivial
  refine within_do (within_any trivial) fun flag => ?_
  split_ifs
  · trivial
  refine within_do within_ofExcept fun resolvedRegion => ?_
  split_ifs
  · trivial
  refine within_do (within_any trivial) fun address => ?_
  split_ifs
  · trivial
  refine within_do (within_any trivial) fun products => ?_
  split_ifs
  · trivial
  · exact within_submitOrder cfg hH
  · trivial

end Place

section Webhook
variable {H : Write → Prop}

/-- What the processing of a webhook writes. -/
structure Processes (H : Write → Prop) : Prop where
  mark : ∀ id processedAt processError, H (.setWebhookEvent id processedAt processError)
  session : ∀ id status now, H (.setSessionStatus id status now)
  charge : ∀ row, row.transactionType = .charge → H (.insertTransaction row)
  event : ∀ row, row.eventType = .paymentCompleted ∨ row.eventType = .paymentFailed ∨
    row.eventType = .orderPlaced → H (.insertOutbox row)
  placed : ∀ publicId now, H (.setOrderStatus publicId .placed none now)

variable (hH : Processes H)
include hH

theorem within_updateSession {id : Nat} {status : PaymentSessionStatus} :
    Within H (updatePaymentSessionStatus id status .trx) := by
  refine calls_updateSession trivial fun now => ?_
  rintro x rfl
  exact hH.session id status now

theorem within_recordCharge {ctx : WebhookContext} {order : OrderEntity}
    {session : PaymentSessionEntity} {status : TransactionStatus} {dstAccId : Nat} :
    Within H (recordCharge ctx order session status dstAccId) := by
  refine calls_recordCharge trivial (fun x hx => absurd hx id) fun now => ?_
  rintro x ⟨id, rfl⟩
  exact hH.charge _ rfl

theorem within_updateWebhookEvent {id : Nat} {processedAt : Option Time}
    {processError : Option String} {c : Conn} :
    Within H (updateWebhookEventStatus id processedAt processError c) := by
  apply within_sql
  rintro x rfl
  exact hH.mark id processedAt processError

theorem within_applyEvent {event : Json} {ctx : WebhookContext} {order : OrderEntity}
    {session : PaymentSessionEntity} : Within H (applyEvent event ctx order session) := by
  unfold applyEvent
  split_ifs
  · refine within_do (within_updateSession hH) fun _ => ?_
    refine within_do (calls_fetchRestaurantOwner trivial) fun owner => ?_
    refine within_do (within_recordCharge hH) fun _ => within_do within_now fun completedAt => ?_
    refine within_do (within_insertOutboxEvent fun _ _ => hH.event _ (.inl rfl)) fun _ => ?_
    unfold placePaidOrder
    split_ifs
    · refine within_do (within_updateOrderStatus fun now => hH.placed _ now) fun placed => ?_
      refine within_do (within_read fun x hx => hx) fun items => ?_
      exact within_do (within_insertOutboxEvent fun _ _ => hH.event _ (.inr (.inr rfl)))
        fun _ => trivial
    · trivial
  · refine within_do (within_updateSession hH) fun _ => within_do (within_recordCharge hH) fun _ => ?_
    refine within_do within_now fun failedAt => ?_
    exact within_do (within_insertOutboxEvent fun _ _ => hH.event _ (.inr (.inl rfl)))
      fun _ => trivial
  · trivial

theorem within_processWebhook {event : Json} {ctx : WebhookContext} {insertedId : Nat} :
    Within H (processWebhook event ctx insertedId) := by
  refine within_do ?_ fun found => ?_
  · unfold findReferencedOrder
    split
    · exact within_read fun x hx => hx
    · trivial
    · trivial
  cases found with
  | none => trivial
  | some order =>
    refine within_do (within_read fun x hx => hx) fun session => ?_
    cases session with
    | none => trivial
    | some session =>
      refine within_do (within_applyEvent hH) fun broadcast => within_do within_now fun t => ?_
      refine within_do (within_updateWebhookEvent hH) fun _ => ?_
      exact within_do (within_any trivial) fun _ => within_outside calls_announcePlaced

/-- What follows the dedupe insert. -/
theorem within_processing {event : Json} {ctx : WebhookContext} {insertedId : Nat} :
    Within H (do
      startTransaction
      tryCatch (processWebhook event ctx insertedId) fun error => do
        rollback
        let processedAt ← now
        updateWebhookEventStatus insertedId (some processedAt) (some error.message) .pool
        throw error : Svc Unit) := by
  refine within_do (within_any trivial) fun _ => ?_
  refine within_catch (within_processWebhook hH) fun error => ?_
  refine within_do (within_any trivial) fun _ => within_do within_now fun t => ?_
  exact within_do (within_updateWebhookEvent hH) fun _ => trivial

theorem within_webhook (hdedupe : ∀ row, H (.insertWebhookEvent row)) {hmacSha256 : String → String → String} {cfg : Config}
    {rawBody : Option Json} {signature region : String} :
    Within H (verifyAndProcessWebhook hmacSha256 cfg rawBody signature region) := by
  unfold verifyAndProcessWebhook
  split
  · trivial
  split_ifs
  · trivial
  · trivial
  refine within_do (within_read fun x hx => hx) fun provider => ?_
  cases provider with
  | none => trivial
  | some provider =>
    dsimp only
    split_ifs
    · trivial
    refine within_do within_ofExcept fun isValid => ?_
    split_ifs
    · trivial
    refine within_do within_ofExcept fun transactionId => ?_
    refine within_do (within_do within_now fun now => within_sql ?_) fun inserted => ?_
    · rintro x ⟨id, rfl⟩
      exact hdedupe _
    cases inserted with
    | none => trivial
    | some insertedEvent => exact within_processing hH

end Webhook

section Handling
variable {H : Write → Prop}

/-- `OUTBOX_EVENT_FOR_STATUS` has three events. -/
theorem outboxEventForStatus_cases {status : OrderStatus} {eventType : EventType}
    (h : outboxEventForStatus status = some eventType) :
    eventType = .orderAccepted ∨ eventType = .orderRejected ∨ eventType = .orderCancelled := by
  cases status <;> simp [outboxEventForStatus] at h <;> simp [← h]

theorem within_updateStatus {actor : ActorContext} {dto : UpdateOrderStatusRequest}
    {region orderId : String}
    (hstatus : ∀ publicId order statusActor rule now,
      resolveStatusActor actor order = .ok statusActor →
      transitions order.status dto.status = some rule → statusActor ∈ rule.actors →
      H (.setOrderStatus publicId dto.status rule.stamp now))
    (hevent : ∀ row, row.eventType = .orderAccepted ∨ row.eventType = .orderRejected ∨
      row.eventType = .orderCancelled → H (.insertOutbox row)) :
    Within H (updateStatus actor dto region orderId) := by
  refine within_do (within_read fun x hx => hx) fun found => ?_
  cases found with
  | none => trivial
  | some order =>
    apply Prog.calls_do (Q := fun statusActor => resolveStatusActor actor order = .ok statusActor)
      (Prog.calls_ofExcept fun _ hactor => hactor)
    intro statusActor hactor
    dsimp only
    rw [assertTransition_eq]
    apply Prog.calls_do (Q := fun stamp => checkTransition order.status dto.status
      ⟨statusActor, dto.reason, some order.createdAt, order.acceptedAt⟩ = .ok stamp)
      (Prog.calls_ofExcept fun _ hcheck => hcheck)
    intro stamp hcheck
    obtain ⟨rule, hrule, hallowed, rfl⟩ := checkTransition_ok hcheck
    refine within_do (within_any trivial) fun _ => ?_
    refine within_do (within_catch ?_ fun err => within_do (within_any trivial) fun _ => trivial)
      fun updated => ?_
    · refine within_do (within_updateOrderStatus fun now =>
        hstatus _ order statusActor rule now hactor hrule hallowed) fun updated => ?_
      refine within_do ?_ fun _ => within_do (within_any trivial) fun _ => trivial
      unfold emitTransition
      split
      · trivial
      · next eventType htype =>
        exact within_insertOutboxEvent fun _ _ => hevent _ (outboxEventForStatus_cases htype)
    · refine within_do (within_any trivial) fun _ => within_do (within_any trivial) fun _ => ?_
      exact within_do (within_any trivial) fun _ => trivial

theorem within_takeOrder {publicId : String} {agentId : Nat}
    (h : ∀ now, H (.assignOrder publicId agentId now)) : Within H (takeOrder publicId agentId) := by
  refine within_do (within_do within_now fun now => within_sql ?_) fun claimed => ?_
  · rintro x rfl
    exact h now
  cases claimed with
  | none => exact within_do (within_do (within_any trivial) fun _ => trivial) fun _ => trivial
  | some updated => exact within_do (within_any trivial) fun _ => trivial

theorem within_releasingOnError {publicId : String} {body : Svc OrderEntity} (h : Within H body) :
    Within H (releasingOnError publicId body) := by
  refine within_catch h fun err => within_do (within_any trivial) fun _ => ?_
  exact within_do (within_do (within_any trivial) fun _ => trivial) fun _ => trivial

theorem within_afterAssignment {publicId region : String} {updated : OrderEntity} {agentId : Nat}
    {losers : List Nat} : Within H (afterAssignment publicId updated agentId region losers) := by
  refine within_do (within_any trivial) fun _ => within_do ?_ fun branch => ?_
  · exact within_catch (within_do (within_any trivial) fun _ => trivial) fun _ => trivial
  refine within_do (within_do (within_any trivial) fun _ => within_do ?_ fun _ => ?_) fun _ => ?_
  · induction losers with
    | nil => trivial
    | cons loser losers ih => exact within_do (within_any trivial) fun _ => ih
  · exact within_do (within_any trivial) fun _ => within_any trivial
  · exact within_do (within_any trivial) fun _ => trivial

theorem within_claim {cfg : Config} {publicId region : String} {agentId : Nat}
    (h : ∀ now, H (.assignOrder publicId agentId now)) :
    Within H (claim cfg publicId agentId region) := by
  refine within_do (within_any trivial) fun offered => ?_
  cases offered with
  | none => trivial
  | some value =>
    dsimp only
    split_ifs
    · refine within_do (within_any trivial) fun ok => ?_
      split_ifs
      · trivial
      refine within_do (within_any trivial) fun _ => ?_
      refine within_do (within_releasingOnError (within_do (within_read fun x hx => hx) ?_))
        fun updated => within_afterAssignment
      intro order
      cases order with
      | none => exact within_do (within_do (within_any trivial) fun _ => trivial) fun _ => trivial
      | some order => exact within_takeOrder h
    · trivial

theorem within_adminAssign {cfg : Config} {publicId region : String} {agentId : Nat}
    (h : ∀ now, H (.assignOrder publicId agentId now)) :
    Within H (adminAssign cfg publicId agentId region) := by
  refine within_do (within_any trivial) fun ok => ?_
  split_ifs
  · trivial
  refine within_do (within_any trivial) fun _ => ?_
  exact within_do (within_releasingOnError (within_takeOrder h)) fun _ => within_afterAssignment

theorem within_agentUpdateStatus {cfg : Config} {publicId region : String} {agentId : Nat}
    {action : DeliveryAction}
    (hpicked : action = .picked →
      ∀ publicId now, H (.setOrderStatus publicId .picked (some .pickedAt) now))
    (hdelivered : action = .delivered →
      ∀ publicId now, H (.setOrderStatus publicId .delivered (some .deliveredAt) now))
    (hsettle : action = .delivered →
      ∀ order x, SettlementWrite order agentId (fun _ => True) x → H x) :
    Within H (agentUpdateStatus cfg publicId agentId region action) := by
  refine within_do (within_read fun x hx => hx) fun found => ?_
  cases found with
  | none => trivial
  | some order =>
    dsimp only
    split_ifs
    · trivial
    cases action with
    | picked =>
      unfold pickup
      split_ifs
      · trivial
      refine within_do (within_updateOrderStatus fun now => hpicked rfl _ now) fun updated => ?_
      exact within_do (calls_emitDeliveryStatus fun _ => trivial) fun _ => trivial
    | delivered =>
      unfold deliver
      split_ifs
      · trivial
      refine within_do (within_any trivial) fun _ => within_catch ?_ fun err => ?_
      · refine within_do (within_updateOrderStatus fun now => hdelivered rfl _ now)
          fun updated => ?_
        refine within_do (calls_settleDeliveredOrder (fun _ => True)
          (fun q hq x hx => hsettle rfl updated x (hq x hx)) cfg trivial trivial
          (fun _ _ => trivial) trivial) fun _ => ?_
        refine within_do (within_any trivial) fun _ => within_do (within_any trivial) fun _ => ?_
        refine within_do (calls_emitDeliveryStatus fun _ => trivial) fun _ => ?_
        exact within_do (within_any trivial) fun _ => trivial
      · exact within_do (within_any trivial) fun _ => trivial
    | _ => trivial

theorem within_recordPayout {input : PayoutInput}
    (hrow : ∀ row, row.transactionType = .payout → row.amount = input.amount →
      row.orderId = none → H (.insertTransaction row))
    (hbalance : ∀ r region currency delta, H (.addBalance r region currency delta)) :
    Within H (recordPayout input) := by
  refine within_do (within_do (within_read fun x hx => hx) fun _ => trivial) fun owner => ?_
  cases owner with
  | none => trivial
  | some ownerUserId =>
    refine within_do (within_any trivial) fun _ => within_catch ?_ fun err => ?_
    · refine within_do (within_read fun x hx => hx) fun existing => ?_
      cases existing with
      | some row => exact within_do (within_any trivial) fun _ => trivial
      | none =>
        refine within_do (within_read fun x hx => hx) fun balance => ?_
        cases balance with
        | none => trivial
        | some b =>
          dsimp only
          split_ifs
          · trivial
          refine within_do (within_sql ?_) fun _ => ?_
          · rintro x rfl
            exact hbalance _ _ _ _
          refine within_do (within_createTransaction fun id now => hrow _ rfl rfl rfl) fun payout => ?_
          exact within_do (within_any trivial) fun _ => trivial
    · exact within_do (within_any trivial) fun _ => trivial

theorem calls_kashierRefund {cfg : Config} {params : RefundParams} {P : Op → Prop}
    {R : (o : Op) → o.Res → Prop} (hrandom : P .random36) (hfetch : P (.fetchRefund params)) :
    (kashierRefund cfg params).Calls P R fun _ => True := by
  unfold kashierRefund
  split_ifs
  · exact Prog.calls_do (calls_any hrandom) fun random _ => trivial
  · refine Prog.calls_catch (Prog.calls_retry ?_ 2) fun error => trivial
    refine Prog.calls_do (calls_any hfetch) fun response _ => ?_
    cases response with
    | lost => trivial
    | status code text =>
      dsimp only
      split_ifs <;> trivial
    | ok data => exact Prog.calls_ofExcept fun _ _ => trivial

theorem calls_lookUpOrder {tx : TransactionEntity} {P : Op → Prop} {R : (o : Op) → o.Res → Prop}
    (hread : ∀ id, P (.sql .trx (.findOrderById id))) :
    (lookUpOrder tx).Calls P R fun _ => True := by
  unfold lookUpOrder
  split
  · trivial
  · exact Prog.calls_do (calls_sql (hread _) fun _ _ => trivial) fun _ _ => trivial

theorem within_refundPayment {cfg : Config} {transactionId : Nat} {amount : Int} {region : String}
    (hmark : ∀ id now, H (.markRefunded id now))
    (hrow : ∀ row, row.transactionType = .refund → row.amount = amount →
      row.idempotencyKey = none → H (.insertTransaction row)) :
    Within H (refundPayment cfg transactionId amount region) := by
  refine within_do (within_any trivial) fun _ => within_catch ?_ fun err => ?_
  · refine within_do (within_read fun x hx => hx) fun found => ?_
    cases found with
    | none => trivial
    | some tx =>
      refine within_do within_ofExcept fun _ => ?_
      refine within_do (calls_lookUpOrder fun id x hx => absurd hx fun h => h) fun _ => ?_
      refine within_do (calls_kashierRefund trivial trivial) fun refundRes => ?_
      split_ifs
      · trivial
      refine within_do (within_do within_now fun now => within_sql ?_) fun _ => ?_
      · rintro x rfl
        exact hmark tx.id now
      refine within_do (within_createTransaction fun id now => hrow _ rfl rfl rfl) fun _ => ?_
      exact within_do (within_any trivial) fun _ => trivial
  · exact within_do (within_any trivial) fun _ => trivial

end Handling

section Offers
variable {H : Write → Prop} {cfg : Config} {publicId region : String} {agentId : Nat}

theorem within_countAttempt {ttlSeconds : Nat} : Within H (countAttempt publicId ttlSeconds) := by
  refine within_do (within_any trivial) fun _ => ?_
  exact within_any trivial

theorem within_freeCandidates {raw result : List Nat} :
    Within H (freeCandidates cfg region raw result) := by
  induction raw generalizing result with
  | nil => trivial
  | cons agentId raw ih =>
    refine within_do (within_any trivial) fun online => ?_
    cases online with
    | false => exact ih
    | true =>
      refine within_do (within_any trivial) fun busy => ?_
      cases busy with
      | true => exact ih
      | false =>
        change Within H (if cfg.candidates ≤ (result ++ [agentId]).length then _ else _)
        split_ifs
        · trivial
        · exact ih

theorem within_offerTo {order : OrderEntity} {candidates : List Nat} :
    Within H (offerTo cfg order candidates) := by
  have hemit : ∀ agents : List Nat, Within H (agents.forM fun agentId =>
      emit (.agent agentId) .taskOffered order.publicId) := by
    intro agents
    induction agents with
    | nil => trivial
    | cons agentId agents ih => exact within_do (within_any trivial) fun _ => ih
  have hbranch : Within H (branchOrNull order.branchId) :=
    within_catch (within_do (within_any trivial) fun _ => trivial) fun _ => trivial
  refine within_do (within_any trivial) fun offerSet => ?_
  cases offerSet with
  | false => trivial
  | true =>
    refine within_do within_countAttempt fun _ => ?_
    exact within_do hbranch fun _ => within_do (hemit candidates) fun _ => trivial

theorem within_tryAssign {order : OrderEntity} : Within H (tryAssign cfg order region) := by
  refine within_do (within_any trivial) fun offered => ?_
  split_ifs
  · trivial
  refine within_do (within_any trivial) fun attemptsRaw => ?_
  split_ifs
  · exact within_do (within_any trivial) fun _ => trivial
  refine within_do (within_do (within_any trivial) fun _ => within_freeCandidates)
    fun candidates => ?_
  split_ifs
  · exact within_do within_countAttempt fun _ => trivial
  · exact within_offerTo

theorem within_tryOrders {orders : List OrderEntity} {tally : TickResult} :
    Within H (tryOrders cfg region orders tally) := by
  induction orders generalizing tally with
  | nil => trivial
  | cons order orders ih =>
    refine within_do (within_catch (within_do within_tryAssign fun _ => ?_) fun _ => ?_)
      fun result => ?_
    · trivial
    · trivial
    split_ifs
    · exact ih
    · exact ih

/-- Offering the orders writes nothing in the shard. -/
theorem within_tickRegion : Within H (tickRegion cfg region) :=
  within_do (within_read fun _ h => h) fun _ => within_tryOrders

theorem within_rejectOffer : Within H (rejectOffer publicId agentId) := by
  refine within_do (within_any trivial) fun offered => ?_
  cases offered with
  | none => trivial
  | some value =>
    dsimp only
    split_ifs
    · exact within_do (within_any trivial) fun _ => trivial
    · exact within_do (within_any trivial) fun _ => within_any trivial
    · trivial

theorem within_updatePosition : Within H (updatePosition publicId agentId) := by
  refine within_do (within_read fun _ h => h) fun found => ?_
  cases found with
  | none => trivial
  | some order =>
    dsimp only
    split_ifs
    · trivial
    · exact within_any trivial

end Offers

/-- A call writes nothing else. -/
theorem within_mayWrite (hmacSha256 : String → String → String) (cfg : Config) (c : Call) :
    Within c.MayWrite (c.prog hmacSha256 cfg) := by
  cases c with
  | placeOrder actor region dto =>
    refine within_do (within_placeOrder cfg ?_) fun _ => trivial
    exact ⟨fun _ h => h, fun _ => trivial, fun _ h => h, fun _ => trivial, fun _ _ _ => rfl⟩
  | webhook rawBody signature region =>
    refine within_do (within_webhook ?_ fun _ => trivial) fun _ => trivial
    exact ⟨fun _ _ _ => trivial, fun _ _ _ => trivial, fun _ h => h, fun _ h => h,
      fun _ _ => ⟨rfl, rfl⟩⟩
  | updateStatus actor dto region orderId =>
    exact within_do (within_updateStatus (fun _ _ _ _ _ _ _ _ => rfl) fun _ h => h) fun _ => trivial
  | claim publicId agentId region =>
    exact within_do (within_claim fun now => ⟨now, rfl⟩) fun _ => trivial
  | adminAssign publicId agentId region =>
    exact within_do (within_adminAssign fun now => ⟨now, rfl⟩) fun _ => trivial
  | agentUpdateStatus publicId agentId region action =>
    refine within_do (within_agentUpdateStatus ?_ ?_ ?_) fun _ => trivial
    · rintro rfl publicId now
      exact ⟨publicId, some .pickedAt, now, rfl⟩
    · rintro rfl publicId now
      exact .inl ⟨publicId, some .deliveredAt, now, rfl⟩
    · rintro rfl order x hx
      exact .inr ⟨order, hx⟩
  | recordPayout input =>
    exact within_do (within_recordPayout (fun _ hkind hamount _ => ⟨hkind, hamount⟩)
      fun _ _ _ _ => trivial) fun _ => trivial
  | refundPayment input =>
    exact within_do (within_refundPayment (fun _ _ => trivial) fun _ hkind hamount hkey =>
      ⟨hkind, hamount, hkey⟩) fun _ => trivial

end OrderService
