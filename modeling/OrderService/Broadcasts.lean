import OrderService.Calls
import OrderService.WebhookEffects
import OrderService.Rows
import OrderService.SerialIds
import OrderService.Interleaving.Trace

/-! What the services emit, and about which order: every emission goes to a room of an order row
that the call was given by a statement, or to an agent to whom the order is offered. -/
namespace OrderService
open ReadCommitted Interleaving

section Work

/-- Everything that emits or that changes an offer. -/
inductive Work where
  | call (c : Call)
  | updatePosition (publicId : String) (agentId : Nat)
  | tickRegion (region : String)
  | rejectOffer (publicId : String) (agentId : Nat)

variable (hmacSha256 : String → String → String) (cfg : Config)

def Work.prog : Work → Svc Unit
  | .call c => do
    let _ ← c.prog hmacSha256 cfg
    pure ()
  | .updatePosition publicId agentId => OrderService.updatePosition publicId agentId
  | .tickRegion region => do
    let _ ← OrderService.tickRegion cfg region
    pure ()
  | .rejectOffer publicId agentId => OrderService.rejectOffer publicId agentId

/-- A process for each piece of work, none of which has started. -/
def working (work : Pid → Option Work) (w : World) : Sys Pid Op Op.Res Err World Unit :=
  ⟨w, fun p => (work p).map (Work.prog hmacSha256 cfg)⟩

end Work

section Statement

/-- At some time between two states the row was in the committed tables, or in those that a call
saw in its transaction. -/
def RowBetween (s t : Sys Pid Op Op.Res Err World Unit) (o : OrderEntity) : Prop :=
  ∃ u, machine.Reaches anyOp s u ∧ machine.Reaches anyOp u t ∧
    (o ∈ u.world.store.db.orders ∨ ∃ p, o ∈ (u.world.view p).orders)

/-- At some time between two states Redis held the offer of the order. -/
def OfferBetween (s t : Sys Pid Op Op.Res Err World Unit) (publicId : String)
    (value : CacheValue) : Prop :=
  ∃ u, machine.Reaches anyOp s u ∧ machine.Reaches anyOp u t ∧
    u.world.cache.entries (.offer publicId) = some value

-- The rows that were read so far, and the offers.
variable (Row : OrderEntity → Prop) (Offer : String → CacheValue → Prop)

/-- The order is offered to the agent. -/
def CandidateFor (publicId : String) (agentId : Nat) : Prop :=
  ∃ value, Offer publicId value ∧ agentId ∈ candidateIds value

/-- The rooms of those whom an order concerns. -/
def RoomOf (o : OrderEntity) : Room → Prop
  | .customer id => id = o.customerId
  | .branch id => id = o.branchId
  | .agent id => o.deliveryAgentId = some id ∨ CandidateFor Offer o.publicId id
  | .adminAlerts => True

def Emission.Proper (m : Emission) : Prop :=
  ∃ o, Row o ∧ o.publicId = m.orderId ∧ RoomOf Offer o m.room

def Op.Emits : Op → Prop
  | .emit m => m.Proper Row Offer
  | _ => True

/-- What the statements tell of the orders in their replies. -/
def Sql.Tells : (q : Sql) → q.Res → Prop
  | .createOrder data _, o => Row o ∧ o.branchId = data.branchId
  | .findOrderByPublicId publicId, r => ∀ o, r = some o → Row o ∧ o.publicId = publicId
  | .findOrderById _, r => ∀ o, r = some o → Row o
  | .updateOrderStatus publicId _ _ _, r => ∀ o, r = some o → Row o ∧ o.publicId = publicId
  | .claimReadyOrderForAgent publicId agentId _, r =>
    ∀ o, r = some o → Row o ∧ o.publicId = publicId ∧ o.deliveryAgentId = some agentId
  | .findReadyUnassigned _, r => ∀ o ∈ r, Row o
  | _, _ => True

def Op.Tells : (o : Op) → o.Res → Prop
  | .sql _ q, a => q.Tells Row a
  | .cache (.get (.offer publicId)), a => ∀ value, a = some value → Offer publicId value
  | .cache (.trySet (.offer publicId) value _), a => a = true → Offer publicId value
  | _, _ => True

/-- Every emission of the program is proper, as long as the replies tell the truth. -/
abbrev Speaks {α : Type} (prog : Svc α) (Q : α → Prop) : Prop :=
  prog.Calls (Op.Emits Row Offer) (Op.Tells Row Offer) Q

end Statement

section Replies
variable {Row : OrderEntity → Prop} {Offer : String → CacheValue → Prop} {seqs : Seqs}
  {clock : Time} {db : Db}

theorem order_mem {publicId : String} {o : OrderEntity} (h : db.order publicId = some o) :
    o ∈ db.orders ∧ o.publicId = publicId := by
  have hfound := List.find?_some h
  exact ⟨List.mem_of_find?_eq_some h, by simpa using hfound⟩

/-- The rows of a reply are in the tables that the statement leaves. -/
theorem tells_of_reply {q : Sql} {a : q.Res} (h : (q.eval seqs clock db).reply = .ok a)
    (hrows : ∀ o ∈ (engine.applyAll (q.eval seqs clock db).writes db).orders, Row o) :
    q.Tells Row a := by
  cases q with
  | createOrder data now =>
    simp only [Sql.eval] at h hrows
    cases hid : data.restaurantOwnerId with
    | none => simp [hid] at h
    | some ownerId =>
      simp only [hid, writing, Except.ok.injEq] at h hrows
      rw [← h]
      refine ⟨hrows _ ?_, rfl⟩
      exact List.mem_append_right _ (List.mem_singleton.mpr rfl)
  | findOrderByPublicId publicId =>
    simp only [Sql.eval, reading, Except.ok.injEq] at h
    intro o ho
    obtain ⟨hmem, hid⟩ := order_mem (h.trans ho)
    exact ⟨hrows o hmem, hid⟩
  | findOrderById id =>
    simp only [Sql.eval, reading, Except.ok.injEq] at h
    intro o ho
    exact hrows o (List.mem_of_find?_eq_some (h.trans ho))
  | updateOrderStatus publicId status stamp now =>
    intro o ho
    simp only [Sql.eval] at h hrows
    cases hfind : db.order publicId with
    | none =>
      simp only [hfind, reading, Except.ok.injEq] at h
      rw [← h] at ho
      cases ho
    | some old =>
      simp only [hfind, writing, Except.ok.injEq] at h hrows
      obtain ⟨hmem, hid⟩ := order_mem hfind
      rw [← h, Option.some.injEq] at ho
      subst ho
      refine ⟨hrows _ ?_, by rw [withStatus_publicId, hid]⟩
      exact List.mem_map.mpr ⟨old, hmem, if_pos hid⟩
  | claimReadyOrderForAgent publicId agentId now =>
    intro o ho
    simp only [Sql.eval] at h hrows
    cases hfind : db.claimableOrder publicId with
    | none =>
      simp only [hfind, reading, Except.ok.injEq] at h
      rw [← h] at ho
      cases ho
    | some old =>
      simp only [hfind, writing, Except.ok.injEq] at h hrows
      have htest := List.find?_some hfind
      simp only [decide_eq_true_eq] at htest
      rw [← h, Option.some.injEq] at ho
      subst ho
      refine ⟨hrows _ ?_, by rw [assignTo_publicId, htest.1], rfl⟩
      exact List.mem_map.mpr ⟨old, List.mem_of_find?_eq_some hfind, if_pos htest⟩
  | findReadyUnassigned limit =>
    simp only [Sql.eval, reading, Except.ok.injEq] at h
    intro o ho
    rw [← h] at ho
    have hsorted := List.mem_mergeSort.mp (List.mem_of_mem_take ho)
    exact hrows o (List.mem_of_mem_filter hsorted)
  | _ => trivial

variable {p : Pid} {o : Op} {e : Env} {w w' : World} {a : o.Res}

/-- A key that was free holds the value afterwards. -/
theorem entries_of_trySet {c : Cache} {key : CacheKey} {value : CacheValue} {ttl : Nat}
    (h : (CacheCmd.run c e (.trySet key value ttl)).1 = true) :
    (CacheCmd.run c e (.trySet key value ttl)).2.entries key = some value := by
  simp only [CacheCmd.run] at h ⊢
  cases hentry : c.entries key with
  | some old => simp [hentry] at h
  | none => exact Function.update_self _ _ _

/-- What an operation is answered is true of the world that it leaves. -/
theorem tells_of_exec (hx : exec p o e w = some (.ok a, w'))
    (hrows : ∀ o, o ∈ w'.store.db.orders ∨ (∃ p, o ∈ (w'.view p).orders) → Row o)
    (hoffers : ∀ publicId value,
      w.cache.entries (.offer publicId) = some value ∨
        w'.cache.entries (.offer publicId) = some value → Offer publicId value) :
    o.Tells Row Offer a := by
  have hfails : e.fail = true → (∃ c q, o = .sql c q) ∨ (∃ c, o = .cache c) → False := by
    rintro hf (⟨c, q, rfl⟩ | ⟨c, rfl⟩) <;> simp [exec, hf] at hx
  cases o with
  | sql c q =>
    have hfail : e.fail = false := Bool.eq_false_iff.mpr fun hf => hfails hf (.inl ⟨c, q, rfl⟩)
    cases c with
    | pool =>
      obtain ⟨hreply, rfl, _⟩ := exec_pool hfail hx
      exact tells_of_reply hreply.symm fun o ho => hrows o (.inl ho)
    | trx =>
      cases htxn : w.store.txn p with
      | active log =>
        obtain ⟨hreply, rfl⟩ := exec_trx htxn hfail hx
        refine tells_of_reply hreply.symm fun o ho => hrows o (.inr ⟨p, ?_⟩)
        rw [World.view_eq, World.log, World.queried_txn]
        simp only [Txn.log, applyAll_append]
        exact ho
      | _ =>
        obtain ⟨⟨err, herr⟩, _⟩ := exec_trx_closed (by rw [htxn]; exact fun _ h => by cases h) hx
        cases herr
  | cache c =>
    have hfail : e.fail = false := Bool.eq_false_iff.mpr fun hf => hfails hf (.inr ⟨c, rfl⟩)
    simp only [exec, hfail, Bool.false_eq_true, if_false, Option.some.injEq, Prod.mk.injEq,
      Except.ok.injEq] at hx
    obtain ⟨hreply, rfl⟩ := hx
    cases c with
    | get key =>
      cases key with
      | offer publicId =>
        intro value hvalue
        exact hoffers publicId value (.inl (hreply.trans hvalue))
      | _ => trivial
    | trySet key value ttl =>
      cases key with
      | offer publicId =>
        intro hset
        apply hoffers publicId value
        right
        exact entries_of_trySet (hreply.trans hset)
      | _ => trivial
    | _ => trivial
  | _ => trivial

end Replies

section Programs
variable {Row : OrderEntity → Prop} {Offer : String → CacheValue → Prop} {α β : Type}

theorem speaks_do {prog : Svc α} {f : α → Svc β} {Q : α → Prop} {T : β → Prop}
    (hp : Speaks Row Offer prog Q) (hf : ∀ a, Q a → Speaks Row Offer (f a) T) :
    Speaks Row Offer (prog >>= f) T := Prog.calls_do hp hf

/-- Where the result tells nothing. -/
theorem speaks_then {prog : Svc α} {f : α → Svc β} {T : β → Prop}
    (hp : Speaks Row Offer prog fun _ => True) (hf : ∀ a, Speaks Row Offer (f a) T) :
    Speaks Row Offer (prog >>= f) T := Prog.calls_do hp fun a _ => hf a

theorem speaks_ite {cond : Prop} [Decidable cond] {prog prog' : Svc α} {Q : α → Prop}
    (h : Speaks Row Offer prog Q) (h' : Speaks Row Offer prog' Q) :
    Speaks Row Offer (if cond then prog else prog') Q := by
  split_ifs
  · exact h
  · exact h'

theorem speaks_any {o : Op} (ho : o.Emits Row Offer) :
    Speaks Row Offer (Prog.perform o) fun _ => True := calls_any ho

theorem speaks_emit {room : Room} {event : SocketEvent} {o : OrderEntity} {orderId : String}
    (ho : Row o) (hid : o.publicId = orderId) (hroom : RoomOf Offer o room) :
    Speaks Row Offer (emit room event orderId) fun _ => True :=
  calls_any (P := Op.Emits Row Offer) (o := .emit ⟨room, event, orderId⟩) ⟨o, ho, hid, hroom⟩

theorem speaks_updateOrderStatus {publicId : String} {status : OrderStatus} {c : Conn}
    {stamp : Option Stamp} : Speaks Row Offer (updateOrderStatus publicId status c stamp)
      fun o => Row o ∧ o.publicId = publicId := by
  refine speaks_then (calls_now trivial fun _ => trivial) fun now => ?_
  refine speaks_do (calls_sql trivial fun row hrow => hrow) fun row hrow => ?_
  exact calls_toEntity hrow

theorem speaks_findOrder {publicId : String} {c : Conn} :
    Speaks Row Offer (findOrderByPublicId publicId c)
      fun r => ∀ o, r = some o → Row o ∧ o.publicId = publicId :=
  calls_sql trivial fun _ h => h

theorem speaks_createTransaction {data : TransactionData} {c : Conn} :
    Speaks Row Offer (createTransaction data c) fun _ => True :=
  calls_createTransaction trivial fun _ => trivial

section Status

theorem speaks_updateStatus {actor : ActorContext} {dto : UpdateOrderStatusRequest}
    {region orderId : String} :
    Speaks Row Offer (updateStatus actor dto region orderId) fun _ => True := by
  refine speaks_do speaks_findOrder fun found hfound => ?_
  cases found with
  | none => trivial
  | some order =>
    obtain ⟨hrow, hid⟩ := hfound order rfl
    refine speaks_then (Prog.calls_ofExcept fun _ _ => trivial) fun statusActor => ?_
    dsimp only
    rw [assertTransition_eq]
    refine speaks_then (Prog.calls_ofExcept fun _ _ => trivial) fun stamp => ?_
    refine speaks_then (speaks_any trivial) fun _ => ?_
    refine speaks_do (Q := fun updated => updated.publicId = orderId)
      (Prog.calls_catch ?_ fun err => ?_) fun updated hupdated => ?_
    · refine speaks_do speaks_updateOrderStatus fun updated hupdated => ?_
      refine speaks_then ?_ fun _ => speaks_then (speaks_any trivial) fun _ => ?_
      · unfold emitTransition
        split
        · trivial
        · exact speaks_any trivial
      · exact hupdated.2.trans hid
    · exact speaks_then (speaks_any trivial) fun _ => trivial
    -- The rooms are those of the row that was read before, under the same id.
    · have hsame : order.publicId = updated.publicId := hid.trans hupdated.symm
      refine speaks_then (speaks_any trivial) fun _ => ?_
      refine speaks_then (speaks_emit hrow hsame rfl) fun _ => ?_
      exact speaks_then (speaks_emit hrow hsame rfl) fun _ => trivial

end Status

section Placing
variable {cfg : Config}

theorem speaks_insertOrder {data : OrderData} {lines : Nat → List OrderItemData} :
    Speaks Row Offer (insertOrder data lines)
      fun placed => Row placed.1 ∧ placed.1.branchId = data.branchId := by
  refine speaks_do (Q := fun o => Row o ∧ o.branchId = data.branchId) ?_ fun order horder => ?_
  · refine speaks_then (calls_now trivial fun _ => trivial) fun createdAt => ?_
    exact calls_sql trivial fun _ h => h
  refine speaks_then ?_ fun items => ?_
  · refine speaks_then (calls_now trivial fun _ => trivial) fun createdAt => ?_
    exact speaks_any trivial
  refine speaks_then (calls_onlyIf (speaks_any trivial)) fun _ => ?_
  exact speaks_then (speaks_any trivial) fun _ => horder

theorem speaks_undoStock {branchId : Nat} {items : List ReserveStockItem} :
    Speaks Row Offer (undoStock branchId items) fun _ => True :=
  Prog.calls_catch (speaks_any trivial) fun _ => trivial

theorem speaks_openPayment {order : OrderEntity} {branchId : Nat}
    {stock : List ReserveStockItem} :
    Speaks Row Offer (openPayment cfg order branchId stock) fun _ => True := by
  refine Prog.calls_catch (speaks_then ?_ fun _ => trivial) fun payErr => ?_
  · refine speaks_then (speaks_any trivial) fun existing => ?_
    cases existing with
    | some session => trivial
    | none =>
      refine speaks_then (speaks_any trivial) fun result => speaks_then ?_ fun _ => trivial
      refine speaks_then (calls_now trivial fun _ => trivial) fun createdAt => ?_
      exact speaks_any trivial
  · refine speaks_do speaks_updateOrderStatus fun _ _ => ?_
    exact speaks_then speaks_undoStock fun _ => trivial

theorem speaks_submitOrder {actor : ActorContext} {resolvedRegion : String} {branch : Branch}
    {address : CoreCustomerAddress} {products : List CoreBranchProduct}
    {dto : CreateOrderRequest} :
    Speaks Row Offer (submitOrder cfg actor resolvedRegion branch address products dto)
      fun _ => True := by
  refine speaks_then (speaks_any trivial) fun publicId => ?_
  refine speaks_then (speaks_any trivial) fun _ => speaks_then (speaks_any trivial) fun _ => ?_
  refine speaks_do (Prog.calls_catch speaks_insertOrder fun err => ?_) fun placed hplaced => ?_
  · refine speaks_then (speaks_any trivial) fun _ => ?_
    exact speaks_then speaks_undoStock fun _ => trivial
  obtain ⟨hrow, hbranch⟩ := hplaced
  refine speaks_then ?_ fun payment => speaks_then (speaks_any trivial) fun _ => ?_
  · unfold paymentData
    split_ifs
    · exact speaks_then speaks_openPayment fun _ => trivial
    · trivial
  · exact speaks_then (calls_onlyIf (speaks_emit hrow rfl hbranch.symm)) fun _ => trivial

theorem speaks_placeOrder {actor : ActorContext} {region : Option String}
    {dto : CreateOrderRequest} :
    Speaks Row Offer (placeOrder cfg actor region dto) fun _ => True := by
  refine speaks_then (speaks_any trivial) fun branch => ?_
  split_ifs
  · trivial
  refine speaks_then (speaks_any trivial) fun flag => ?_
  split_ifs
  · trivial
  refine speaks_then (Prog.calls_ofExcept fun _ _ => trivial) fun resolvedRegion => ?_
  split_ifs
  · trivial
  refine speaks_then (speaks_any trivial) fun address => ?_
  split_ifs
  · trivial
  refine speaks_then (speaks_any trivial) fun products => ?_
  split_ifs
  · trivial
  · exact speaks_submitOrder
  · trivial

end Placing

section Paying
variable {cfg : Config}

/-- The order that a webhook places is the row that its update returned. -/
theorem speaks_placePaidOrder {order : OrderEntity} :
    Speaks Row Offer (placePaidOrder order) fun broadcast => ∀ placed ∈ broadcast, Row placed.1 := by
  unfold placePaidOrder
  split_ifs
  · refine speaks_do speaks_updateOrderStatus fun placed hplaced => ?_
    refine speaks_then (speaks_any trivial) fun items => speaks_then (speaks_any trivial) fun _ => ?_
    intro found hfound
    obtain rfl := Option.some.inj hfound
    exact hplaced.1
  · exact fun _ h => by cases h

theorem speaks_applyEvent {event : Json} {ctx : WebhookContext} {order : OrderEntity}
    {session : PaymentSessionEntity} : Speaks Row Offer (applyEvent event ctx order session)
      fun broadcast => ∀ placed ∈ broadcast, Row placed.1 := by
  have hcharge : ∀ status dstAccId,
      Speaks Row Offer (recordCharge ctx order session status dstAccId) fun _ => True :=
    fun _ _ => calls_recordCharge trivial trivial fun _ => trivial
  have hsession : ∀ status,
      Speaks Row Offer (updatePaymentSessionStatus session.id status .trx) fun _ => True :=
    fun _ => calls_updateSession trivial fun _ => trivial
  unfold applyEvent
  split_ifs
  · refine speaks_then (hsession _) fun _ => ?_
    refine speaks_then (calls_fetchRestaurantOwner trivial) fun owner => ?_
    refine speaks_then (hcharge _ _) fun _ => ?_
    refine speaks_then (calls_now trivial fun _ => trivial) fun completedAt => ?_
    exact speaks_then (speaks_any trivial) fun _ => speaks_placePaidOrder
  · refine speaks_then (hsession _) fun _ => speaks_then (hcharge _ _) fun _ => ?_
    refine speaks_then (calls_now trivial fun _ => trivial) fun failedAt => ?_
    exact speaks_then (speaks_any trivial) fun _ _ h => by cases h
  · exact fun _ h => by cases h

theorem speaks_announcePlaced {region : String} {broadcast : Option (OrderEntity × Nat)}
    (h : ∀ placed ∈ broadcast, Row placed.1) :
    Speaks Row Offer (announcePlaced region broadcast) fun _ => True := by
  cases broadcast with
  | none => trivial
  | some placed =>
    have hrow : Row placed.1 := h placed rfl
    refine speaks_then (speaks_any trivial) fun _ => ?_
    exact speaks_then (speaks_emit hrow rfl rfl) fun _ => speaks_emit hrow rfl rfl

theorem speaks_processWebhook {event : Json} {ctx : WebhookContext} {insertedId : Nat} :
    Speaks Row Offer (processWebhook event ctx insertedId) fun _ => True := by
  refine speaks_then ?_ fun found => ?_
  · unfold findReferencedOrder
    split
    · exact speaks_any trivial
    · trivial
    · trivial
  cases found with
  | none => trivial
  | some order =>
    refine speaks_then (speaks_any trivial) fun session => ?_
    cases session with
    | none => trivial
    | some session =>
      refine speaks_do speaks_applyEvent fun broadcast hbroadcast => ?_
      refine speaks_then (calls_now trivial fun _ => trivial) fun processedAt => ?_
      refine speaks_then (speaks_any trivial) fun _ => speaks_then (speaks_any trivial) fun _ => ?_
      exact speaks_announcePlaced hbroadcast

theorem speaks_webhook {hmacSha256 : String → String → String} {rawBody : Option Json}
    {signature region : String} :
    Speaks Row Offer (verifyAndProcessWebhook hmacSha256 cfg rawBody signature region)
      fun _ => True := by
  unfold verifyAndProcessWebhook
  split
  · trivial
  split_ifs
  · trivial
  · trivial
  refine speaks_then (speaks_any trivial) fun provider => ?_
  cases provider with
  | none => trivial
  | some provider =>
    dsimp only
    split_ifs
    · trivial
    refine speaks_then (Prog.calls_ofExcept fun _ _ => trivial) fun isValid => ?_
    split_ifs
    · trivial
    refine speaks_then (Prog.calls_ofExcept fun _ _ => trivial) fun transactionId => ?_
    refine speaks_then ?_ fun inserted => ?_
    · refine speaks_then (calls_now trivial fun _ => trivial) fun receivedAt => ?_
      exact speaks_any trivial
    cases inserted with
    | none => trivial
    | some insertedEvent =>
      refine speaks_then (speaks_any trivial) fun _ => ?_
      refine Prog.calls_catch speaks_processWebhook fun error => ?_
      refine speaks_then (speaks_any trivial) fun _ => ?_
      refine speaks_then (calls_now trivial fun _ => trivial) fun processedAt => ?_
      exact speaks_then (speaks_any trivial) fun _ => trivial

theorem speaks_recordPayout {input : PayoutInput} :
    Speaks Row Offer (recordPayout input) fun _ => True := by
  refine speaks_then (speaks_then (speaks_any trivial) fun _ => trivial) fun owner => ?_
  cases owner with
  | none => trivial
  | some ownerUserId =>
    refine speaks_then (speaks_any trivial) fun _ => Prog.calls_catch ?_ fun err => ?_
    · refine speaks_then (speaks_any trivial) fun existing => ?_
      cases existing with
      | some row => exact speaks_then (speaks_any trivial) fun _ => trivial
      | none =>
        refine speaks_then (speaks_any trivial) fun balance => ?_
        cases balance with
        | none => trivial
        | some b =>
          dsimp only
          split_ifs
          · trivial
          refine speaks_then (speaks_any trivial) fun _ => ?_
          refine speaks_then speaks_createTransaction fun payout => ?_
          exact speaks_then (speaks_any trivial) fun _ => trivial
    · exact speaks_then (speaks_any trivial) fun _ => trivial

theorem speaks_kashierRefund {params : RefundParams} :
    Speaks Row Offer (kashierRefund cfg params) fun _ => True := by
  unfold kashierRefund
  split_ifs
  · exact speaks_then (speaks_any trivial) fun _ => trivial
  refine Prog.calls_catch (Prog.calls_retry ?_ 2) fun _ => trivial
  refine speaks_then (speaks_any trivial) fun response => ?_
  cases response with
  | lost => trivial
  | status code text =>
    dsimp only
    split_ifs <;> trivial
  | ok data => exact Prog.calls_ofExcept fun _ _ => trivial

theorem speaks_refundPayment {transactionId : Nat} {amount : Int} {region : String} :
    Speaks Row Offer (refundPayment cfg transactionId amount region) fun _ => True := by
  refine speaks_then (speaks_any trivial) fun _ => Prog.calls_catch ?_ fun err => ?_
  · refine speaks_then (speaks_any trivial) fun found => ?_
    cases found with
    | none => trivial
    | some tx =>
      refine speaks_then (Prog.calls_ofExcept fun _ _ => trivial) fun _ => speaks_then ?_ fun _ => ?_
      · unfold lookUpOrder
        split
        · trivial
        · exact speaks_then (speaks_any trivial) fun _ => trivial
      refine speaks_then speaks_kashierRefund fun refundRes => ?_
      split_ifs
      · trivial
      refine speaks_then ?_ fun _ => speaks_then speaks_createTransaction fun _ => ?_
      · refine speaks_then (calls_now trivial fun _ => trivial) fun updatedAt => ?_
        exact speaks_any trivial
      · exact speaks_then (speaks_any trivial) fun _ => trivial
  · exact speaks_then (speaks_any trivial) fun _ => trivial

end Paying

section Assigning
variable {cfg : Config} {publicId region : String} {agentId : Nat}

theorem speaks_branchOrNull {branchId : Nat} :
    Speaks Row Offer (branchOrNull branchId) fun _ => True :=
  Prog.calls_catch (speaks_then (speaks_any trivial) fun _ => trivial) fun _ => trivial

theorem speaks_releaseClaim : Speaks Row Offer (releaseClaim publicId) fun _ => True :=
  speaks_then (speaks_any trivial) fun _ => trivial

/-- The same event to each of the agents. -/
theorem speaks_forM_emit {agents : List Nat} {event : SocketEvent} {o : OrderEntity} (ho : Row o)
    (h : ∀ a ∈ agents, RoomOf Offer o (.agent a)) :
    Speaks Row Offer (agents.forM fun a => emit (.agent a) event o.publicId) fun _ => True := by
  induction agents with
  | nil => trivial
  | cons a agents ih =>
    refine speaks_then (speaks_emit ho rfl (h a List.mem_cons_self)) fun _ => ?_
    exact ih fun b hb => h b (List.mem_cons_of_mem a hb)

theorem speaks_takeOrder : Speaks Row Offer (takeOrder publicId agentId)
    fun o => Row o ∧ o.publicId = publicId ∧ o.deliveryAgentId = some agentId := by
  refine speaks_do (Q := fun r => ∀ o, r = some o →
    Row o ∧ o.publicId = publicId ∧ o.deliveryAgentId = some agentId) ?_ fun claimed hclaimed => ?_
  · refine speaks_then (calls_now trivial fun _ => trivial) fun assignedAt => ?_
    exact calls_sql trivial fun _ h => h
  cases claimed with
  | none => exact speaks_then speaks_releaseClaim fun _ => trivial
  | some updated => exact speaks_then (speaks_any trivial) fun _ => hclaimed updated rfl

theorem speaks_releasingOnError {body : Svc OrderEntity} {Q : OrderEntity → Prop}
    (h : Speaks Row Offer body Q) : Speaks Row Offer (releasingOnError publicId body) Q := by
  refine Prog.calls_catch h fun err => speaks_then (speaks_any trivial) fun _ => ?_
  exact speaks_then speaks_releaseClaim fun _ => trivial

theorem speaks_afterAssignment {updated : OrderEntity} {losers : List Nat} (hrow : Row updated)
    (hagent : updated.deliveryAgentId = some agentId)
    (hlosers : ∀ a ∈ losers, CandidateFor Offer updated.publicId a) :
    Speaks Row Offer (afterAssignment publicId updated agentId region losers) fun _ => True := by
  refine speaks_then (speaks_any trivial) fun _ => speaks_then speaks_branchOrNull fun branch => ?_
  refine speaks_then ?_ fun _ => speaks_then (speaks_any trivial) fun _ => trivial
  refine speaks_then (speaks_emit hrow rfl (.inl hagent)) fun _ => ?_
  refine speaks_then (speaks_forM_emit hrow fun a ha => .inr (hlosers a ha)) fun _ => ?_
  exact speaks_then (speaks_emit hrow rfl rfl) fun _ => speaks_emit hrow rfl rfl

theorem speaks_claim : Speaks Row Offer (claim cfg publicId agentId region) fun _ => True := by
  refine speaks_do (Q := fun r => ∀ value, r = some value → Offer publicId value)
    (Prog.calls_perform trivial fun _ h => h) fun offered hoffered => ?_
  cases offered with
  | none => trivial
  | some value =>
    have hvalue : Offer publicId value := hoffered value rfl
    dsimp only
    split_ifs
    · refine speaks_then (speaks_any trivial) fun ok => ?_
      split_ifs
      · trivial
      refine speaks_then (speaks_any trivial) fun _ => ?_
      refine speaks_do (Q := fun o => Row o ∧ o.publicId = publicId ∧
        o.deliveryAgentId = some agentId) (speaks_releasingOnError ?_) fun updated hupdated => ?_
      · refine speaks_do speaks_findOrder fun order _ => ?_
        cases order with
        | none => exact speaks_then speaks_releaseClaim fun _ => trivial
        | some order => exact speaks_takeOrder
      · obtain ⟨hrow, hid, hagent⟩ := hupdated
        refine speaks_afterAssignment hrow hagent fun a ha => ⟨value, ?_, List.mem_of_mem_filter ha⟩
        rw [hid]
        exact hvalue
    · trivial

theorem speaks_adminAssign :
    Speaks Row Offer (adminAssign cfg publicId agentId region) fun _ => True := by
  refine speaks_then (speaks_any trivial) fun ok => ?_
  split_ifs
  · trivial
  refine speaks_then (speaks_any trivial) fun _ => ?_
  refine speaks_do (speaks_releasingOnError speaks_takeOrder) fun updated hupdated => ?_
  obtain ⟨hrow, _, hagent⟩ := hupdated
  exact speaks_afterAssignment hrow hagent fun a ha => by cases ha

theorem speaks_countAttempt {ttlSeconds : Nat} :
    Speaks Row Offer (countAttempt publicId ttlSeconds) fun _ => True :=
  speaks_then (speaks_any trivial) fun _ => speaks_any trivial

theorem speaks_freeCandidates {raw result : List Nat} :
    Speaks Row Offer (freeCandidates cfg region raw result) fun _ => True := by
  induction raw generalizing result with
  | nil => trivial
  | cons agentId raw ih =>
    refine speaks_then (speaks_any trivial) fun online => speaks_ite ih ?_
    refine speaks_then (speaks_any trivial) fun busy => speaks_ite ih ?_
    exact speaks_ite trivial ih

/-- The offer is stored before it is told, and told to nobody else. -/
theorem speaks_offerTo {order : OrderEntity} {candidates : List Nat} (ho : Row order) :
    Speaks Row Offer (offerTo cfg order candidates) fun _ => True := by
  refine speaks_do (Q := fun set => set = true → Offer order.publicId (.ids candidates))
    (Prog.calls_perform trivial fun _ h => h) fun offerSet hset => ?_
  cases offerSet with
  | false => trivial
  | true =>
    refine speaks_then speaks_countAttempt fun _ => speaks_then speaks_branchOrNull fun _ => ?_
    refine speaks_then (speaks_forM_emit ho fun a ha => .inr ?_) fun _ => trivial
    exact ⟨.ids candidates, hset rfl, ha⟩

theorem speaks_tryAssign {order : OrderEntity} (ho : Row order) :
    Speaks Row Offer (tryAssign cfg order region) fun _ => True := by
  refine speaks_then (speaks_any trivial) fun offered => ?_
  split_ifs
  · trivial
  refine speaks_then (speaks_any trivial) fun attemptsRaw => ?_
  split_ifs
  · exact speaks_then (speaks_emit ho rfl trivial) fun _ => trivial
  refine speaks_then (speaks_then (speaks_any trivial) fun _ => speaks_freeCandidates)
    fun candidates => ?_
  split_ifs
  · exact speaks_then speaks_countAttempt fun _ => trivial
  · exact speaks_offerTo ho

theorem speaks_tryOrders {orders : List OrderEntity} {tally : TickResult}
    (h : ∀ o ∈ orders, Row o) :
    Speaks Row Offer (tryOrders cfg region orders tally) fun _ => True := by
  induction orders generalizing tally with
  | nil => trivial
  | cons order orders ih =>
    have hrest : ∀ o ∈ orders, Row o := fun o ho => h o (List.mem_cons_of_mem order ho)
    refine speaks_then (Prog.calls_catch ?_ fun _ => trivial) fun result => ?_
    · exact speaks_then (speaks_tryAssign (h order List.mem_cons_self)) fun _ => trivial
    split_ifs
    · exact ih hrest
    · exact ih hrest

theorem speaks_tickRegion : Speaks Row Offer (tickRegion cfg region) fun _ => True := by
  refine speaks_do (Q := fun orders => ∀ o ∈ orders, Row o) (calls_sql trivial fun _ h => h) ?_
  exact fun orders horders => speaks_tryOrders horders

theorem speaks_rejectOffer : Speaks Row Offer (rejectOffer publicId agentId) fun _ => True := by
  refine speaks_then (speaks_any trivial) fun offered => ?_
  cases offered with
  | none => trivial
  | some value =>
    dsimp only
    split_ifs
    · exact speaks_then (speaks_any trivial) fun _ => trivial
    · exact speaks_then (speaks_any trivial) fun _ => speaks_any trivial
    · trivial

end Assigning

section Delivering
variable {cfg : Config} {publicId region : String} {agentId : Nat}

theorem speaks_emitDeliveryStatus {order : OrderEntity} (ho : Row order) :
    Speaks Row Offer (emitDeliveryStatus order) fun _ => True :=
  speaks_then (speaks_emit ho rfl rfl) fun _ => speaks_emit ho rfl rfl

theorem speaks_agentUpdateStatus {action : DeliveryAction} :
    Speaks Row Offer (agentUpdateStatus cfg publicId agentId region action) fun _ => True := by
  refine speaks_then (speaks_any trivial) fun found => ?_
  cases found with
  | none => trivial
  | some order =>
    dsimp only
    split_ifs
    · trivial
    cases action with
    | picked =>
      unfold pickup
      split_ifs
      · trivial
      refine speaks_do speaks_updateOrderStatus fun updated hupdated => ?_
      exact speaks_then (speaks_emitDeliveryStatus hupdated.1) fun _ => trivial
    | delivered =>
      unfold deliver
      split_ifs
      · trivial
      refine speaks_then (speaks_any trivial) fun _ => Prog.calls_catch ?_ fun err => ?_
      · refine speaks_do speaks_updateOrderStatus fun updated hupdated => ?_
        refine speaks_then (calls_settleDeliveredOrder (fun _ => True) (fun _ _ => trivial) cfg
          trivial trivial (fun _ _ => trivial) trivial) fun _ => ?_
        refine speaks_then (speaks_any trivial) fun _ => speaks_then (speaks_any trivial) fun _ => ?_
        refine speaks_then (speaks_emitDeliveryStatus hupdated.1) fun _ => ?_
        exact speaks_then (speaks_any trivial) fun _ => trivial
      · exact speaks_then (speaks_any trivial) fun _ => trivial
    | _ => trivial

theorem speaks_updatePosition :
    Speaks Row Offer (updatePosition publicId agentId) fun _ => True := by
  refine speaks_do speaks_findOrder fun found hfound => ?_
  cases found with
  | none => trivial
  | some order =>
    dsimp only
    split_ifs
    · trivial
    · exact speaks_emit (hfound order rfl).1 rfl rfl

end Delivering

theorem speaks_work (hmacSha256 : String → String → String) (cfg : Config) (work : Work) :
    Speaks Row Offer (work.prog hmacSha256 cfg) fun _ => True := by
  cases work with
  | call c =>
    refine speaks_then ?_ fun _ => trivial
    cases c with
    | placeOrder actor region dto => exact speaks_then speaks_placeOrder fun _ => trivial
    | webhook rawBody signature region => exact speaks_then speaks_webhook fun _ => trivial
    | updateStatus actor dto region orderId => exact speaks_then speaks_updateStatus fun _ => trivial
    | claim publicId agentId region => exact speaks_then speaks_claim fun _ => trivial
    | adminAssign publicId agentId region => exact speaks_then speaks_adminAssign fun _ => trivial
    | agentUpdateStatus publicId agentId region action =>
      exact speaks_then speaks_agentUpdateStatus fun _ => trivial
    | recordPayout input => exact speaks_then speaks_recordPayout fun _ => trivial
    | refundPayment input => exact speaks_then speaks_refundPayment fun _ => trivial
  | updatePosition publicId agentId => exact speaks_updatePosition
  | tickRegion region => exact speaks_then speaks_tickRegion fun _ => trivial
  | rejectOffer publicId agentId => exact speaks_rejectOffer

end Programs

section Runs
variable (hmacSha256 : String → String → String) (cfg : Config)

theorem exec_emitted {Row : OrderEntity → Prop} {Offer : String → CacheValue → Prop} {p : Pid}
    {o : Op} {e : Env} {w w' : World} {r : Except Err o.Res} (ho : o.Emits Row Offer)
    (h : ∀ m ∈ w.emitted, m.Proper Row Offer) (hx : exec p o e w = some (r, w')) :
    ∀ m ∈ w'.emitted, m.Proper Row Offer := by
  cases o with
  | emit m =>
    simp only [exec, Option.some.injEq, Prod.mk.injEq] at hx
    obtain ⟨-, rfl⟩ := hx
    intro m' hm'
    rcases List.mem_append.mp hm' with hold | hnew
    · exact h m' hold
    · rw [List.mem_singleton.mp hnew]
      exact ho
  | sql c q => rcases exec_sql_cases hx with rfl | ⟨_, rfl⟩ | ⟨_, rfl, _⟩ <;> exact h
  | commit =>
    simp only [exec] at hx
    split_ifs at hx
    · simp only [Option.some.injEq, Prod.mk.injEq] at hx
      rw [← hx.2]
      exact h
    · split at hx <;> simp only [Option.some.injEq, Prod.mk.injEq] at hx <;> rw [← hx.2] <;>
        exact h
  | rollback | now | getBranch b | getCustomerAddress a | getBranchProducts b ps
  | createSession i | random36 | fetchRefund ps =>
    simp only [exec, Option.some.injEq, Prod.mk.injEq] at hx
    rw [← hx.2]
    exact h
  | start | randomUUID | reserveStock b is k | undoReserveStock b is k | cache c =>
    simp only [exec] at hx
    split_ifs at hx <;> simp only [Option.some.injEq, Prod.mk.injEq] at hx <;> rw [← hx.2] <;>
      exact h

/-- In every interleaving each emission goes to a room of an order that was read on the way. -/
theorem emissions_proper {w : World} (hquiet : w.emitted = []) (work : Pid → Option Work)
    {t : Sys Pid Op Op.Res Err World Unit}
    (h : machine.Reaches anyOp (working hmacSha256 cfg work w) t) :
    ∀ m ∈ t.world.emitted,
      m.Proper (RowBetween (working hmacSha256 cfg work w) t)
        (OfferBetween (working hmacSha256 cfg work w) t) := by
  let s := working hmacSha256 cfg work w
  refine Machine.Reaches.keeps_told
    (J := fun v => ∀ m ∈ v.emitted, m.Proper (RowBetween s t) (OfferBetween s t))
    (P := fun _ => Op.Emits (RowBetween s t) (OfferBetween s t))
    (R := Op.Tells (RowBetween s t) (OfferBetween s t)) (Q := fun _ => True)
    ?_ ?_ (fun p o e v r v' ho _ hv hx => exec_emitted ho hv hx) (fun p v hv => hv) ?_ ?_ h
  · intro p prog hprog
    obtain ⟨piece, _, rfl⟩ := Option.map_eq_some_iff.mp hprog
    exact speaks_work hmacSha256 cfg piece
  · intro u u' p o e a hsu huu' hut hx
    -- The states before and after the step are both on the way.
    refine tells_of_exec hx (fun order ho => ⟨u', hsu.trans huu', hut, ho⟩) ?_
    rintro publicId value (hbefore | hafter)
    · exact ⟨u, hsu, huu'.trans hut, hbefore⟩
    · exact ⟨u', hsu.trans huu', hut, hafter⟩
  · intro x v hv
    cases x <;> exact hv
  · intro m hm
    have hnone : m ∈ w.emitted := hm
    rw [hquiet] at hnone
    cases hnone

end Runs

end OrderService
