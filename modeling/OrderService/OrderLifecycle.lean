import OrderService.DeliveredSettled
import OrderService.LifecycleInTurn
import OrderService.Services.Presence
import OrderService.StatusGraph

/-! Whatever calls run one after another, every order row agrees with its status and its stamps
with each other. -/
namespace OrderService
open ReadCommitted Interleaving

section Services
variable {ok : Pid → Op → Env → World → Prop} {p : Pid} {w : World} {cfg : Config}

/-- The row that is found has the public id that was asked for. -/
theorem order_publicId {db : Db} {publicId : String} {o : OrderEntity}
    (h : db.order publicId = some o) : db.order o.publicId = some o := by
  have hid : o.publicId = publicId := by simpa using List.find?_some h
  rw [hid]
  exact h

theorem resolveStatusActor_ne_system {actor : ActorContext} {order : OrderEntity}
    {statusActor : StatusActor} (h : resolveStatusActor actor order = .ok statusActor) :
    statusActor ≠ .system := by
  unfold resolveStatusActor at h
  split_ifs at h <;> cases h <;> decide

theorem wp_updateStatus_inTurn {actor : ActorContext} {dto : UpdateOrderStatusRequest}
    {region orderId : String} :
    wp machine ok (inTurnSpec p) p (updateStatus actor dto region orderId)
      (OnOk fun _ _ => True) w := by
  have hS := inTurnSpec_isolated p
  apply wp_seq
  apply wp_lookup
  intro w₁ hstore₁
  cases hfound : w.store.db.order orderId with
  | none => trivial
  | some order =>
    apply wp_seq
    cases hactor : resolveStatusActor actor order with
    | error err => trivial
    | ok statusActor =>
      change wp _ _ _ _ (assertTransition order.status dto.status _ >>= _) _ _
      rw [assertTransition_eq]
      cases hcheck : checkTransition order.status dto.status _ with
      | error err => trivial
      | ok stamp =>
        obtain ⟨rule, hrule, hallowed, rfl⟩ := checkTransition_ok hcheck
        -- Only the system assigns, and it makes no calls.
        have htarget : dto.status ≠ .assigned := by
          intro hassigned
          rw [hassigned] at hrule
          cases hsource : order.status <;> rw [hsource] at hrule <;> cases hrule
          exact resolveStatusActor_ne_system hactor (List.mem_singleton.mp hallowed)
        change wp _ _ _ _ (startTransaction >>= _) _ _
        apply wp_seq
        apply wp_start_sees
        intro w₂ _ hdb₂ hlog₂ _
        apply wp_seq
        apply wp_mono (Q := OnOk fun _ _ => True)
        · intro r w₃ _
          cases r with
          | error err => trivial
          | ok updated =>
            apply wp_outside hS _ fun _ _ => trivial
            apply Prog.calls_do (calls_outer rfl)
            intro _ _
            apply Prog.calls_do (calls_outer rfl)
            intro _ _
            exact Prog.calls_discard (calls_outer rfl) trivial
        refine wp_catch_ok ?_ fun err w' => wp_abort hS
        apply wp_seq
        have ho₂ : w₂.store.db.order order.publicId = some order := by
          rw [hdb₂, hstore₁]
          exact order_publicId hfound
        apply wp_move_pool ho₂ hrule htarget
        intro updated w₃ hlog₃
        apply wp_emptyLog _ (hlog₃.trans hlog₂)
        refine within_do ?_ fun _ => within_do (within_any trivial) fun _ => trivial
        unfold emitTransition
        split
        · trivial
        · exact within_insertOutboxEvent fun _ _ => trivial

theorem wp_pickup_inTurn {order : OrderEntity}
    (ho : w.store.db.order order.publicId = some order) :
    wp machine ok (inTurnSpec p) p (pickup order) (OnOk fun _ _ => True) w := by
  unfold pickup
  split_ifs with hstatus
  · trivial
  have hrule : transitions order.status .picked = some ⟨[.agent], some .pickedAt, false⟩ := by
    rw [not_not.mp hstatus]
    rfl
  apply wp_seq
  apply wp_move_pool ho hrule (by decide)
  intro updated w₁ _
  apply wp_seq
  exact wp_outside (inTurnSpec_isolated p) (calls_emitDeliveryStatus fun _ => rfl)
    fun _ _ => trivial

theorem wp_deliver_inTurn {order : OrderEntity} {agentId : Nat} {region : String}
    (ho : w.store.db.order order.publicId = some order) :
    wp machine ok (inTurnSpec p) p (deliver cfg order agentId region)
      (OnOk fun _ _ => True) w := by
  have hS := inTurnSpec_isolated p
  unfold deliver
  split_ifs with hstatus
  · trivial
  have hrule : transitions order.status .delivered = some ⟨[.agent], some .deliveredAt, false⟩ := by
    rw [not_not.mp hstatus]
    rfl
  apply wp_seq
  apply wp_start_sees
  intro w₁ h₁ _ _ _
  refine wp_catch_ok ?_ fun err w' => wp_abort hS
  apply wp_seq
  apply wp_move_sees h₁ ho hrule (by decide)
  intro updated w₂ db₂ h₂
  apply wp_seq
  apply wp_sees calls_beside_settle h₂
  intro _ w₃ h₃
  apply wp_seq
  apply wp_commit_sees h₃
  intro w₄ _
  apply wp_outside hS _ fun _ _ => trivial
  apply Prog.calls_do (calls_outer rfl)
  intro _ _
  apply Prog.calls_do (calls_emitDeliveryStatus fun _ => rfl)
  intro _ _
  exact Prog.calls_discard (calls_outer rfl) trivial

theorem wp_agentUpdateStatus_inTurn {publicId region : String} {agentId : Nat}
    {action : DeliveryAction} :
    wp machine ok (inTurnSpec p) p (agentUpdateStatus cfg publicId agentId region action)
      (OnOk fun _ _ => True) w := by
  apply wp_seq
  apply wp_lookup
  intro w₁ hstore₁
  cases hfound : w.store.db.order publicId with
  | none => trivial
  | some order =>
    have ho : w₁.store.db.order order.publicId = some order := by
      rw [hstore₁]
      exact order_publicId hfound
    dsimp only
    split_ifs
    · trivial
    cases action with
    | picked => exact wp_pickup_inTurn ho
    | delivered => exact wp_deliver_inTurn ho
    | _ => trivial

/-- A statement in the transaction that only reads. -/
theorem within_reads {q : Sql} (hq : ∀ x, ¬q.MayWrite x) :
    (sql .trx q).Calls (Op.Appends Write.OffOrders) (fun _ _ => True) fun _ => True :=
  calls_sql (fun x hx => absurd hx (hq x)) fun _ _ => trivial

/-- The processing of a webhook, up to the commit. -/
theorem wp_applyEvent_inTurn {event : Json} {ctx : WebhookContext} {order : OrderEntity}
    {session : PaymentSessionEntity} {db : Db} (h : Sees p db w)
    (ho : db.order order.publicId = some order) :
    wp machine ok (inTurnSpec p) p (applyEvent event ctx order session)
      (OnOk fun _ v => ∃ db', Sees p db' v) w := by
  unfold applyEvent
  split_ifs
  · apply wp_seq
    apply wp_sees (calls_updateSession_beside.weaken fun o ho => ho.1) h
    intro _ w₁ h₁
    apply wp_seq
    apply wp_sees (calls_fetchRestaurantOwner rfl) h₁
    intro ownerId w₂ h₂
    apply wp_seq
    apply wp_sees (calls_recordCharge_beside.weaken fun o ho => ho.1) h₂
    intro _ w₃ h₃
    apply wp_seq
    apply wp_sees (calls_now rfl fun _ => trivial) h₃
    intro completedAt w₄ h₄
    apply wp_seq
    apply wp_sees (calls_paymentEvent_beside.weaken fun o ho => ho.1) h₄
    intro _ w₅ h₅
    unfold placePaidOrder
    split_ifs with hpending
    case neg => exact ⟨db, h₅⟩
    have hrule : transitions order.status .placed = some ⟨[.system], none, false⟩ := by
      rw [hpending]
      rfl
    apply wp_seq
    apply wp_move_sees h₅ ho hrule (by decide)
    intro placed w₆ db₆ h₆
    apply wp_seq
    refine wp_sees (within_reads ?_) h₆ fun items w₇ h₇ => ?_
    · exact fun x hx => hx
    apply wp_seq
    apply wp_sees (calls_paymentEvent_beside.weaken fun o ho => ho.1) h₇
    exact fun _ w₈ h₈ => ⟨db₆, h₈⟩
  · apply wp_seq
    apply wp_sees (calls_updateSession_beside.weaken fun o ho => ho.1) h
    intro _ w₁ h₁
    apply wp_seq
    apply wp_sees (calls_recordCharge_beside.weaken fun o ho => ho.1) h₁
    intro _ w₂ h₂
    apply wp_seq
    apply wp_sees (calls_now rfl fun _ => trivial) h₂
    intro failedAt w₃ h₃
    apply wp_seq
    apply wp_sees (calls_paymentEvent_beside.weaken fun o ho => ho.1) h₃
    exact fun _ w₄ h₄ => ⟨db, h₄⟩
  · exact ⟨db, h⟩

theorem wp_processWebhook_inTurn {event : Json} {ctx : WebhookContext} {insertedId : Nat} {db : Db}
    (h : Sees p db w) :
    wp machine ok (inTurnSpec p) p (processWebhook event ctx insertedId)
      (OnOk fun _ _ => True) w := by
  apply wp_seq
  apply wp_mono (Q := OnOk fun found v => Sees p db v ∧ ∀ o, found = some o →
    db.order o.publicId = some o)
  · intro r w₁ hr
    cases r with
    | error err => trivial
    | ok found =>
      obtain ⟨h₁, ho⟩ := hr
      cases found with
      | none => trivial
      | some order =>
        apply wp_seq
        refine wp_sees (within_reads ?_) h₁ fun session w₂ h₂ => ?_
        · exact fun x hx => hx
        cases session with
        | none => trivial
        | some session =>
          apply wp_seq
          apply wp_mono _ (wp_applyEvent_inTurn h₂ (ho order rfl))
          intro r w₃ hr₃
          cases r with
          | error err => trivial
          | ok broadcast =>
            obtain ⟨db₃, h₃⟩ := hr₃
            apply wp_seq
            apply wp_sees (calls_now rfl fun _ => trivial) h₃
            intro processedAt w₄ h₄
            apply wp_seq
            refine wp_sees (calls_sql ?_ fun _ _ => trivial) h₄ ?_
            · rintro x rfl
              trivial
            intro _ w₅ h₅
            apply wp_seq
            apply wp_commit_sees h₅
            intro w₆ _
            exact wp_outside (inTurnSpec_isolated p) calls_announcePlaced fun _ _ => trivial
  · unfold findReferencedOrder
    split
    · apply wp_find_sees h
      intro v hv
      exact ⟨hv, fun o ho => order_publicId ho⟩
    · exact ⟨h, fun o ho => by cases ho⟩
    · trivial

theorem wp_webhook_inTurn {hmacSha256 : String → String → String} {rawBody : Option Json}
    {signature region : String} (hlog : w.log p = []) :
    wp machine ok (inTurnSpec p) p
      (verifyAndProcessWebhook hmacSha256 cfg rawBody signature region)
      (OnOk fun _ _ => True) w := by
  have hempty : ∀ x ∈ w.log p, x.OffOrders := by
    rw [hlog]
    exact fun x hx => absurd hx List.not_mem_nil
  unfold verifyAndProcessWebhook
  split
  · trivial
  split_ifs
  · trivial
  · trivial
  apply wp_seq
  refine wp_offOrders (within_read ?_) hempty fun provider w₁ hlog₁ => ?_
  · exact fun x hx => hx
  cases provider with
  | none => trivial
  | some provider =>
    dsimp only
    split_ifs
    · trivial
    apply wp_seq
    apply wp_fromExcept
    intro isValid _
    split_ifs
    · trivial
    apply wp_seq
    apply wp_fromExcept
    intro transactionId _
    apply wp_seq
    refine wp_offOrders ?_ hlog₁ fun inserted w₂ _ => ?_
    · refine within_do within_now fun now => within_sql ?_
      rintro x ⟨id, rfl⟩
      trivial
    · cases inserted with
      | none => trivial
      | some insertedEvent =>
        apply wp_seq
        apply wp_start_sees
        intro w₃ h₃ _ _ _
        refine wp_catch_ok (wp_processWebhook_inTurn h₃) fun err w₄ => ?_
        apply wp_rollback_then
        refine within_do within_now fun t => within_do (within_sql ?_) fun _ => trivial
        rintro x rfl
        trivial

theorem wp_takeOrder_inTurn {publicId : String} {agentId : Nat} {db : Db} (h : Sees p db w) :
    wp machine ok (inTurnSpec p) p (takeOrder publicId agentId) (OnOk fun _ _ => True) w := by
  have hS := inTurnSpec_isolated p
  apply wp_seq
  apply wp_seq
  apply wp_now_ok hS
  intro w₁ hr₁ _
  have h₁ := h.later hr₁
  obtain ⟨log, hlog₁⟩ := h₁.active
  apply wp_trx_ok hS hlog₁
  intro w₂ e claimed hr₂ _ _ _ _ hreply
  have h₂ := h₁.later hr₂
  cases claimed with
  | none =>
    apply wp_seq
    exact wp_outside hS calls_releaseClaim fun _ _ => trivial
  | some row =>
    have hwrites := (claimReady_reply hreply).1
    apply wp_seq
    apply wp_commit_sees (h₂.writes hwrites ?_)
    · exact fun _ _ => trivial
    · exact h₂.consistent.assign h₁.consistent.stamped (hr₂ rfl).2.2.2 agentId

theorem wp_releasing_inTurn {publicId : String} {body : Svc OrderEntity}
    (hbody : wp machine ok (inTurnSpec p) p body (OnOk fun _ _ => True) w) :
    wp machine ok (inTurnSpec p) p (releasingOnError publicId body) (OnOk fun _ _ => True) w := by
  refine wp_catch_ok hbody fun err w₁ => ?_
  apply wp_rollback_then
  exact within_do (within_outside calls_releaseClaim) fun _ => trivial

theorem wp_claim_inTurn {publicId region : String} {agentId : Nat} :
    wp machine ok (inTurnSpec p) p (claim cfg publicId agentId region)
      (OnOk fun _ _ => True) w := by
  have hS := inTurnSpec_isolated p
  apply wp_seq
  apply wp_outer_ok hS rfl
  intro w₁ e offered w₂ _ _ _ _ _ _ _ _
  cases offered with
  | none => trivial
  | some value =>
    dsimp only
    split_ifs
    case neg => trivial
    apply wp_seq
    apply wp_outer_ok hS rfl
    intro w₃ e ok w₄ _ _ _ _ _ _ _ _
    split_ifs
    · trivial
    apply wp_seq
    apply wp_start_sees
    intro w₅ h₅ _ _ _
    apply wp_seq
    apply wp_mono _ (wp_releasing_inTurn ?_)
    · intro r w₆ _
      cases r with
      | error err => trivial
      | ok updated => exact wp_outside hS calls_afterAssignment fun _ _ => trivial
    apply wp_seq
    apply wp_find_sees h₅
    intro w₆ h₆
    cases w₄.store.db.order publicId with
    | none =>
      apply wp_seq
      exact wp_outside hS calls_releaseClaim fun _ _ => trivial
    | some o => exact wp_takeOrder_inTurn h₆

theorem wp_adminAssign_inTurn {publicId region : String} {agentId : Nat} :
    wp machine ok (inTurnSpec p) p (adminAssign cfg publicId agentId region)
      (OnOk fun _ _ => True) w := by
  have hS := inTurnSpec_isolated p
  apply wp_seq
  apply wp_outer_ok hS rfl
  intro w₁ e ok w₂ _ _ _ _ _ _ _ _
  split_ifs
  · trivial
  apply wp_seq
  apply wp_start_sees
  intro w₃ h₃ _ _ _
  apply wp_seq
  apply wp_mono _ (wp_releasing_inTurn (wp_takeOrder_inTurn h₃))
  intro r w₄ _
  cases r with
  | error err => trivial
  | ok updated => exact wp_outside hS calls_afterAssignment fun _ _ => trivial

/-- The id of a new order is none of those in the table. -/
theorem wp_randomUUID_inTurn {P : String → World → Prop}
    (hP : ∀ id v, v.store = w.store → id ∈ v.uuids →
      id ∉ w.store.db.orders.map OrderEntity.publicId → P id v) :
    wp machine ok (inTurnSpec p) p (Prog.perform Op.randomUUID) (OnOk P) w := by
  apply wp_outer_ok (inTurnSpec_isolated p) rfl
  intro w₁ e id w₂ hr hi _ hx _ hstore _ _
  have hsame : w₁.store = w.store := (hr rfl).1
  simp only [exec] at hx
  split_ifs at hx with hdrawn
  simp only [Option.some.injEq, Prod.mk.injEq, Except.ok.injEq] at hx
  obtain ⟨rfl, rfl⟩ := hx
  refine hP _ _ hsame List.mem_cons_self fun hmem => hdrawn ?_
  rw [← hsame] at hmem
  obtain ⟨o, ho, hid⟩ := List.mem_map.mp hmem
  rw [← hid]
  exact hi.orders.named o ho

theorem wp_createOrder_inTurn {data : OrderData} {db : Db} (h : Sees p db w)
    (hstatus : data.status = .placed ∨ data.status = .pendingPayment)
    (huuid : data.publicId ∈ w.uuids)
    (hfresh : data.publicId ∉ db.orders.map OrderEntity.publicId)
    {P : OrderEntity → World → Prop} (hP : ∀ o v db', Sees p db' v → P o v) :
    wp machine ok (inTurnSpec p) p (createOrder data .trx) (OnOk P) w := by
  have hS := inTurnSpec_isolated p
  apply wp_seq
  apply wp_now_ok hS
  intro w₁ hr₁ _
  have h₁ := h.later hr₁
  obtain ⟨log, hlog₁⟩ := h₁.active
  apply wp_trx_ok hS hlog₁
  intro w₂ e row hr₂ _ _ _ _ hreply
  have h₂ := h₁.later hr₂
  have huuid₂ : data.publicId ∈ w₂.uuids := by
    rw [(hr₂ rfl).2.2.1, (hr₁ rfl).2.2.1]
    exact huuid
  cases howner : data.restaurantOwnerId with
  | none =>
    simp only [World.inTrx, Sql.eval, howner] at hreply
    cases hreply
  | some ownerId =>
    have hwrites : (w₂.inTrx p (.createOrder data w₁.clock)).writes
        = [.insertOrder (data.toEntity w₂.seqs.orders ownerId w₁.clock)] := by
      simp only [World.inTrx, Sql.eval, howner]
      rfl
    refine hP row _ _ (h₂.writes hwrites ?_)
    exact h₂.consistent.insert (hr₂ rfl).2.2.2 hstatus huuid₂ hfresh

theorem wp_insertOrder_inTurn {data : OrderData} {lines : Nat → List OrderItemData} {db : Db}
    (h : Sees p db w) (hstatus : data.status = .placed ∨ data.status = .pendingPayment)
    (huuid : data.publicId ∈ w.uuids)
    (hfresh : data.publicId ∉ db.orders.map OrderEntity.publicId)
    {P : OrderEntity × List OrderItemEntity → World → Prop}
    (hP : ∀ a v, (∀ log, v.store.txn p ≠ .active log) → P a v) :
    wp machine ok (inTurnSpec p) p (insertOrder data lines) (OnOk P) w := by
  unfold insertOrder
  apply wp_seq
  apply wp_createOrder_inTurn h hstatus huuid hfresh
  intro order w₁ db₁ h₁
  apply wp_seq
  refine wp_sees ?_ h₁ fun items w₂ h₂ => ?_
  · have hnow : Op.now.Appends Write.OffOrders := rfl
    apply Prog.calls_do (calls_now hnow fun _ => trivial)
    intro now _
    refine calls_sql ?_ fun _ _ => trivial
    rintro x ⟨row, rfl⟩
    trivial
  apply wp_seq
  refine wp_sees (calls_onlyIf ?_) h₂ fun _ w₃ h₃ => ?_
  · refine calls_sql ?_ fun _ _ => trivial
    rintro x ⟨id, clock, rfl⟩
    trivial
  apply wp_seq
  apply wp_commit_sees h₃
  exact fun w₄ hclosed => hP _ w₄ hclosed

theorem wp_submitOrder_inTurn {actor : ActorContext} {resolvedRegion : String} {branch : Branch}
    {address : CoreCustomerAddress} {products : List CoreBranchProduct}
    {dto : CreateOrderRequest} :
    wp machine ok (inTurnSpec p) p
      (submitOrder cfg actor resolvedRegion branch address products dto)
      (OnOk fun _ _ => True) w := by
  have hS := inTurnSpec_isolated p
  unfold submitOrder
  apply wp_seq
  apply wp_randomUUID_inTurn
  intro publicId w₁ hstore₁ huuid₁ hfresh
  apply wp_seq
  apply wp_outer_ok hS rfl
  intro w₂ e _ w₃ hr₂ _ _ hx₃ _ hstore₃ _ _
  have hstore : w₃.store = w.store := hstore₃.trans ((hr₂ rfl).1.trans hstore₁)
  have huuid₃ : publicId ∈ w₃.uuids := by
    apply (exec_clock hx₃).2
    rw [(hr₂ rfl).2.2.1]
    exact huuid₁
  apply wp_seq
  apply wp_start_sees
  intro w₄ h₄ _ _ huuids₄
  apply wp_seq
  refine wp_catch_ok (wp_insertOrder_inTurn h₄ ?_ ?_ ?_ ?_) fun err v => ?_
  · exact placedOrderData_status actor resolvedRegion branch address dto publicId _
  · rw [huuids₄]
    exact huuid₃
  · rw [hstore]
    exact hfresh
  · exact fun placed w₅ hclosed => wp_closed (calls_afterPlacement fun _ => trivial) hclosed
  · apply wp_seq
    apply wp_rollback hS
    intro v₂ _ _ _
    apply wp_seq
    apply wp_outside hS _ fun _ _ => trivial
    exact Prog.calls_catch (calls_outer rfl) fun _ => trivial

theorem wp_placeOrder_inTurn {actor : ActorContext} {region : Option String}
    {dto : CreateOrderRequest} :
    wp machine ok (inTurnSpec p) p (placeOrder cfg actor region dto) (OnOk fun _ _ => True) w := by
  have hS := inTurnSpec_isolated p
  unfold placeOrder
  apply wp_seq
  apply wp_outside hS (calls_outer rfl)
  intro branch w₁
  split_ifs
  · trivial
  apply wp_seq
  apply wp_outside hS (calls_outer rfl)
  intro flag w₂
  split_ifs
  · trivial
  apply wp_seq
  apply wp_fromExcept
  intro resolved _
  split_ifs
  · trivial
  apply wp_seq
  apply wp_outside hS (calls_outer rfl)
  intro address w₃
  split_ifs
  · trivial
  apply wp_seq
  apply wp_outside hS (calls_outer rfl)
  intro products w₄
  split_ifs
  · trivial
  · exact wp_submitOrder_inTurn
  · trivial

end Services

section Runs
variable (hmacSha256 : String → String → String) (cfg : Config)

theorem wp_call_inTurn {ok : Pid → Op → Env → World → Prop} {p : Pid} {w : World} (c : Call)
    (hlog : w.log p = []) :
    wp machine ok (inTurnSpec p) p (c.prog hmacSha256 cfg) (OnOk fun _ _ => True) w := by
  have hreply : ∀ {α : Type} {prog : Svc α} (f : α → Reply),
      wp machine ok (inTurnSpec p) p prog (OnOk fun _ _ => True) w →
      wp machine ok (inTurnSpec p) p (do let r ← prog; pure (f r)) (OnOk fun _ _ => True) w := by
    intro α prog f h
    apply wp_seq
    apply wp_mono _ h
    intro r v _
    cases r <;> trivial
  cases c with
  | placeOrder actor region dto => exact hreply _ wp_placeOrder_inTurn
  | webhook rawBody signature region => exact hreply _ (wp_webhook_inTurn hlog)
  | updateStatus actor dto region orderId => exact hreply _ wp_updateStatus_inTurn
  | claim publicId agentId region => exact hreply _ wp_claim_inTurn
  | adminAssign publicId agentId region => exact hreply _ wp_adminAssign_inTurn
  | agentUpdateStatus publicId agentId region action => exact hreply _ wp_agentUpdateStatus_inTurn
  | recordPayout input =>
    exact hreply _ (wp_emptyLog (within_recordPayout (fun _ _ _ _ => trivial) fun _ _ _ _ => trivial)
      hlog)
  | refundPayment input =>
    exact hreply _ (wp_emptyLog (within_refundPayment (fun _ _ => trivial) fun _ _ _ _ => trivial)
      hlog)

/-- One call by itself, with what the environment does before each of its operations and answers
to it, until it ends or dies; an agent who goes offline; or the environment alone. -/
inductive Turn where
  | call (c : Call) (answers : List (List Ext × Env))
  | goOffline (agentId : Nat) (answers : List (List Ext × Env))
  | ext (x : Ext)

/-- One turn after another; the calls are numbered from `n` on. -/
def takeTurns : Pid → List Turn → World → World
  | _, [], w => w
  | n, .call c es :: rest, w =>
    takeTurns (n + 1) rest (machine.paced.runAlone n (c.prog hmacSha256 cfg) es w).2
  | n, .goOffline agentId es :: rest, w =>
    takeTurns (n + 1) rest (machine.paced.runAlone n (goOffline agentId) es w).2
  | n, .ext x :: rest, w => takeTurns n rest (machine.ext x w)

/-- Between two turns no call from `n` on has a transaction. -/
structure BetweenTurns (n : Pid) (w : World) : Prop where
  inv : TurnInv w
  idle : ∀ q, n ≤ q → w.store.txn q = .idle

theorem betweenTurns_runAlone {n : Pid} {w : World} (h : BetweenTurns n w) {α : Type}
    {prog : Svc α} (es : List (List Ext × Env))
    (hwp : wp machine anyOp (inTurnSpec n) n prog (OnOk fun _ _ => True) w) :
    BetweenTurns (n + 1) (machine.paced.runAlone n prog es w).2 := by
  refine ⟨?_, ?_⟩
  · have hpaced := wp_paced (inTurnSpec_admits n) hwp
    have hmeets : RunMeets machine.paced (fun p o e w => anyOp p o e.2 (machine.moves e.1 w))
        (fun _ => True) n prog es w := runMeets_of_answers prog (fun _ _ _ _ => trivial) w
    have hsound := runAlone_sound ((inTurnSpec_admits n).refl n) h.inv hpaced hmeets
    cases hrun : machine.paced.runAlone n prog es w with
    | mk outcome w' =>
      rw [hrun] at hsound
      cases outcome with
      | returned a => exact hsound.1
      | threw e => exact hsound.1
      | crashed =>
        obtain ⟨v, hv, _, rfl⟩ := hsound
        exact ⟨rollback_locked hv.locked, hv.orders⟩
  · have hkeeps := Machine.paced_keeps (M := machine) (p := n)
      (J := fun v => Locked engine v.store ∧ ∀ q, n + 1 ≤ q → v.store.txn q = .idle) ?_ ?_ ?_ prog es
      ⟨h.inv.locked, fun q hq => h.idle q (Nat.le_of_succ_le hq)⟩
    · exact hkeeps.2
    · intro o e v r v' hv hx
      refine ⟨exec_locked hv.1 hx, fun q hq => ?_⟩
      have hne : q ≠ n := (Nat.lt_of_succ_le hq).ne'
      exact (exec_rely hv.1 hx hne).txn.trans (hv.2 q hq)
    · intro v hv
      refine ⟨rollback_locked hv.1, fun q hq => ?_⟩
      have hne : q ≠ n := (Nat.lt_of_succ_le hq).ne'
      exact (rollback_rely (E := engine) hne).txn.trans (hv.2 q hq)
    · intro x v hv
      cases x <;> exact hv

variable {n : Pid} {w : World}

theorem BetweenTurns.log (h : BetweenTurns n w) : w.log n = [] := by
  rw [World.log, h.idle n le_rfl]
  rfl

theorem betweenTurns_atRest (hw : w.AtRest) (hempty : w.store.db.orders = []) :
    BetweenTurns n w := by
  refine ⟨⟨hw.locked, ?_⟩, fun q _ => hw.txn q⟩
  rw [hempty]
  exact ⟨by simp, by simp, by simp, List.nodup_nil⟩

theorem betweenTurns_call (h : BetweenTurns n w) (c : Call) (es : List (List Ext × Env)) :
    BetweenTurns (n + 1) (machine.paced.runAlone n (c.prog hmacSha256 cfg) es w).2 :=
  betweenTurns_runAlone h es (wp_call_inTurn hmacSha256 cfg c h.log)

/-- Going offline writes nothing in the shard. -/
theorem within_goOffline {H : Write → Prop} (agentId : Nat) : Within H (goOffline agentId) :=
  within_do (within_read fun _ hx => hx) fun _ => calls_onlyIf trivial

theorem betweenTurns_goOffline (h : BetweenTurns n w) (agentId : Nat)
    (es : List (List Ext × Env)) :
    BetweenTurns (n + 1) (machine.paced.runAlone n (goOffline agentId) es w).2 :=
  betweenTurns_runAlone h es (wp_emptyLog (within_goOffline agentId) h.log)

theorem ext_store (x : Ext) (w : World) : (machine.ext x w).store = w.store := by
  cases x <;> rfl

theorem betweenTurns_ext (h : BetweenTurns n w) (x : Ext) :
    BetweenTurns n (machine.ext x w) := by
  refine ⟨((inTurnSpec_admits n).ext x w h.inv).1, fun q hq => ?_⟩
  rw [ext_store]
  exact h.idle q hq

theorem betweenTurns_run (turns : List Turn) {n : Pid} {w : World} (h : BetweenTurns n w) :
    OrdersConsistent (takeTurns hmacSha256 cfg n turns w).store.db.orders
      (takeTurns hmacSha256 cfg n turns w).uuids (takeTurns hmacSha256 cfg n turns w).clock := by
  induction turns generalizing n w with
  | nil => exact h.inv.orders
  | cons turn turns ih =>
    cases turn with
    | call c es => exact ih (betweenTurns_call hmacSha256 cfg h c es)
    | goOffline agentId es => exact ih (betweenTurns_goOffline h agentId es)
    | ext x => exact ih (betweenTurns_ext h x)

/-- From a shard without orders on, after any turns, every row of `orders` is consistent. -/
theorem order_rows_consistent (turns : List Turn) (w : World) (hw : w.AtRest)
    (hempty : w.store.db.orders = []) :
    ∀ o ∈ (takeTurns hmacSha256 cfg 0 turns w).store.db.orders, RowConsistent o :=
  (betweenTurns_run hmacSha256 cfg turns (betweenTurns_atRest hw hempty)).rows

end Runs

section Samples

/-- Two seconds pass before each operation. -/
def unhurried (n : Nat) (e : Env) : List (List Ext × Env) := List.replicate n ([.tick 2000], e)

/-- A cash order is brought; an agent tries to go offline meanwhile. -/
def lifecycleTurns : List Turn :=
  [.call placeCashOrder (unhurried 16 kosharyAnswers), .ext (.tick 60000),
   .call (.updateStatus restaurantOwner ⟨.accepted, none⟩ "eg" "order-1") (unhurried 9 {}),
   .call (.updateStatus restaurantOwner ⟨.preparing, none⟩ "eg" "order-1") (unhurried 9 {}),
   .call (.updateStatus restaurantOwner ⟨.ready, none⟩ "eg" "order-1") (unhurried 9 {}),
   .call (.adminAssign "order-1" 7 "eg") (unhurried 20 {}),
   .call (.agentUpdateStatus "order-1" 7 "eg" .picked) (unhurried 10 {}),
   .goOffline 7 (unhurried 1 {}),
   .call (.agentUpdateStatus "order-1" 7 "eg" .delivered) (unhurried 30 kosharyAnswers)]

theorem order_rows_consistent_delivered :
    ((takeTurns (fun _ _ => "") sampleConfig 0 lifecycleTurns emptyShard).store.db.orders.map
        fun o => (o.status, o.stamps)) =
      [(.delivered, [some 16000, some 96000, some 130000, some 146000, some 166000, some 180000,
        none, none])] ∧
      ∀ o ∈ (takeTurns (fun _ _ => "") sampleConfig 0 lifecycleTurns emptyShard).store.db.orders,
        RowConsistent o :=
  ⟨by decide +kernel, order_rows_consistent _ sampleConfig lifecycleTurns emptyShard
    emptyShard_atRest rfl⟩

end Samples

end OrderService
