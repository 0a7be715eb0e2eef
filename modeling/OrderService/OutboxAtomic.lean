import OrderService.PlacementEffects
import OrderService.Spending

/-! The transactional outbox: a status change and the event that tells of it are committed
together, or none of them is, in every operation whose transaction covers both. -/
namespace OrderService
open ReadCommitted Interleaving

section Statement

/-- The event that tells of an order's new status. -/
def eventFor : OrderStatus → Option EventType
  | .placed => some .orderPlaced
  | .delivered => some .orderDelivered
  | status => outboxEventForStatus status

/-- The write gives the order that status. -/
def Write.Gives (publicId : String) (status : OrderStatus) : Write → Prop
  | .insertOrder row => row.publicId = publicId ∧ row.status = status
  | .setOrderStatus id next _ _ => id = publicId ∧ next = status
  | _ => False

/-- The write is the outbox row of that event of the order. -/
def Write.Tells (publicId : String) (eventType : EventType) : Write → Prop
  | .insertOutbox row => row.aggregateId = publicId ∧ row.eventType = eventType
  | _ => False

/-- A status that has an event is given if and only if the event is told. -/
def Told (ws : List Write) : Prop :=
  ∀ publicId status eventType, eventFor status = some eventType →
    ((∃ x ∈ ws, x.Gives publicId status) ↔ ∃ x ∈ ws, x.Tells publicId eventType)

/-- The operations that change the status of an order and emit the matching event. -/
def Call.announces : Call → Bool
  | .placeOrder _ _ dto => dto.paymentMethod = .cod
  | .webhook .. => true
  | .updateStatus _ dto _ _ => (outboxEventForStatus dto.status).isSome
  | .agentUpdateStatus _ _ _ action => action = .delivered
  | _ => false

/-- The checks of `OrderService.updateStatus` let the actor through. -/
def mayMove (actor : ActorContext) (dto : UpdateOrderStatusRequest) (order : OrderEntity) : Bool :=
  match resolveStatusActor actor order with
  | .error _ => false
  | .ok statusActor => (checkTransition order.status dto.status
      ⟨statusActor, dto.reason, some order.createdAt, order.acceptedAt⟩).isOk

/-- The answers that are left when the status has been written, after the start of the
transaction, the clock and the write; none when it comes to no write. -/
def statusWritten : List Env → Option (List Env)
  | start :: _ :: update :: rest => if start.fail || update.fail then none else some rest
  | _ => none

/-- An allowed change of `OrderService.updateStatus` that has written the status before the write
of the event fails or the process dies. The first answer is that to the lookup of the order. -/
def Call.losesEvent : Call → List Env → Db → Bool
  | .updateStatus actor dto _ orderId, find :: es, db =>
    !find.fail && (db.order orderId).any (mayMove actor dto) &&
      (statusWritten es).any fun rest => rest.head?.all Env.fail
  | _, _, _ => false

end Statement

section Writes
variable {ws ws' : List Write} {publicId : String} {status : OrderStatus} {eventType : EventType}

theorem eventFor_injective {status' : OrderStatus} (h : eventFor status = some eventType)
    (h' : eventFor status' = some eventType) : status = status' := by
  cases status <;> cases status' <;> simp [eventFor, outboxEventForStatus] at h h' ⊢ <;>
    rw [← h] at h' <;> cases h'

/-- A write that neither gives a status with an event nor tells of one. -/
def Write.Silent (x : Write) : Prop :=
  ∀ publicId status eventType, eventFor status = some eventType →
    ¬x.Gives publicId status ∧ ¬x.Tells publicId eventType

theorem told_append (h : Told ws) (h' : Told ws') : Told (ws ++ ws') := by
  intro publicId status eventType hevent
  have hleft := h publicId status eventType hevent
  have hright := h' publicId status eventType hevent
  simp only [List.mem_append, or_and_right, exists_or]
  rw [hleft, hright]

theorem told_of_silent (h : ∀ x ∈ ws, x.Silent) : Told ws := by
  intro publicId status eventType hevent
  constructor
  · rintro ⟨x, hx, hgives⟩
    exact absurd hgives (h x hx publicId status eventType hevent).1
  · rintro ⟨x, hx, htells⟩
    exact absurd htells (h x hx publicId status eventType hevent).2

/-- The write speaks of no other order, status or event. -/
def Write.Concerns (publicId : String) (status : OrderStatus) (eventType : EventType) (x : Write) :
    Prop :=
  (∀ id next, x.Gives id next → id = publicId ∧ next = status) ∧
    ∀ id kind, x.Tells id kind → id = publicId ∧ kind = eventType

/-- One status and its event, among writes that are silent. -/
theorem told_of_change (status : OrderStatus) (hevent : eventFor status = some eventType)
    (hgives : ∃ x ∈ ws, x.Gives publicId status) (htells : ∃ x ∈ ws, x.Tells publicId eventType)
    (honly : ∀ x ∈ ws, x.Silent ∨ x.Concerns publicId status eventType) : Told ws := by
  intro id next kind hkind
  constructor
  · rintro ⟨x, hx, hgiven⟩
    rcases honly x hx with hsilent | hconcerns
    · exact absurd hgiven (hsilent id next kind hkind).1
    · obtain ⟨rfl, rfl⟩ := hconcerns.1 id next hgiven
      rw [hevent, Option.some.injEq] at hkind
      exact hkind ▸ htells
  · rintro ⟨x, hx, htold⟩
    rcases honly x hx with hsilent | hconcerns
    · exact absurd htold (hsilent id next kind hkind).2
    · obtain ⟨rfl, rfl⟩ := hconcerns.2 id kind htold
      rw [eventFor_injective hkind hevent]
      exact hgives

theorem concerns_setOrderStatus {stamp : Option Stamp} {now : Time} :
    (Write.setOrderStatus publicId status stamp now).Concerns publicId status eventType :=
  ⟨fun _ _ h => ⟨h.1.symm, h.2.symm⟩, fun _ _ h => absurd h id⟩

theorem concerns_insertOutbox {row : OutboxRow} (hid : row.aggregateId = publicId)
    (hkind : row.eventType = eventType) :
    (Write.insertOutbox row).Concerns publicId status eventType :=
  ⟨fun _ _ h => absurd h id, fun _ _ h => ⟨h.1.symm.trans hid, h.2.symm.trans hkind⟩⟩

/-- The events of payments are not those of a status. -/
theorem silent_insertOutbox {row : OutboxRow}
    (h : row.eventType = .paymentCompleted ∨ row.eventType = .paymentFailed) :
    (Write.insertOutbox row).Silent := by
  intro publicId status eventType hevent
  refine ⟨id, fun htells => ?_⟩
  rw [htells.2] at h
  cases status <;> simp [eventFor, outboxEventForStatus] at hevent <;> rw [← hevent] at h <;>
    rcases h with h | h <;> cases h

theorem silent_of_table {x : Write} (horders : x.table ≠ .orders) (houtbox : x.table ≠ .eventsOutbox) :
    x.Silent := by
  intro publicId status eventType _
  cases x with
  | insertOrder row => exact absurd rfl horders
  | setOrderStatus publicId status stamp now => exact absurd rfl horders
  | insertOutbox row => exact absurd rfl houtbox
  | _ => exact ⟨id, id⟩

/-- Whatever the calls committed, commit by commit. -/
def ToldHistory (_ : Db) (history : List (Pid × List Write)) : Prop := ∀ b ∈ history, Told b.2

theorem toldHistory_append {db db' : Db} {history : List (Pid × List Write)} {p : Pid}
    (h : ToldHistory db history) (hws : Told ws) : ToldHistory db' (history ++ [(p, ws)]) := by
  intro b hb
  rcases List.mem_append.mp hb with hb | hb
  · exact h b hb
  · rw [List.mem_singleton.mp hb]
    exact hws

/-- What one call committed in several commits is told if each of them is. -/
theorem told_batchesOf {db : Db} {history : List (Pid × List Write)} (h : ToldHistory db history)
    (p : Pid) : Told (batchesOf p history) := by
  unfold batchesOf
  induction history with
  | nil => exact told_of_silent fun x hx => by cases hx
  | cons b history ih =>
    have hrest := ih fun b' hb' => h b' (List.mem_cons_of_mem b hb')
    by_cases hb : b.1 = p
    · rw [List.filter_cons_of_pos (by simpa using hb), List.flatMap_cons]
      exact told_append (h b List.mem_cons_self) hrest
    · rw [List.filter_cons_of_neg (by simpa using hb)]
      exact hrest

end Writes

section Paths
variable {ok : Pid → Op → Env → World → Prop} {p : Pid} {w : World} {log : List Write}

/-- The open transaction of `p` has written `log`. -/
abbrev Wrote (p : Pid) (log : List Write) (w : World) : Prop := Open (fun _ => True) p log w

theorem anything_kept : Kept (sharedSpec ToldHistory) p fun _ => True :=
  ⟨fun _ _ _ _ => trivial, fun _ _ _ _ _ _ _ _ _ => trivial⟩

theorem told_isolated : Isolated (sharedSpec ToldHistory) p := sharedSpec_isolated ToldHistory p

theorem wrote_started (w : World) : Wrote p [] { w with store := w.store.start p } :=
  ⟨trivial, World.start_txn w p⟩

/-- A part of the transaction that gives no status and tells of none. -/
theorem wp_silent {α : Type} {prog : Svc α} {Q : α → Prop}
    (hc : prog.Calls (Op.Appends Write.Silent) (fun _ _ => True) Q) (h : Wrote p log w)
    {P : α → World → Prop} (hP : ∀ a ws v, Q a → (∀ x ∈ ws, x.Silent) →
      Wrote p (log ++ ws) v → P a v) :
    wp machine ok (sharedSpec ToldHistory) p prog (OnOk P) w := by
  refine wp_mono ?_ (wp_appends (F := fun _ => True) told_isolated (fun _ ho => ho) hc
    (fun _ _ _ _ => trivial) (fun _ _ _ _ _ _ _ _ _ _ => ⟨trivial, fun _ _ => trivial⟩) h.txn
    trivial)
  rintro (err | a) v ⟨_, hQ, ws, htxn, hsilent⟩
  · trivial
  · exact hP a ws v (hQ a rfl) hsilent ⟨trivial, htxn⟩

/-- The transaction moves the order, and its row comes back. -/
theorem wp_moves (h : Wrote p log w) {publicId : String} {status : OrderStatus}
    {stamp : Option Stamp} {P : OrderEntity → World → Prop}
    (hP : ∀ row now v, row.publicId = publicId → row.status = status →
      Wrote p (log ++ [.setOrderStatus publicId status stamp now]) v → P row v) :
    wp machine ok (sharedSpec ToldHistory) p (updateOrderStatus publicId status .trx stamp)
      (OnOk P) w := by
  apply wp_seq
  apply wp_open_now told_isolated anything_kept h
  intro now v₁ h₁
  apply wp_seq
  apply wp_open_sql told_isolated anything_kept h₁
  intro v found v₂ _ hreply h₂
  apply wp_toEntity
  rintro row rfl
  obtain ⟨hwrites, o, ho, rfl⟩ := updateOrderStatus_reply hreply
  rw [hwrites] at h₂
  have hpid : o.publicId = publicId := by simpa using List.find?_some ho
  exact hP _ now v₂ ((withStatus_publicId o status stamp now).trans hpid)
    (withStatus_status o status stamp now) h₂

/-- The transaction writes the row of an event. -/
theorem wp_tells (h : Wrote p log w) {input : OutboxInput} {P : Unit → World → Prop}
    (hP : ∀ row v, row.aggregateId = input.aggregateId → row.eventType = input.eventType →
      Wrote p (log ++ [.insertOutbox row]) v → P () v) :
    wp machine ok (sharedSpec ToldHistory) p (insertOutboxEvent .trx input) (OnOk P) w := by
  apply wp_open_sql told_isolated anything_kept h
  intro v _ v₁ _ _ h₁
  exact hP _ v₁ rfl rfl h₁

theorem wp_commit_told (h : Wrote p log w) (htold : Told log) {P : Unit → World → Prop}
    (hP : ∀ v, (∀ log, v.store.txn p ≠ .active log) → P () v) :
    wp machine ok (sharedSpec ToldHistory) p commit (OnOk P) w := by
  apply wp_commit_shared h.txn
  intro v _ hi _
  refine ⟨toldHistory_append hi.2 htold, hP _ fun log => ?_⟩
  simp [World.committed]

/-- The transaction of a placed order inserts it with its event. -/
theorem wp_insertOrder_told {data : OrderData} {lines : Nat → List OrderItemData}
    (hstatus : data.status = .placed) (h : Wrote p [] w)
    {P : OrderEntity × List OrderItemEntity → World → Prop}
    (hP : ∀ a v, (∀ log, v.store.txn p ≠ .active log) → P a v) :
    wp machine ok (sharedSpec ToldHistory) p (insertOrder data lines) (OnOk P) w := by
  unfold insertOrder createOrder
  apply wp_seq
  apply wp_seq
  apply wp_open_now told_isolated anything_kept h
  intro now v₁ h₁
  apply wp_open_sql told_isolated anything_kept h₁
  intro v order v₂ _ hreply h₂
  obtain ⟨hwrites, hsame⟩ := createOrder_reply hreply
  rw [hwrites] at h₂
  have hplaced : order.status = .placed := hsame.trans hstatus
  have hitems : (bulkInsertItems (lines order.id) .trx).Calls (Op.Appends Write.Silent)
      (fun _ _ => True) fun _ => True := by
    have hnow : Op.now.Appends Write.Silent := rfl
    apply Prog.calls_do (calls_now hnow fun _ => trivial)
    intro now' _
    refine calls_sql ?_ fun _ _ => trivial
    rintro x ⟨row, rfl⟩
    exact silent_of_table (by simp [Write.table]) (by simp [Write.table])
  apply wp_seq
  apply wp_silent hitems h₂
  intro items ws v₃ _ hsilent h₃
  apply wp_seq
  rw [onlyIf, if_pos hplaced]
  apply wp_tells h₃
  intro row v₄ hid hkind h₄
  have htold : Told ([.insertOrder order] ++ ws ++ [.insertOutbox row]) := by
    apply told_of_change .placed rfl
    · exact ⟨.insertOrder order, by simp, rfl, hplaced⟩
    · exact ⟨.insertOutbox row, by simp, hid, hkind⟩
    · intro x hx
      simp only [List.mem_append, List.mem_singleton] at hx
      rcases hx with (rfl | hx) | rfl
      · exact .inr ⟨fun _ _ hgives => ⟨hgives.1.symm, hgives.2.symm.trans hplaced⟩,
          fun _ _ htells => absurd htells id⟩
      · exact .inl (hsilent x hx)
      · exact .inr (concerns_insertOutbox hid hkind)
  apply wp_seq
  exact wp_commit_told h₄ htold fun v => hP _ v

/-- A paid order is placed together with its event. -/
theorem wp_placePaidOrder_told {order : OrderEntity} (htold : Told log) (h : Wrote p log w)
    {P : Option (OrderEntity × Nat) → World → Prop}
    (hP : ∀ a ws v, Told (log ++ ws) → Wrote p (log ++ ws) v → P a v) :
    wp machine ok (sharedSpec ToldHistory) p (placePaidOrder order) (OnOk P) w := by
  unfold placePaidOrder
  split_ifs
  · apply wp_seq
    apply wp_moves h
    intro placed now v₁ hpid _ h₁
    have hitems : (findItemsByOrderIds [placed.id] .trx).Calls (Op.Appends Write.Silent)
        (fun _ _ => True) fun _ => True := calls_sql (fun x hx => absurd hx id) fun _ _ => trivial
    apply wp_seq
    apply wp_silent hitems h₁
    intro items ws v₂ _ hsilent h₂
    apply wp_seq
    apply wp_tells h₂
    intro row v₃ hid hkind h₃
    have hmoved : Told ([.setOrderStatus order.publicId .placed none now] ++ ws
        ++ [.insertOutbox row]) := by
      apply told_of_change .placed rfl
      · exact ⟨.setOrderStatus order.publicId .placed none now, by simp, rfl, rfl⟩
      · exact ⟨.insertOutbox row, by simp, hid.trans hpid, hkind⟩
      · intro x hx
        simp only [List.mem_append, List.mem_singleton] at hx
        rcases hx with (rfl | hx) | rfl
        · exact .inr concerns_setOrderStatus
        · exact .inl (hsilent x hx)
        · exact .inr (concerns_insertOutbox (hid.trans hpid) hkind)
    refine wp_pure (hP _ _ v₃ (told_append htold hmoved) ?_)
    simpa only [List.append_assoc] using h₃
  · refine wp_pure (hP _ [] w ?_ ?_) <;> rw [List.append_nil]
    · exact htold
    · exact h

/-- A delivered order is settled with its event. -/
theorem told_settlement {seen : Db → Prop} {order : OrderEntity} {agentId : Nat} {share bps : Int}
    {publicId : String} {stamp : Option Stamp} {now : Time} {log : List Write}
    (hpid : order.publicId = publicId)
    (s : Settlement seen log order agentId share bps) :
    Told ([.setOrderStatus publicId .delivered stamp now] ++ s.writes) := by
  obtain ⟨id, clock, deliveredAt, hevent⟩ := s.delivered
  have hid : s.event.aggregateId = publicId := by rw [hevent]; exact hpid
  have hkind : s.event.eventType = .orderDelivered := by rw [hevent]; rfl
  have hsilent : ∀ x : Write, x.table ≠ .orders → x.table ≠ .eventsOutbox →
      x.Silent ∨ x.Concerns publicId .delivered .orderDelivered :=
    fun x horders houtbox => .inl (silent_of_table horders houtbox)
  have honly : ∀ x ∈ s.writes, x.Silent ∨ x.Concerns publicId .delivered .orderDelivered :=
    s.forall_writes (P := fun x => x.Silent ∨ x.Concerns publicId .delivered .orderDelivered)
      (fun row => hsilent (.insertTransaction row) (by simp [Write.table]) (by simp [Write.table]))
      (fun id now => hsilent (.setTransactionStatus id .succeeded now) (by simp [Write.table])
        (by simp [Write.table]))
      (fun r region currency delta => hsilent (.addBalance r region currency delta)
        (by simp [Write.table]) (by simp [Write.table]))
      (fun row => hsilent (.insertEarning row) (by simp [Write.table]) (by simp [Write.table]))
      (.inr (concerns_insertOutbox hid hkind))
  apply told_of_change .delivered rfl
  · exact ⟨.setOrderStatus publicId .delivered stamp now, by simp, rfl, rfl⟩
  · exact ⟨.insertOutbox s.event, by simp [Settlement.writes], hid, hkind⟩
  · intro x hx
    rcases List.mem_append.mp hx with hx | hx
    · rw [List.mem_singleton.mp hx]
      exact .inr concerns_setOrderStatus
    · exact honly x hx

/-- What follows a commit only reaches outside. -/
theorem wp_after {α : Type} {prog : Svc α}
    (hc : prog.Calls (fun o => o.outer = true) (fun _ _ => True) fun _ => True)
    {P : α → World → Prop} (hP : ∀ a v, P a v) :
    wp machine ok (sharedSpec ToldHistory) p prog (OnOk P) w := wp_outside told_isolated hc hP

theorem wp_deliver_told {cfg : Config} {order : OrderEntity} {agentId : Nat} {region : String}
    {P : OrderEntity → World → Prop} (hP : ∀ o v, P o v) :
    wp machine anyOp (sharedSpec ToldHistory) p (deliver cfg order agentId region) (OnOk P) w := by
  unfold deliver
  split_ifs
  · trivial
  apply wp_seq
  apply wp_start_ok told_isolated
  intro v₁ _ _ _
  refine wp_catch_ok ?_ fun err v => wp_abort told_isolated
  apply wp_seq
  apply wp_moves (wrote_started v₁)
  intro updated now v₂ hpid _ h₂
  have hrate : AllowsRate anyOp p fun _ => True := ⟨trivial, fun _ _ _ _ => trivial⟩
  apply wp_seq
  apply wp_mono _ (wp_settleDeliveredOrder told_isolated anything_kept h₂ hrate cfg)
  rintro (err | _) v₃ h₃
  · trivial
  obtain ⟨bps, _, s, h₃⟩ := h₃
  apply wp_seq
  apply wp_commit_told h₃ (told_settlement hpid s)
  exact fun v _ => wp_after calls_afterDelivery hP

theorem wp_agentUpdateStatus_told {cfg : Config} {publicId region : String} {agentId : Nat} :
    wp machine anyOp (sharedSpec ToldHistory) p
      (agentUpdateStatus cfg publicId agentId region .delivered) (OnOk fun _ _ => True) w := by
  apply wp_seq
  apply wp_pool_read told_isolated sharedSpec_ofStore fun _ _ _ => rfl
  intro v₁ e found _ _ _ _ _ _
  cases found with
  | none => trivial
  | some order =>
    dsimp only
    split_ifs
    · trivial
    · exact wp_deliver_told fun _ _ => trivial

/-- A part of the transaction that keeps it told. -/
theorem wp_silent_told {α : Type} {prog : Svc α} {Q : α → Prop}
    (hc : prog.Calls (Op.Appends Write.Silent) (fun _ _ => True) Q) (h : Wrote p log w)
    (htold : Told log) {P : α → World → Prop}
    (hP : ∀ a log' v, Told log' → Wrote p log' v → P a v) :
    wp machine ok (sharedSpec ToldHistory) p prog (OnOk P) w := by
  apply wp_silent hc h
  intro a ws v _ hsilent hv
  exact hP a _ v (told_append htold (told_of_silent hsilent)) hv

theorem calls_sessionUpdate_silent {id : Nat} {status : PaymentSessionStatus} :
    (updatePaymentSessionStatus id status .trx).Calls (Op.Appends Write.Silent)
      (fun _ _ => True) fun _ => True := by
  have hnow : Op.now.Appends Write.Silent := rfl
  refine calls_updateSession hnow fun now => ?_
  rintro x rfl
  exact silent_of_table (by simp [Write.table]) (by simp [Write.table])

theorem calls_recordCharge_silent {ctx : WebhookContext} {order : OrderEntity}
    {session : PaymentSessionEntity} {status : TransactionStatus} {dstAccId : Nat} :
    (recordCharge ctx order session status dstAccId).Calls (Op.Appends Write.Silent)
      (fun _ _ => True) fun _ => True := by
  have hnow : Op.now.Appends Write.Silent := rfl
  refine calls_recordCharge hnow (fun x hx => absurd hx id) fun now => ?_
  rintro x ⟨id, rfl⟩
  exact silent_of_table (by simp [Write.table]) (by simp [Write.table])

theorem calls_paymentEvent_silent {ctx : WebhookContext} {order : OrderEntity}
    {session : PaymentSessionEntity} {eventType : EventType} {occurredAt : Time}
    (h : eventType = .paymentCompleted ∨ eventType = .paymentFailed) :
    (insertOutboxEvent .trx (paymentEvent ctx order session eventType occurredAt)).Calls
      (Op.Appends Write.Silent) (fun _ _ => True) fun _ => True := by
  refine calls_sql ?_ fun _ _ => trivial
  rintro x ⟨id, clock, rfl⟩
  exact silent_insertOutbox h

theorem wp_applyEvent_told {event : Json} {ctx : WebhookContext} {order : OrderEntity}
    {session : PaymentSessionEntity} (h : Wrote p log w) (htold : Told log)
    {P : Option (OrderEntity × Nat) → World → Prop}
    (hP : ∀ a log' v, Told log' → Wrote p log' v → P a v) :
    wp machine ok (sharedSpec ToldHistory) p (applyEvent event ctx order session) (OnOk P) w := by
  have hnow : now.Calls (Op.Appends Write.Silent) (fun _ _ => True) fun _ => True :=
    calls_now rfl fun _ => trivial
  unfold applyEvent
  split_ifs
  · unfold applySuccess
    apply wp_seq
    apply wp_silent_told calls_sessionUpdate_silent h htold
    intro _ log₁ v₁ htold₁ h₁
    have howner : (fetchRestaurantOwner order.branchId).Calls (Op.Appends Write.Silent)
        (fun _ _ => True) fun _ => True := calls_fetchRestaurantOwner rfl
    apply wp_seq
    apply wp_silent_told howner h₁ htold₁
    intro owner log₂ v₂ htold₂ h₂
    apply wp_seq
    apply wp_silent_told calls_recordCharge_silent h₂ htold₂
    intro _ log₃ v₃ htold₃ h₃
    apply wp_seq
    apply wp_silent_told hnow h₃ htold₃
    intro completedAt log₄ v₄ htold₄ h₄
    apply wp_seq
    apply wp_silent_told (calls_paymentEvent_silent (.inl rfl)) h₄ htold₄
    intro _ log₅ v₅ htold₅ h₅
    exact wp_placePaidOrder_told htold₅ h₅ fun a ws v => hP a _ v
  · unfold applyFailure
    apply wp_seq
    apply wp_silent_told calls_sessionUpdate_silent h htold
    intro _ log₁ v₁ htold₁ h₁
    apply wp_seq
    apply wp_silent_told calls_recordCharge_silent h₁ htold₁
    intro _ log₂ v₂ htold₂ h₂
    apply wp_seq
    apply wp_silent_told hnow h₂ htold₂
    intro failedAt log₃ v₃ htold₃ h₃
    apply wp_seq
    apply wp_silent_told (calls_paymentEvent_silent (.inr rfl)) h₃ htold₃
    intro _ log₄ v₄ htold₄ h₄
    exact hP none log₄ v₄ htold₄ h₄
  · exact hP none log w htold h

theorem silent_setWebhookEvent {id : Nat} {processedAt : Option Time}
    {processError : Option String} :
    ∀ x, (Sql.updateWebhookEventStatus id processedAt processError).MayWrite x → x.Silent := by
  rintro x rfl
  exact silent_of_table (by simp [Write.table]) (by simp [Write.table])

theorem wp_processWebhook_told {event : Json} {ctx : WebhookContext} {insertedId : Nat}
    (h : Wrote p [] w) :
    wp machine ok (sharedSpec ToldHistory) p (processWebhook event ctx insertedId)
      (OnOk fun _ _ => True) w := by
  have hempty : Told [] := told_of_silent fun x hx => by cases hx
  have hfind : (findReferencedOrder (orderReference ctx.data) .trx).Calls
      (Op.Appends Write.Silent) (fun _ _ => True) fun _ => True := by
    unfold findReferencedOrder
    split
    · exact calls_sql (fun x hx => absurd hx id) fun _ _ => trivial
    · trivial
    · trivial
  apply wp_seq
  apply wp_silent_told hfind h hempty
  intro found log₁ v₁ htold₁ h₁
  cases found with
  | none => trivial
  | some order =>
    have hsession : (findPaymentSessionByOrderId order.id .trx).Calls (Op.Appends Write.Silent)
        (fun _ _ => True) fun _ => True := calls_sql (fun x hx => absurd hx id) fun _ _ => trivial
    apply wp_seq
    apply wp_silent_told hsession h₁ htold₁
    intro session log₂ v₂ htold₂ h₂
    cases session with
    | none => trivial
    | some session =>
      apply wp_seq
      apply wp_applyEvent_told h₂ htold₂
      intro broadcast log₃ v₃ htold₃ h₃
      have hnow : now.Calls (Op.Appends Write.Silent) (fun _ _ => True) fun _ => True :=
        calls_now rfl fun _ => trivial
      apply wp_seq
      apply wp_silent_told hnow h₃ htold₃
      intro processedAt log₄ v₄ htold₄ h₄
      have hmark : (updateWebhookEventStatus insertedId (some processedAt) none .trx).Calls
          (Op.Appends Write.Silent) (fun _ _ => True) fun _ => True :=
        Prog.calls_perform silent_setWebhookEvent fun _ _ => trivial
      apply wp_seq
      apply wp_silent_told hmark h₄ htold₄
      intro _ log₅ v₅ htold₅ h₅
      apply wp_seq
      apply wp_commit_told h₅ htold₅
      exact fun v _ => wp_after calls_announcePlaced fun _ _ => trivial

theorem toldHistory_keptBy (p : Pid) : KeptBy ToldHistory p Write.Silent :=
  fun _ _ _ h hlog => toldHistory_append h (told_of_silent hlog)

theorem wp_webhook_told (hmacSha256 : String → String → String) {cfg : Config}
    {rawBody : Option Json} {signature region : String} :
    wp machine ok (sharedSpec ToldHistory) p
      (verifyAndProcessWebhook hmacSha256 cfg rawBody signature region) (OnOk fun _ _ => True) w := by
  refine wp_webhook_shared (toldHistory_keptBy p) (fun row => ?_)
    (fun _ _ _ => silent_setWebhookEvent _ rfl) fun _ _ _ v _ hlog =>
      wp_processWebhook_told ⟨trivial, hlog⟩
  exact silent_of_table (by simp [Write.table]) (by simp [Write.table])

/-- Whatever fails before the reservation, nothing was written yet. -/
theorem wp_placeOrder_told {cfg : Config} {actor : ActorContext} {region : Option String}
    {dto : CreateOrderRequest} (hcod : dto.paymentMethod = .cod) :
    wp machine ok (sharedSpec ToldHistory) p (placeOrder cfg actor region dto)
      (OnOk fun _ _ => True) w := by
  refine wp_placeOrder_of fun _ _ _ _ _ => wp_submitOrder_of (toldHistory_keptBy p)
    (fun row => ?_) fun _ _ _ _ hlog => wp_insertOrder_told (if_pos hcod) ⟨trivial, hlog⟩ ?_
  · exact silent_of_table (by simp [Write.table]) (by simp [Write.table])
  · exact fun _ _ hclosed => hclosed

end Paths

end OrderService
