import OrderService.Interleaving.Trace
import OrderService.OutboxAtomic
import OrderService.PlacedEvents

/-! Placements and webhooks in any interleaving: an order is told as placed once, and charged once,
as long as every payment finds it waiting when it captures its session and when it places it. -/
namespace OrderService
open ReadCommitted Interleaving

section Knowledge
variable {before : Db} {ok : Pid → Op → Env → World → Prop} {p : Pid} {K : Db → Prop} {w : World}
  {log : List Write}

/-- `K` holds of the committed tables, if all that was committed is of placements and payments. -/
def Knows (K : Db → Prop) (w : World) : Prop :=
  (∀ b ∈ w.store.history, ∀ x ∈ b.2, x.Pays) → K w.store.db

/-- No commit of a placement or a payment takes it away. -/
def Lasts (K : Db → Prop) : Prop :=
  ∀ log db, (∀ x ∈ log, x.Pays) → K db → K (engine.applyAll log db)

theorem knows_kept (hK : Lasts K) : Kept (sharedSpec (PlacedOnce before)) p (Knows K) where
  rely v v' hr h hpays := by
    obtain ⟨bs, hhistory, hdb, _, _⟩ := hr.1.commits
    rw [hhistory, List.forall_mem_append] at hpays
    rw [hdb]
    refine hK _ _ (fun x hx => ?_) (h hpays.1)
    obtain ⟨b, hb, hxb⟩ := List.mem_flatMap.mp hx
    exact hpays.2 b hb x hxb
  step o e v r v' ho _ hx h := by
    obtain ⟨hdb, hhistory, _⟩ := exec_appends ho hx
    rw [Knows, hdb, hhistory]
    exact h

/-- Where the invariant holds, what is known holds. -/
theorem Knows.now (h : Knows K w) (hi : (sharedSpec (PlacedOnce before)).inv w) : K w.store.db :=
  h hi.2.pays

/-- A read tells of the tables. -/
theorem wp_learn (hK : Lasts K) {q : Sql}
    (hread : ∀ seqs clock db, (q.eval seqs clock db).writes = []) {L : q.Res → Db → Prop} (hL : ∀ seqs clock db a, K db →
      (q.eval seqs clock (engine.applyAll log db)).reply = .ok a → L a db)
    (h : Open (Knows K) p log w) {P : q.Res → World → Prop}
    (hP : ∀ a v, Open (Knows (L a)) p log v → P a v) :
    wp machine ok (sharedSpec (PlacedOnce before)) p (sql .trx q) (OnOk P) w := by
  apply wp_trx_ok (sharedSpec_isolated _ p) h.txn
  intro v e a hr _ hlog _ _ hreply
  have hv : Knows K v := (knows_kept hK).rely w v hr h.holds
  have hview : v.view p = engine.applyAll log v.store.db := by
    rw [World.view_eq, World.log_of_active hlog]
  rw [World.inTrx, hview] at hreply
  refine hP a _ ⟨fun hpays => hL _ _ _ a (hv hpays) hreply, ?_⟩
  rw [World.queried_txn, World.inTrx, hread, List.append_nil, World.log_of_active hlog]

/-- A part of the transaction that neither touches the orders nor tells of them nor charges
them. -/
theorem wp_payAside {F : World → Prop} (hF : Kept (sharedSpec (PlacedOnce before)) p F) {α : Type}
    {prog : Svc α} (hc : prog.Calls (Op.Appends Write.Aside) (fun _ _ => True) fun _ => True)
    (h : Open F p log w) {P : α → World → Prop}
    (hP : ∀ a ws v, (∀ x ∈ ws, x.Aside) → Open F p (log ++ ws) v → P a v) :
    wp machine ok (sharedSpec (PlacedOnce before)) p prog (OnOk P) w := by
  refine wp_mono ?_ (wp_appends (sharedSpec_isolated _ p) (fun _ ho => ho) hc hF.rely
    (fun o e v r v' ho hi _ hx hv => ⟨hF.step o e v r v' ?_ hi hx hv, fun _ _ => trivial⟩)
    h.txn h.holds)
  · rintro (err | a) v ⟨hv, -, ws, htxn, hws⟩
    · trivial
    · exact hP a ws v hws ⟨hv, htxn⟩
  · exact ho.any

end Knowledge

section Payment
variable {before : Db} {ok : Pid → Op → Env → World → Prop} {p : Pid} {w : World}
  {log : List Write} {ctx : WebhookContext} {order : OrderEntity} {session : PaymentSessionEntity}

/-- The order is as it was read, or placed since. -/
def HasOrder (order : OrderEntity) (db : Db) : Prop :=
  ∃ o ∈ db.orders, o.id = order.id ∧ o.publicId = order.publicId ∧
    (o.status = order.status ∨ o.status = .placed)

/-- The session that was read is one of the order. -/
def HasSession (order : OrderEntity) (session : PaymentSessionEntity) (db : Db) : Prop :=
  HasOrder order db ∧ ∃ s ∈ db.paymentSessions, s.id = session.id ∧ s.orderId = order.id

theorem lasts_hasOrder (order : OrderEntity) : Lasts (HasOrder order) := by
  rintro log db hlog ⟨o, ho, hid, hname, hstatus⟩
  obtain ⟨o', ho', hid', hname', hstatus'⟩ := order_kept hlog ho
  refine ⟨o', ho', hid'.trans hid, hname'.trans hname, ?_⟩
  rcases hstatus' with hsame | hplaced
  · rw [hsame]
    exact hstatus
  · exact .inr hplaced

theorem lasts_hasSession (order : OrderEntity) (session : PaymentSessionEntity) :
    Lasts (HasSession order session) := by
  rintro log db hlog ⟨horder, s, hs, hid, hof⟩
  obtain ⟨s', hs', hid', hof'⟩ := session_kept hs log
  exact ⟨lasts_hasOrder order log db hlog horder, s', hs', hid'.trans hid, hof'.trans hof⟩

/-- The lookup of the order, the first statement of the transaction. -/
theorem wp_findOrder (hlog : w.store.txn p = .active []) {reference : Option Json}
    {P : Option OrderEntity → World → Prop} (hnone : ∀ v, P none v)
    (hsome : ∀ o v, Open (Knows (HasOrder o)) p [] v → P (some o) v) :
    wp machine ok (sharedSpec (PlacedOnce before)) p (findReferencedOrder reference .trx)
      (OnOk P) w := by
  unfold findReferencedOrder
  split
  · refine wp_learn (K := fun _ => True) (fun _ _ _ _ => trivial) (fun _ _ _ => rfl)
      (L := fun found db => ∀ o, found = some o → HasOrder o db) ?_ ⟨fun _ => trivial, hlog⟩ ?_
    · rintro seqs clock db found - hreply o rfl
      exact ⟨o, List.mem_of_find?_eq_some (Except.ok.inj hreply), rfl, rfl, .inl rfl⟩
    · intro found v hv
      cases found with
      | none => exact hnone v
      | some o => exact hsome o v ⟨fun hpays => hv.holds hpays o rfl, hv.txn⟩
  · exact hnone w
  · trivial

/-- The lookup of its session. -/
theorem wp_findSession (h : Open (Knows (HasOrder order)) p [] w)
    {P : Option PaymentSessionEntity → World → Prop} (hnone : ∀ v, P none v)
    (hsome : ∀ s v, Open (Knows (HasSession order s)) p [] v → P (some s) v) :
    wp machine ok (sharedSpec (PlacedOnce before)) p (findPaymentSessionByOrderId order.id .trx)
      (OnOk P) w := by
  refine wp_learn (lasts_hasOrder order) (fun _ _ _ => rfl)
    (L := fun found db => ∀ s, found = some s → HasSession order s db) ?_ h ?_
  · rintro seqs clock db found horder hreply s rfl
    have hfound := mem_of_firstDesc (Except.ok.inj hreply)
    obtain ⟨hs, hactive⟩ := List.mem_filter.mp hfound
    simp only [Bool.and_eq_true, decide_eq_true_eq] at hactive
    exact ⟨horder, s, hs, rfl, hactive.1⟩
  · intro found v hv
    cases found with
    | none => exact hnone v
    | some s => exact hsome s v ⟨fun hpays => hv.holds hpays s rfl, hv.txn⟩

variable (hok : ∀ o e v, ok p o e v → StillAwaiting p o e v)

include hok in
/-- An order that still waits when its session is captured was read as waiting. -/
theorem wp_capture (h : Open (Knows (HasSession order session)) p [] w)
    {P : PaymentSessionEntity → World → Prop}
    (hP : ∀ s first v, order.status = .pendingPayment → (∀ x ∈ first, x.Aside) →
      Open (Knows (HasSession order session)) p first v → P s v) :
    wp machine ok (sharedSpec (PlacedOnce before)) p
      (updatePaymentSessionStatus session.id .captured .trx) (OnOk P) w := by
  have hS := sharedSpec_isolated (PlacedOnce before) p
  have hkept : Kept (sharedSpec (PlacedOnce before)) p (Knows (HasSession order session)) :=
    knows_kept (lasts_hasSession order session)
  apply wp_seq
  apply wp_open_now hS hkept h
  intro now w₁ h₁
  apply wp_seq
  apply wp_trx_ok hS h₁.txn
  intro v e found hr hi hlog hmeets _ _
  have hv : Knows (HasSession order session) v := hkept.rely w₁ v hr h₁.holds
  apply wp_toEntity
  rintro s -
  obtain ⟨⟨o, ho, hid, -, hstatus⟩, s', hs', hsid, hof⟩ := hv.now hi
  have hwaits : o.status = .pendingPayment := by
    refine hok _ e v hmeets o (List.mem_filter.mpr ⟨ho, ?_⟩)
    simp only [List.any_eq_true, Bool.and_eq_true, decide_eq_true_eq]
    exact ⟨s', hs', hsid, hof.trans hid.symm⟩
  have hpending : order.status = .pendingPayment := by
    rcases hstatus with hsame | hplaced
    · rw [← hsame]
      exact hwaits
    · rw [hwaits] at hplaced
      cases hplaced
  refine hP s _ _ hpending (fun x hx => ?_) ⟨hv, World.queried_txn_of_log hlog⟩
  obtain rfl : x = _ := Sql.mayWrite_of_mem hx
  trivial

/-- The charge is recorded once at most. -/
theorem wp_recordCharge_once {F : World → Prop} (hF : Kept (sharedSpec (PlacedOnce before)) p F)
    (h : Open F p log w) {status : TransactionStatus} {dstAccId : Nat} {P : Unit → World → Prop}
    (hP : ∀ charge v, ChargesOnce order.id charge → Open F p (log ++ charge) v → P () v) :
    wp machine ok (sharedSpec (PlacedOnce before)) p
      (recordCharge ctx order session status dstAccId) (OnOk P) w := by
  have hS := sharedSpec_isolated (PlacedOnce before) p
  apply wp_seq
  apply wp_open_read hS hF h fun _ _ _ => rfl
  intro _ existingTx v _ _ hv
  cases existingTx with
  | some t =>
    refine wp_pure (hP [] v .known ?_)
    rw [List.append_nil]
    exact hv
  | none =>
    apply wp_seq
    apply wp_open_create hS hF hv
    intro row id now v' hv'
    refine hP _ v' (.charged _ fun other hother => ?_) hv'
    exact (orNull_eq_some.mp hother).1.symm

/-- The order that is placed waits for its payment, and stays locked. -/
abbrev Paying (order o : OrderEntity) (session : PaymentSessionEntity) (p : Pid) (log : List Write)
    (w : World) : Prop :=
  Open (Holding (Knows (HasSession order session)) p order.publicId o) p log w

theorem paying_kept (o : OrderEntity) : Kept (sharedSpec (PlacedOnce before)) p
    (Holding (Knows (HasSession order session)) p order.publicId o) :=
  holding_kept (sharedSpec_isolated _ p) (knows_kept (lasts_hasSession order session))

include hok in
/-- An order that still waits when it is placed is told of once. -/
theorem wp_placePaidOrder_once (hpending : order.status = .pendingPayment)
    {first charge event : List Write} (hfirst : ∀ x ∈ first, x.Aside)
    (hcharge : ChargesOnce order.id charge) (hevent : ∀ x ∈ event, x.Aside)
    (h : Open (Knows (HasSession order session)) p (first ++ charge ++ event) w)
    {P : Option (OrderEntity × Nat) → World → Prop}
    (hP : ∀ a o log v, PaysOrder order.publicId order.id log → o.status = .pendingPayment →
      Paying order o session p log v → P a v) :
    wp machine ok (sharedSpec (PlacedOnce before)) p (placePaidOrder order) (OnOk P) w := by
  have hS := sharedSpec_isolated (PlacedOnce before) p
  have hkept : Kept (sharedSpec (PlacedOnce before)) p (Knows (HasSession order session)) :=
    knows_kept (lasts_hasSession order session)
  have hoff : ∀ x ∈ first ++ charge ++ event, x.table ≠ .orders := by
    simp only [List.mem_append]
    rintro x ((hx | hx) | hx)
    · exact (hfirst x hx).offOrders.table
    · cases hcharge with
      | known => cases hx
      | charged row _ =>
        rw [List.mem_singleton.mp hx]
        simp [Write.table]
    · exact (hevent x hx).offOrders.table
  unfold placePaidOrder
  rw [if_pos hpending]
  apply wp_seq
  apply wp_updateHeld hS hkept hoff h
  intro e v o now w₁ _ _ _ hmeets ho h₁
  have hname : o.publicId = order.publicId := by simpa using List.find?_some ho
  have hwaits : o.status = .pendingPayment :=
    hok _ e v hmeets o (List.mem_filter.mpr ⟨List.mem_of_find?_eq_some ho, by simpa using hname⟩)
  apply wp_seq
  have hitems : (findItemsByOrderIds [(o.withStatus .placed none now).id] .trx).Calls
      (Op.Appends Write.Aside) (fun _ _ => True) fun _ => True :=
    calls_sql (fun x hx => absurd hx id) fun _ _ => trivial
  apply wp_payAside (paying_kept o) hitems h₁
  intro items ws w₂ hws h₂
  apply wp_seq
  apply wp_open_sql hS (paying_kept o) h₂
  intro v₂ _ w₃ _ _ h₃
  refine wp_pure (hP _ o _ w₃ (paysOrder_of hfirst hcharge hevent hws rfl ?_) hwaits h₃)
  exact (withStatus_publicId o _ _ _).trans hname

include hok in
/-- A payment that is applied finds the order waiting, or it goes no further. -/
theorem wp_applySuccess_once (h : Open (Knows (HasSession order session)) p [] w)
    {P : Option (OrderEntity × Nat) → World → Prop}
    (hP : ∀ a o log v, PaysOrder order.publicId order.id log → o.status = .pendingPayment →
      Paying order o session p log v → P a v) :
    wp machine ok (sharedSpec (PlacedOnce before)) p (applySuccess ctx order session)
      (OnOk P) w := by
  have hS := sharedSpec_isolated (PlacedOnce before) p
  have hkept : Kept (sharedSpec (PlacedOnce before)) p (Knows (HasSession order session)) :=
    knows_kept (lasts_hasSession order session)
  apply wp_seq
  apply wp_capture hok h
  intro _ captured w₁ hpending hcaptured h₁
  apply wp_seq
  apply wp_payAside hkept (calls_fetchRestaurantOwner rfl) h₁
  intro owner ws w₂ hws h₂
  apply wp_seq
  apply wp_recordCharge_once hkept h₂
  intro charge w₃ hcharge h₃
  apply wp_seq
  apply wp_open_now hS hkept h₃
  intro completedAt w₄ h₄
  apply wp_seq
  have hevent : (insertOutboxEvent .trx (paymentEvent ctx order session .paymentCompleted
      completedAt)).Calls (Op.Appends Write.Aside) (fun _ _ => True) fun _ => True := by
    refine calls_sql ?_ fun _ _ => trivial
    rintro x ⟨id, clock, rfl⟩
    exact nofun
  apply wp_payAside hkept hevent h₄
  intro _ event w₅ hevent h₅
  exact wp_placePaidOrder_once hok hpending (List.forall_mem_append.mpr ⟨hcaptured, hws⟩) hcharge
    hevent h₅ hP

include hok in
theorem wp_processWebhook_once {event : Json} (hpay : event.isText "pay" = true)
    {insertedId : Nat} (hlog : w.store.txn p = .active []) :
    wp machine ok (sharedSpec (PlacedOnce before)) p (processWebhook event ctx insertedId)
      (OnOk fun _ _ => True) w := by
  have hS := sharedSpec_isolated (PlacedOnce before) p
  apply wp_seq
  refine wp_findOrder hlog (fun _ => trivial) fun order w₁ h₁ => ?_
  apply wp_seq
  refine wp_findSession h₁ (fun _ => trivial) fun session w₂ h₂ => ?_
  apply wp_seq
  unfold applyEvent
  rw [hpay, Bool.true_or, if_pos rfl]
  apply wp_applySuccess_once hok h₂
  intro broadcast o log w₃ hlog₃ hwaits h₃
  have hkept : Kept (sharedSpec (PlacedOnce before)) p
      (Holding (Knows (HasSession order session)) p order.publicId o) := paying_kept o
  apply wp_seq
  apply wp_open_now hS hkept h₃
  intro processedAt w₄ h₄
  apply wp_seq
  have hmark : (updateWebhookEventStatus insertedId (some processedAt) none .trx).Calls
      (Op.Appends Write.Aside) (fun _ _ => True) fun _ => True :=
    Prog.calls_perform (fun x hx => by subst hx; trivial) fun _ _ => trivial
  apply wp_payAside hkept hmark h₄
  intro _ ws w₅ hws h₅
  apply wp_seq
  apply wp_commit_shared h₅.txn
  intro v hr hi _
  have hv := hkept.rely w₅ v hr h₅.holds
  -- The locked order is the one that was read: its name is no other order's.
  have ho : o ∈ v.store.db.orders := List.mem_of_find?_eq_some hv.row
  have hname : o.publicId = order.publicId := by simpa using List.find?_some hv.row
  obtain ⟨⟨o', ho', hid, hname', -⟩, -⟩ := hv.holds.now hi
  obtain rfl : o' = o :=
    List.inj_on_of_nodup_map hi.2.consistent.names ho' ho (hname'.trans hname.symm)
  have hpaid : PaysOrder o'.publicId o'.id (log ++ ws) := by
    rw [hname, hid]
    exact hlog₃.aside hws
  exact ⟨hi.2.commit hpaid.pays (hi.2.consistent.paid ho hwaits hpaid),
    wp_outside hS calls_announcePlaced fun _ _ => trivial⟩

theorem placedOnce_keptBy (before : Db) (p : Pid) : KeptBy (PlacedOnce before) p Write.Aside :=
  fun _ _ _ h hlog => h.commit (fun x hx => (hlog x hx).pays) (h.consistent.aside hlog)

include hok in
theorem wp_webhook_once (hmacSha256 : String → String → String) {cfg : Config}
    {rawBody : Option Json} {signature region : String} :
    wp machine ok (sharedSpec (PlacedOnce before)) p
      (verifyAndProcessWebhook hmacSha256 cfg rawBody signature region)
      (OnOk fun _ _ => True) w :=
  wp_webhook_shared (placedOnce_keptBy before p) (fun _ => trivial) (fun _ _ _ => trivial)
    fun _ _ _ _ hpay hlog => wp_processWebhook_once hok hpay hlog

end Payment

section Placement
variable {before : Db} {ok : Pid → Op → Env → World → Prop} {p : Pid} {w : World}

variable (hapart : ∀ o e v, ok p o e v → NamesApart v ∧ orderSerial.Numbered v)
include hapart

/-- A new order has a name and an id of its own, so nothing was told of it or charged before. -/
theorem wp_insertOrder_once {data : OrderData} {lines : Nat → List OrderItemData}
    (hstatus : data.status = .pendingPayment ∨ data.status = .placed)
    (hlog : w.store.txn p = .active []) :
    wp machine ok (sharedSpec (PlacedOnce before)) p (insertOrder data lines)
      (OnOk fun _ v => ∀ log, v.store.txn p ≠ .active log) w := by
  have hS := sharedSpec_isolated (PlacedOnce before) p
  have hany : Kept (sharedSpec (PlacedOnce before)) p (Knows fun _ => True) :=
    knows_kept fun _ _ _ _ => trivial
  have hopen : Open (Knows fun _ => True) p [] w := ⟨fun _ => trivial, hlog⟩
  unfold insertOrder createOrder
  apply wp_seq
  apply wp_seq
  apply wp_open_now hS hany hopen
  intro now w₁ h₁
  apply wp_open_sql hS hany h₁
  intro v order w₂ _ hreply h₂
  obtain ⟨hwrites, hsame⟩ := createOrder_reply hreply
  rw [hwrites] at h₂
  rw [← hsame] at hstatus
  have hitems : (bulkInsertItems (lines order.id) .trx).Calls (Op.Appends Write.Aside)
      (fun _ _ => True) fun _ => True := by
    have hnow : Op.now.Appends Write.Aside := rfl
    apply Prog.calls_do (calls_now hnow fun _ => trivial)
    intro now' _
    refine calls_sql ?_ fun _ _ => trivial
    rintro x ⟨row, rfl⟩
    trivial
  apply wp_seq
  apply wp_payAside hany hitems h₂
  intro items ws w₃ hws h₃
  have hcommit : ∀ event v, TellsEntry order event →
      Open (Knows fun _ => True) p ([.insertOrder order] ++ ws ++ event) v →
      wp machine ok (sharedSpec (PlacedOnce before)) p (do commit; pure (order, items))
        (OnOk fun _ v' => ∀ log, v'.store.txn p ≠ .active log) v := by
    intro event v hevent hv
    apply wp_seq
    apply wp_commit_meets hv.txn
    intro u e _ hi hactive hmeets
    obtain ⟨hnames, hids⟩ := hapart _ e u hmeets
    have henters := entersOrder_of hstatus hws hevent
    have hdb : (u.committed p).store.db
        = engine.applyAll ([.insertOrder order] ++ ws ++ event) u.store.db := by
      simp only [World.committed, World.log_of_active hactive]
    have hname := (hnames.unique.commit hi.1 (World.commit_eq hactive)).committed
    have hid := (hids.committed_ (p := p)).nodup
    rw [hdb] at hname hid
    refine ⟨hi.2.commit henters.pays (hi.2.consistent.entered henters hname hid), fun log => ?_⟩
    simp [World.committed]
  apply wp_seq
  apply wp_open_onlyIf
  · intro hplaced
    apply wp_open_sql hS hany h₃
    intro _ _ w₄ _ _ h₄
    exact hcommit _ w₄ (.told _ hplaced rfl rfl) h₄
  · intro hno
    refine hcommit [] w₃ (.waits hno) ?_
    rw [List.append_nil]
    exact h₃

theorem wp_placeOrder_once {cfg : Config} {actor : ActorContext} {region : Option String}
    {dto : CreateOrderRequest} :
    wp machine ok (sharedSpec (PlacedOnce before)) p (placeOrder cfg actor region dto)
      (OnOk fun _ _ => True) w := by
  refine wp_placeOrder_of fun _ _ _ _ _ => wp_submitOrder_of (placedOnce_keptBy before p)
    (fun _ => trivial) fun _ _ _ _ hlog => wp_insertOrder_once hapart ?_ hlog
  by_cases hcod : dto.paymentMethod = .cod
  · exact .inr (if_pos hcod)
  · exact .inl (if_neg hcod)

end Placement

section Runs
variable (hmacSha256 : String → String → String) (cfg : Config)

/-- A payment finds its order waiting, where no two orders share a name or an id. -/
def PaidInTime (p : Pid) (o : Op) (e : Env) (w : World) : Prop :=
  StillAwaiting p o e w ∧ NamesApart w ∧ orderSerial.Numbered w

theorem wp_pays {before : Db} {p : Pid} {w : World} {c : Call} (hc : c.pays) :
    wp machine PaidInTime (sharedSpec (PlacedOnce before)) p (c.prog hmacSha256 cfg)
      (OnOk fun _ _ => True) w := by
  cases c with
  | placeOrder actor region dto =>
    apply wp_seq
    refine wp_mono ?_ (wp_placeOrder_once fun o e v hmeets => hmeets.2)
    rintro (err | reply) v - <;> trivial
  | webhook rawBody signature region =>
    apply wp_seq
    refine wp_mono ?_ (wp_webhook_once (fun o e v hmeets => hmeets.1) hmacSha256)
    rintro (err | reply) v - <;> trivial
  | _ => exact absurd hc id

/-- In every interleaving of placements and webhooks in which each payment finds its order waiting,
every order that is ever placed is told of once, no other is, and none is charged twice. -/
theorem placed_exactly_once (w : World) (hw : w.Orderly) (calls : Pid → Option Call)
    (hcalls : ∀ p c, calls p = some c → c.pays) {t : Sys Pid Op Op.Res Err World Reply}
    (ht : machine.Reaches StillAwaiting (running hmacSha256 cfg calls w) t) :
    PlacedExactlyOnce w.store.db t.world.store.db t.world.store.history := by
  have hrest := hw.toAtRest
  have hnumbered : orderSerial.Numbered w := by
    refine Serial.numbered_atRest orderSerial hrest hw.started (fun i hi => ?_) hw.ids
    obtain ⟨o, ho, rfl⟩ := List.mem_map.mp hi
    exact hw.numbered o ho
  have halong : machine.Reaches PaidInTime (running hmacSha256 cfg calls w) t :=
    ht.along (fun u hu => ⟨namesApart_reaches hrest hw.names hw.drawn calls hu,
      Serial.numbered_reaches orderSerial hnumbered hu⟩) fun _ _ _ _ hwaits hapart =>
        ⟨hwaits, hapart⟩
  have hwp : ∀ p prog, (running hmacSha256 cfg calls w).procs p = some prog →
      wp machine PaidInTime (sharedSpec (PlacedOnce w.store.db)) p prog (OnOk fun _ _ => True)
        w := by
    intro p prog hprog
    obtain ⟨c, hc, rfl⟩ := Option.map_eq_some_iff.mp hprog
    exact wp_pays hmacSha256 cfg (hcalls p c hc)
  have hinit : PlacedOnce w.store.db w.store.db [] := by
    refine ⟨rfl, fun b hb => absurd hb List.not_mem_nil, fun publicId hbeen => ?_, hw.names, hw.ids,
      fun o ho hnew => ?_, hw.told, hw.charged⟩
    · obtain ⟨done, left, hnil, o, ho, hname, hplaced⟩ := hbeen
      obtain ⟨rfl, rfl⟩ := List.append_eq_nil_iff.mp hnil.symm
      exact ⟨o, ho, hname, hplaced⟩
    · have hfound := List.find?_eq_none.mp hnew o ho
      simp at hfound
  exact (shared_reaches hrest hinit hwp halong).exactly

end Runs

section Samples

/-- HMAC-SHA256 under the key `api-key`, also on the message of a second payment. -/
def twoPaymentsHmac (key message : String) : String :=
  if message = "merchantOrderId=order-1&status=SUCCESS&transactionId=T2" then
    "1f0ebdece5ecd27354925a823327d0f9306c0fe76aa4a5111205c108c5925692"
  else sampleHmac key message

def secondPayment : Call :=
  .webhook (some (.obj [("event", .str "pay"), ("data", .obj
    [("transactionId", .str "T2"), ("merchantOrderId", .str "order-1"), ("status", .str "SUCCESS"),
      ("signatureKeys", .arr [.str "transactionId", .str "merchantOrderId", .str "status"])])]))
    (twoPaymentsHmac "api-key" "merchantOrderId=order-1&status=SUCCESS&transactionId=T2") "eg"

/-- An online order, and two payments of it. -/
def orderAndTwoPayments : Pid → Option Call
  | 0 => some placeOnlineOrder
  | 1 => some (.webhook (some (payBody "SUCCESS")) (paySignature "SUCCESS") "eg")
  | 2 => some secondPayment
  | _ => none

/-- So many steps of each process in turn, with the same answers. -/
def inTurn (turns : List (Pid × Nat)) : List (Label Pid Env Ext) :=
  turns.flatMap fun turn => List.replicate turn.2 (.act turn.1 kosharyAnswers)

theorem paymentsShard_orderly : paymentsShard.Orderly where
  history := rfl
  txn _ := rfl
  locks := rfl
  names := List.nodup_nil
  drawn _ ho := absurd ho List.not_mem_nil
  ids := List.nodup_nil
  started := by decide
  numbered _ ho := absurd ho List.not_mem_nil
  told _ hsome := absurd rfl hsome
  charged _ hsome := absurd rfl hsome

/-- The second payment comes when the first one is through. -/
theorem placed_exactly_once_in_turn :
    ∃ t, machine.run (fun p o e w => decide (StillAwaiting p o e w))
        (inTurn [(0, 17), (1, 24), (2, 6)])
        (running twoPaymentsHmac sampleConfig orderAndTwoPayments paymentsShard) = some t ∧
      t.world.store.db.placedEvents "order-1" = 1 ∧
      PlacedExactlyOnce paymentsShard.store.db t.world.store.db t.world.store.history := by
  have hcalls : ∀ p c, orderAndTwoPayments p = some c → c.pays := by
    intro p c hc
    unfold orderAndTwoPayments at hc
    split at hc <;> cases hc <;> trivial
  have hrun : ((machine.run (fun p o e w => decide (StillAwaiting p o e w))
      (inTurn [(0, 17), (1, 24), (2, 6)])
      (running twoPaymentsHmac sampleConfig orderAndTwoPayments paymentsShard)).any fun t =>
        t.world.store.db.placedEvents "order-1" = 1) = true := by
    decide +kernel
  obtain ⟨t, ht, hone⟩ := (Option.any_eq_true _ _).mp hrun
  exact ⟨t, ht, of_decide_eq_true hone, placed_exactly_once twoPaymentsHmac sampleConfig
    paymentsShard paymentsShard_orderly orderAndTwoPayments hcalls
    (Machine.reaches_of_run (fun _ _ _ _ => of_decide_eq_true) _ ht)⟩

/-- Both payments find the open session before either captures it. -/
theorem order_placed_twice :
    ∃ t, machine.Reaches anyOp
        (running twoPaymentsHmac sampleConfig orderAndTwoPayments paymentsShard) t ∧
      t.world.store.db.placedEvents "order-1" = 2 ∧
      t.world.store.db.orders.map (fun o => t.world.store.db.succeededCharges o.id) = [2] ∧
      ¬PlacedExactlyOnce paymentsShard.store.db t.world.store.db t.world.store.history := by
  have hrun : ((machine.run (fun _ _ _ _ => true)
      (inTurn [(0, 17), (1, 6), (2, 6), (1, 18), (2, 18)])
      (running twoPaymentsHmac sampleConfig orderAndTwoPayments paymentsShard)).any fun t =>
        t.world.store.db.placedEvents "order-1" = 2 ∧
          t.world.store.db.orders.map (fun o => t.world.store.db.succeededCharges o.id) = [2])
      = true := by
    decide +kernel
  obtain ⟨t, ht, htwice⟩ := (Option.any_eq_true _ _).mp hrun
  obtain ⟨htold, hcharged⟩ := of_decide_eq_true htwice
  refine ⟨t, Machine.reaches_of_run (fun _ _ _ _ _ => trivial) _ ht, htold, hcharged,
    fun honce => ?_⟩
  have hone := honce.events "order-1" rfl
  rw [htold] at hone
  split_ifs at hone
  omega

end Samples

end OrderService
