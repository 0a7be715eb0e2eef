import OrderService.BalanceInvariant
import OrderService.CallEffects
import OrderService.LedgerRows
import OrderService.UniqueKeys
import OrderService.WebhookSpec
import Mathlib.Algebra.Order.BigOperators.Group.List

/-! Deliveries, webhooks and placements insert only rows that are well formed. -/
namespace OrderService
open ReadCommitted Interleaving

section Answers

/-- What core answers: prices and fees that are not negative, and a commission rate between 0
and 100%. -/
def CoreInRange (p : Pid) (o : Op) (e : Env) (w : World) : Prop :=
  CommissionInRange p o e w ∧
    match o with
    | .getBranch _ => 0 ≤ e.branch.deliveryFee
    | .getBranchProducts .. => ∀ b ∈ e.products, 0 ≤ b.price
    | _ => True

/-- The replies that this allows. -/
def InRange : (o : Op) → o.Res → Prop
  | .getBranch _, branch => 0 ≤ branch.deliveryFee ∧ 0 ≤ branch.commissionBps.getD 0 ∧
      branch.commissionBps.getD 0 ≤ 10000
  | .getBranchProducts .., products => ∀ b ∈ products, 0 ≤ b.price
  | _, _ => True

theorem inRange_exec {p : Pid} {o : Op} {e : Env} {w w' : World} {a : o.Res}
    (hok : CoreInRange p o e w) (hx : exec p o e w = some (.ok a, w')) : InRange o a := by
  cases o with
  | getBranch b =>
    simp only [exec] at hx
    split_ifs at hx
    · simp at hx
    · simp only [Option.some.injEq, Prod.mk.injEq, Except.ok.injEq] at hx
      obtain ⟨rfl, _⟩ := hx
      refine ⟨hok.2, ?_⟩
      cases hbps : e.branch.commissionBps with
      | none => decide
      | some bps => exact hok.1 bps hbps
  | getBranchProducts b ids =>
    simp only [exec] at hx
    split_ifs at hx
    · simp at hx
    · simp only [Option.some.injEq, Prod.mk.injEq, Except.ok.injEq] at hx
      obtain ⟨rfl, _⟩ := hx
      exact hok.2
  | _ => trivial

end Answers

section Rows

/-- A row of another kind needs no more than an amount. -/
theorem TransactionEntity.wellFormed_of_kind {t : TransactionEntity} {db : Db}
    (hamount : 0 < t.amount) (hcharge : t.transactionType ≠ .charge)
    (hcod : t.transactionType ≠ .codCollection) (hcommission : t.transactionType ≠ .commission) :
    t.WellFormed db :=
  ⟨hamount, fun h => absurd h hcharge, fun h => absurd h hcod, fun h => absurd h hcommission⟩

theorem keyed_ne_empty {label s : String} (h : label ≠ "") : label ++ s ≠ "" := by
  intro heq
  exact h (String.append_eq_empty_iff.mp heq).1

variable {order : OrderEntity}

/-- The write fits as long as the order is there. -/
def Backed (order : OrderEntity) (x : Write) : Prop :=
  ∀ db : Db, db.HasOrder order.terms → x.FitsLedger db

theorem backed_codCollection (horder : order.terms.WellFormed) (hcod : order.paymentMethod = .cod)
    (id : Nat) (now : Time) :
    Backed order (.insertTransaction ((codCollection order).toEntity id now)) := by
  intro db hdb
  refine ⟨horder.total, (fun h => by cases h), fun _ => ⟨order.terms, hdb, rfl, hcod, rfl, ?_⟩,
    (fun h => by cases h)⟩
  have hlabel : "cod-collect:" ≠ "" := by decide
  exact orNullText_of_ne (keyed_ne_empty hlabel)

theorem backed_commission (horder : order.terms.WellFormed) {bps : Int} (hbps : bps ≤ 10000)
    (hpos : 0 < bpsOf order.subtotal bps) (id : Nat) (now : Time) :
    Backed order (.insertTransaction
      ((commissionTransfer order (bpsOf order.subtotal bps)).toEntity id now)) := by
  intro db hdb
  refine ⟨hpos, (fun h => by cases h), (fun h => by cases h),
    fun _ => ⟨order.terms, hdb, rfl, ?_, ?_⟩⟩
  · exact bpsOf_le horder.subtotal hbps
  · have hlabel : "commission:" ≠ "" := by decide
    exact orNullText_of_ne (keyed_ne_empty hlabel)

theorem backed_transfer {amount : Int} {key : String} (hpos : 0 < amount) (id : Nat) (now : Time) :
    Backed order (.insertTransaction
      ((platformTransfer order .adjustment amount key).toEntity id now)) := by
  intro db _
  apply TransactionEntity.wellFormed_of_kind hpos <;> exact fun h => by cases h

end Rows

section Settlement
variable {P : Op → Prop} {R : (o : Op) → o.Res → Prop} {order : OrderEntity} {agentId : Nat}
  {c : Conn}

/-- The body may use what the condition says. -/
theorem calls_when {cond : Prop} [Decidable cond] {body : Svc Unit}
    (h : cond → body.Calls P R fun _ => True) : (onlyIf cond body).Calls P R fun _ => True := by
  unfold onlyIf
  split_ifs with hcond
  · exact h hcond
  · trivial

theorem calls_book {transfer : TransactionData} (hnow : P .now)
    (hfind : P (.sql c (.findTransactionByOrderAndType order.id transfer.transactionType)))
    (hcreate : ∀ now, P (.sql c (.createTransaction transfer now))) :
    (bookTransfer order transfer c).Calls P R fun _ => True := by
  apply Prog.calls_do (calls_sql hfind fun _ _ => trivial)
  intro existing _
  cases existing with
  | none => exact Prog.calls_discard (calls_createTransaction hnow hcreate) trivial
  | some t => trivial

theorem calls_cod (hnow : P .now)
    (hfind : P (.sql c (.findTransactionByOrderAndType order.id .codCollection)))
    (hcreate : ∀ now, P (.sql c (.createTransaction (codCollection order) now)))
    (hupdate : ∀ id now, P (.sql c (.updateTransactionStatus id .succeeded now))) :
    (collectCod order c).Calls P R fun _ => True := by
  apply Prog.calls_do (calls_sql hfind fun _ _ => trivial)
  intro existing _
  cases existing with
  | none => exact Prog.calls_discard (calls_createTransaction hnow hcreate) trivial
  | some t =>
    dsimp only
    split_ifs
    · refine Prog.calls_discard (Q := fun _ => True) ?_ trivial
      apply Prog.calls_do (calls_now hnow fun _ => trivial)
      intro now _
      exact Prog.calls_do (calls_sql (hupdate t.id now) fun _ _ => trivial)
        fun row _ => calls_toEntity fun _ _ => trivial
    · trivial

/-- A settlement books its rows for the order, each under its own condition. -/
theorem calls_settlement_backed (cfg : Config) (horder : order.terms.WellFormed) :
    (settleDeliveredOrder cfg order agentId .trx).Calls (Op.Appends (Backed order)) InRange
      fun _ => True := by
  have hnow : Op.now.Appends (Backed order) := rfl
  have hbranch : (Op.getBranch order.branchId).Appends (Backed order) := rfl
  have hread : ∀ q : Sql, (∀ x, ¬q.MayWrite x) → (Op.sql .trx q).Appends (Backed order) :=
    fun q hq x hx => absurd hx (hq x)
  have hcreate : ∀ (data : TransactionData), (∀ id now, Backed order
      (.insertTransaction (data.toEntity id now))) → ∀ now,
      (Op.sql .trx (.createTransaction data now)).Appends (Backed order) := by
    rintro data hdata now x ⟨id, rfl⟩
    exact hdata id now
  have hrate : (fetchCommissionBps order.branchId).Calls (Op.Appends (Backed order)) InRange
      fun bps => bps ≤ 10000 := calls_fetchCommissionBps hbranch (fun _ hb => hb.2.2) (by decide)
  apply Prog.calls_do hrate
  intro bps hbps
  apply Prog.calls_do (calls_when fun hcod => calls_cod hnow (hread _ fun x hx => hx)
    (hcreate _ (backed_codCollection horder hcod)) ?_)
  · intro _ _
    apply Prog.calls_do (calls_when fun hpos => calls_book hnow (hread _ fun x hx => hx)
      (hcreate _ (backed_commission horder hbps hpos)))
    intro _ _
    apply Prog.calls_do (calls_when fun hpos => calls_book hnow (hread _ fun x hx => hx)
      (hcreate _ (backed_transfer hpos)))
    intro _ _
    apply Prog.calls_do (calls_when fun hpos => calls_book hnow (hread _ fun x hx => hx)
      (hcreate _ (backed_transfer hpos)))
    intro _ _
    refine Prog.calls_do (calls_when fun _ => ?_) ?_
    · apply Prog.calls_do (calls_sql (hread (.lockBalance _ _) fun x hx => hx) fun _ _ => trivial)
      intro balance _
      refine calls_sql ?_ fun _ _ => trivial
      rintro x rfl db _
      trivial
    intro _ _
    refine Prog.calls_do (calls_when fun _ => Prog.calls_discard (Q := fun _ => True) ?_ trivial) ?_
    · refine Prog.calls_do (calls_sql ?_ fun _ _ => trivial) ?_
      · rintro x ⟨id, clock, rfl⟩ db _
        trivial
      · intro row _
        cases row with
        | some e => trivial
        | none =>
          apply Prog.calls_do (calls_sql (hread (.findEarningByOrder _) fun x hx => hx) fun _ _ => trivial)
          intro existing _
          cases existing <;> trivial
    intro _ _
    apply Prog.calls_do (calls_now hnow fun _ => trivial)
    intro now _
    refine Prog.calls_discard (calls_sql ?_ fun _ _ => trivial) trivial
    rintro x ⟨id, clock, rfl⟩ db _
    trivial
  · rintro id now x rfl db _
    trivial

end Settlement

section Deliveries
variable {db₀ : Db} {p : Pid} {w : World} {K : Db → Prop}

theorem hasOrder_lasting (o : OrderTerms) : ledgerGrowth.Lasting fun db => db.HasOrder o :=
  fun _ _ hle h => hle.orders o h

/-- The update of an order in the transaction tells which order it was. -/
theorem wp_updateOrder_tells {G : Growth engine} {ok : Pid → Op → Env → World → Prop}
    (hs : G.sound db₀) {publicId : String} {status : OrderStatus} {stamp : Option Stamp}
    (hfits : ∀ now db, G.fits (.setOrderStatus publicId status stamp now) db)
    {L : OrderEntity → Db → Prop}
    (hL : ∀ db o now, G.sound db → db.order publicId = some o → L (o.withStatus status stamp now)
      (engine.apply (.setOrderStatus publicId status stamp now) db))
    (h : w.Knows G db₀ p fun _ => True) {P : OrderEntity → World → Prop}
    (hP : ∀ o v, v.Knows G db₀ p (L o) → P o v) :
    wp machine ok (grownSpec G db₀) p (updateOrderStatus publicId status .trx stamp) (OnOk P) w := by
  have htrue : G.Lasting fun _ => True := fun _ _ _ _ => trivial
  unfold updateOrderStatus
  apply wp_seq
  apply wp_outer_knows htrue h rfl
  intro e now _ v₁ _ _ hv₁
  apply wp_seq
  apply wp_trx_knows (L := fun row db => ∀ o, row = some o → L o db) hs htrue hv₁
  · intro seqs clock db _ hsound
    simp only [Sql.eval]
    cases hfound : db.order publicId with
    | none => exact ⟨trivial, by rintro _ h o rfl; cases h⟩
    | some o =>
      refine ⟨⟨hfits now db, trivial⟩, ?_⟩
      rintro _ h o' rfl
      simp only [writing, Except.ok.injEq, Option.some.injEq] at h
      rw [← h]
      exact hL db o now hsound hfound
  · intro row v₂ hv₂
    apply wp_toEntity
    rintro o rfl
    exact hP o v₂ (hv₂.mono fun db hdb => hdb o rfl)

/-- An order that is updated in the transaction is one of the ledger. -/
theorem wp_updateOrderStatus_knows (hs : db₀.RowsWellFormed) {publicId : String}
    {status : OrderStatus} {stamp : Option Stamp} (h : w.Knows ledgerGrowth db₀ p fun _ => True)
    {P : OrderEntity → World → Prop}
    (hP : ∀ o v, o.terms.WellFormed →
      v.Knows ledgerGrowth db₀ p (fun db => db.HasOrder o.terms) → P o v) :
    wp machine CoreInRange (grownSpec ledgerGrowth db₀) p
      (updateOrderStatus publicId status .trx stamp) (OnOk P) w := by
  apply wp_updateOrder_tells (L := fun o db => db.HasOrder o.terms ∧ o.terms.WellFormed) hs
    (fun _ _ => trivial) _ h
  · exact fun o v hv => hP o v hv.known.2 (hv.mono fun _ hdb => hdb.1)
  · intro db o now hsound hfound
    have hdb : db.HasOrder o.terms := ⟨o, List.mem_of_find?_eq_some hfound, rfl⟩
    rw [withStatus_terms]
    exact ⟨(hasOrder_apply _ db _).mpr (.inl hdb), hsound.orders _ hdb⟩

theorem wp_deliver_wellFormed (hs : db₀.RowsWellFormed) (cfg : Config) (order : OrderEntity)
    (agentId : Nat) (region : String) {P : OrderEntity → World → Prop} (hP : ∀ o v, P o v) :
    wp machine CoreInRange (grownSpec ledgerGrowth db₀) p (deliver cfg order agentId region)
      (OnOk P) w := by
  have hS := sharedSpec_isolated (ledgerGrowth.Run db₀) p
  unfold deliver
  split_ifs
  · trivial
  apply wp_seq
  apply wp_start_fresh
  intro v₁ hv₁
  apply wp_catch_ok _ fun err v => wp_abort hS
  apply wp_seq
  apply wp_updateOrderStatus_knows hs hv₁
  intro updated v₂ hterms hv₂
  have hlasting := hasOrder_lasting updated.terms
  apply wp_seq
  apply wp_appends_knows hlasting (fun x hx db hdb => hx db hdb)
    (calls_settlement_backed cfg hterms) (fun o e w a w' hok hx => inRange_exec hok hx) hv₂
  intro earned v₃ _ hv₃
  apply wp_seq
  apply wp_commit_knows hlasting hv₃
  intro v₄ _
  apply wp_outside hS _ hP
  apply Prog.calls_do (calls_outer rfl)
  intro _ _
  apply Prog.calls_do (calls_emitDeliveryStatus fun _ => rfl)
  intro _ _
  exact Prog.calls_do (calls_outer rfl) fun _ _ => trivial

end Deliveries

section Webhooks
variable {db₀ : Db} {p : Pid} {w : World} {ctx : WebhookContext} {order : OrderEntity}
  {session : PaymentSessionEntity}

/-- The session is captured, and asks for what its order costs. -/
def Captured (session : PaymentSessionEntity) (db : Db) : Prop :=
  db.HasCaptured session.terms ∧ session.terms.WellFormed db

theorem captured_lasting (session : PaymentSessionEntity) :
    ledgerGrowth.Lasting (Captured session) :=
  fun _ _ hle h => ⟨hle.captured _ h.1, h.2.mono hle⟩

theorem hasSession_lasting (s : SessionTerms) : ledgerGrowth.Lasting fun db => db.HasSession s :=
  fun _ _ hle h => hle.sessions s h

/-- The write fits once the session is captured. -/
def Payable (session : PaymentSessionEntity) (x : Write) : Prop :=
  ∀ db : Db, Captured session db → x.FitsLedger db

/-- What follows the lookup of the owner in `applySuccess` appends a charge and writes beside it. -/
theorem calls_bookPayment {H : Write → Prop} {R : (o : Op) → o.Res → Prop} {dstAccId : Nat}
    (hcharge : ∀ id now, H (.insertTransaction
      ((chargeData ctx order session .succeeded dstAccId).toEntity id now)))
    (houtbox : ∀ row, H (.insertOutbox row))
    (hplace : ∀ now, H (.setOrderStatus order.publicId .placed none now)) :
    (do
      recordCharge ctx order session .succeeded dstAccId
      let completedAt ← now
      insertOutboxEvent .trx (paymentEvent ctx order session .paymentCompleted completedAt)
      placePaidOrder order : Svc (Option (OrderEntity × Nat))).Calls (Op.Appends H) R
      fun _ => True := by
  have hnow : Op.now.Appends H := rfl
  have hread : ∀ q : Sql, (∀ x, ¬q.MayWrite x) → (Op.sql .trx q).Appends H :=
    fun q hq x hx => absurd hx (hq x)
  have hevent : ∀ input : OutboxInput, (Op.sql .trx (.insertOutboxEvent input)).Appends H := by
    rintro input x ⟨id, clock, rfl⟩
    exact houtbox _
  apply Prog.calls_do (calls_recordCharge hnow (hread (.findTransactionByProviderReference _)
    fun x hx => hx) ?_)
  · intro _ _
    apply Prog.calls_do (calls_now hnow fun _ => trivial)
    intro completedAt _
    apply Prog.calls_do (calls_sql (hevent _) fun _ _ => trivial)
    intro _ _
    unfold placePaidOrder
    split_ifs
    · have hplaced : (updateOrderStatus order.publicId .placed .trx none).Calls
          (Op.Appends H) R fun _ => True := by
        apply Prog.calls_do (calls_now hnow fun _ => trivial)
        intro now _
        refine Prog.calls_do (calls_sql ?_ fun _ _ => trivial)
          fun row _ => calls_toEntity fun _ _ => trivial
        rintro x rfl
        exact hplace now
      apply Prog.calls_do hplaced
      intro placed _
      apply Prog.calls_do (calls_sql (hread (.findItemsByOrderIds _) fun x hx => hx)
        fun _ _ => trivial)
      intro items _
      exact Prog.calls_do (calls_sql (hevent _) fun _ _ => trivial) fun _ _ => trivial
    · trivial
  · rintro now x ⟨id, rfl⟩
    exact hcharge id now

/-- What follows the capture of the session in `applySuccess` fits a captured session. -/
theorem calls_success_captured (horder : session.orderId = order.id) :
    (do
      let restaurantOwnerId ← fetchRestaurantOwner order.branchId
      recordCharge ctx order session .succeeded (restaurantOwnerId.getD order.restaurantId)
      let completedAt ← now
      insertOutboxEvent .trx (paymentEvent ctx order session .paymentCompleted completedAt)
      placePaidOrder order : Svc (Option (OrderEntity × Nat))).Calls
      (Op.Appends (Payable session)) InRange fun _ => True := by
  have hbranch : (Op.getBranch order.branchId).Appends (Payable session) := rfl
  apply Prog.calls_do (calls_fetchRestaurantOwner hbranch)
  intro owner _
  apply calls_bookPayment _ (fun _ _ _ => trivial) (fun _ _ _ => trivial)
  -- The charge repeats the session.
  rintro id now db ⟨hcaptured, hs⟩
  refine ⟨hs.amount, fun _ => ⟨session.terms, hcaptured, hs, ?_, rfl, rfl⟩,
    (fun h => by cases h), (fun h => by cases h)⟩
  exact congrArg (fun n => orNull (some n)) horder.symm

theorem wp_capture_knows (hs : db₀.RowsWellFormed)
    (h : w.Knows ledgerGrowth db₀ p fun db => db.HasSession session.terms)
    {P : PaymentSessionEntity → World → Prop}
    (hP : ∀ s v, v.Knows ledgerGrowth db₀ p (Captured session) → P s v) :
    wp machine CoreInRange (grownSpec ledgerGrowth db₀) p
      (updatePaymentSessionStatus session.id .captured .trx) (OnOk P) w := by
  have hlasting := hasSession_lasting session.terms
  unfold updatePaymentSessionStatus
  apply wp_seq
  apply wp_outer_knows hlasting h rfl
  intro e now _ v₁ _ _ hv₁
  apply wp_seq
  apply wp_trx_knows (L := fun row db => ∀ s, row = some s → Captured session db) hs hlasting hv₁
  · intro seqs clock db hdb hsound
    simp only [Sql.eval]
    cases hfound : db.paymentSessions.find? fun s => s.id = session.id with
    | none => exact ⟨trivial, by rintro _ h s rfl; cases h⟩
    | some found =>
      refine ⟨⟨rfl, trivial⟩, fun _ _ _ _ => ⟨?_, ?_⟩⟩
      · exact (hasCaptured_setSessionStatus _ _ _ db _).mpr (.inl ⟨rfl, rfl, hdb⟩)
      · have hfits : (Write.setSessionStatus session.id .captured now).FitsLedger db := rfl
        exact (hsound.sessions _ hdb).mono hfits.grows
  · intro row v₂ hv₂
    apply wp_toEntity
    rintro s rfl
    exact hP s v₂ (hv₂.mono fun db hdb => hdb s rfl)

theorem wp_processWebhook_wellFormed (hs : db₀.RowsWellFormed) {event : Json}
    (hpay : event.isText "pay" = true) {insertedId : Nat}
    (h : w.Knows ledgerGrowth db₀ p fun _ => True) {P : Unit → World → Prop}
    (hP : ∀ v, P () v) :
    wp machine CoreInRange (grownSpec ledgerGrowth db₀) p (processWebhook event ctx insertedId)
      (OnOk P) w := by
  have hS := sharedSpec_isolated (ledgerGrowth.Run db₀) p
  have htrue : ledgerGrowth.Lasting fun _ => True := fun _ _ _ _ => trivial
  unfold processWebhook
  apply wp_seq
  have hfind : wp machine CoreInRange (grownSpec ledgerGrowth db₀) p
      (findReferencedOrder (orderReference ctx.data) .trx)
      (OnOk fun _ v => v.Knows ledgerGrowth db₀ p fun _ => True) w := by
    unfold findReferencedOrder
    split
    · exact wp_trx_reads hs htrue h (fun _ _ _ => rfl) (fun _ _ _ _ _ _ _ => trivial)
        fun _ _ hv => hv
    · exact h
    · trivial
  apply wp_mono _ hfind
  intro r v₁ hv₁
  cases r with
  | error err => trivial
  | ok found =>
  cases found with
  | none => trivial
  | some order =>
  apply wp_seq
  apply wp_trx_reads (L := fun row db => ∀ s, row = some s → db.HasSession s.terms ∧
    s.orderId = order.id) hs htrue hv₁ fun _ _ _ => rfl
  · intro seqs clock db row _ _ hreply s hrow
    simp only [Sql.eval, reading, Except.ok.injEq] at hreply
    rw [← hreply] at hrow
    obtain ⟨hmem, htest⟩ := List.mem_filter.mp (mem_of_firstDesc hrow)
    simp only [Bool.and_eq_true, decide_eq_true_eq] at htest
    exact ⟨⟨s, hmem, rfl⟩, htest.1⟩
  intro row v₂ hv₂
  cases row with
  | none => trivial
  | some session =>
  have horder := (hv₂.known session rfl).2
  apply wp_seq
  have happly : wp machine CoreInRange (grownSpec ledgerGrowth db₀) p
      (applyEvent event ctx order session)
      (OnOk fun _ v => v.Knows ledgerGrowth db₀ p (Captured session)) v₂ := by
    unfold applyEvent
    rw [hpay, Bool.true_or, if_pos rfl]
    unfold applySuccess
    apply wp_seq
    apply wp_capture_knows hs (hv₂.mono fun db hdb => (hdb session rfl).1)
    intro captured v₃ hv₃
    exact wp_appends_knows (captured_lasting session) (fun x hx db hdb => hx db hdb)
      (calls_success_captured horder) (fun o e w a w' hok hx => inRange_exec hok hx) hv₃
      fun _ _ _ hv => hv
  apply wp_mono _ happly
  intro r v₄ hv₄
  cases r with
  | error err => trivial
  | ok broadcast =>
  have hlasting := captured_lasting session
  apply wp_seq
  apply wp_outer_knows hlasting hv₄ rfl
  intro e processedAt _ v₅ _ _ hv₅
  apply wp_seq
  apply wp_trx_knows hs hlasting hv₅
  · intro seqs clock db hdb _
    have hfits : (Write.setWebhookEvent insertedId (some processedAt) none).FitsLedger db := trivial
    exact ⟨⟨hfits, trivial⟩, fun _ _ => hlasting _ _ hfits.grows hdb⟩
  intro _ v₆ hv₆
  apply wp_seq
  apply wp_commit_knows hlasting hv₆
  exact fun v₇ _ => wp_outside hS calls_announcePlaced fun _ v => hP v

/-- Only a payment comes as far as the processing. -/
theorem wp_webhook_wellFormed (hs : db₀.RowsWellFormed) (hmacSha256 : String → String → String)
    (cfg : Config) (rawBody : Option Json) (signature region : String)
    {P : Unit → World → Prop} (hP : ∀ v, P () v) :
    wp machine CoreInRange (grownSpec ledgerGrowth db₀) p
      (verifyAndProcessWebhook hmacSha256 cfg rawBody signature region) (OnOk P) w := by
  have hS := sharedSpec_isolated (ledgerGrowth.Run db₀) p
  have hmark : ∀ id processedAt processError x,
      (Sql.updateWebhookEventStatus id processedAt processError).MayWrite x →
      ∀ db, ledgerGrowth.fits x db := by
    rintro id processedAt processError x rfl db
    trivial
  unfold verifyAndProcessWebhook
  split
  · trivial
  next envelope _ =>
  split_ifs with hevent
  · exact hP w
  · trivial
  have hpay : envelope.event.isText "pay" = true := by
    simpa using hevent
  apply wp_seq
  apply wp_pool_fits fun x hx => absurd hx id
  intro provider v₁
  cases provider with
  | none => trivial
  | some provider =>
  dsimp only
  split_ifs
  · trivial
  apply wp_seq
  apply wp_fromExcept
  intro isValid _
  split_ifs
  · trivial
  apply wp_seq
  apply wp_fromExcept
  intro transactionId _
  unfold receiveWebhook insertWebhookEvent
  apply wp_seq
  apply wp_seq
  apply wp_now_ok hS
  intro v₂ _ _
  apply wp_pool_fits
  · rintro x ⟨id, rfl⟩ db
    trivial
  intro inserted v₃
  cases inserted with
  | none => exact hP v₃
  | some insertedEvent =>
  dsimp only
  apply wp_seq
  apply wp_start_fresh
  intro v₄ hv₄
  apply wp_catch_ok (wp_processWebhook_wellFormed hs hpay hv₄ hP)
  intro error v₅
  apply wp_seq
  apply wp_rollback hS
  intro v₆ _ _ _
  apply wp_seq
  apply wp_now_ok hS
  intro v₇ _ _
  apply wp_seq
  exact wp_pool_fits (hmark _ _ _) fun _ _ => trivial

end Webhooks

section Placements
variable {db₀ : Db} {p : Pid} {w : World}

/-- Positive quantities at prices that are not negative. -/
theorem subtotalOf_nonneg {region : String} {orderId : Nat} {products : List CoreBranchProduct}
    {items : List OrderItemInput} (hprices : ∀ b ∈ products, 0 ≤ b.price)
    (hquantities : ∀ i ∈ orderLines region orderId products items, 0 < i.quantity) :
    0 ≤ subtotalOf (orderLines region orderId products items) := by
  apply List.sum_nonneg
  intro n hn
  obtain ⟨line, hline, rfl⟩ := List.mem_map.mp hn
  have hquantity := hquantities line hline
  obtain ⟨i, _, hi⟩ := List.mem_filterMap.mp hline
  obtain ⟨b, hb, rfl⟩ := Option.map_eq_some_iff.mp hi
  have hmem : b ∈ products := List.mem_reverse.mp (List.mem_of_find?_eq_some hb)
  have hquantity : 0 < i.quantity := hquantity
  exact Int.mul_nonneg (hprices b hmem) (Int.le_of_lt hquantity)

/-- The lines differ in nothing but the order id. -/
theorem subtotalOf_orderLines (region : String) (orderId orderId' : Nat)
    (products : List CoreBranchProduct) (items : List OrderItemInput) :
    subtotalOf (orderLines region orderId products items)
      = subtotalOf (orderLines region orderId' products items) := by
  unfold subtotalOf orderLines
  rw [List.map_filterMap, List.map_filterMap]
  refine congrArg List.sum (List.filterMap_congr fun i _ => ?_)
  cases productOf products i.productId <;> rfl

/-- The insert of the items checks their quantities, and with them the amounts of the order. -/
theorem wp_insertOrder_wellFormed {data : OrderData}
    {lines : Nat → List OrderItemData}
    (hdata : ∀ id, (∀ i ∈ lines id, 0 < i.quantity) → 0 ≤ data.subtotal ∧ 0 < data.total)
    (h : w.Knows ledgerGrowth db₀ p fun _ => True) (hempty : w.log p = [])
    {P : OrderEntity × List OrderItemEntity → World → Prop}
    (hP : ∀ o items v, o.terms.WellFormed → o.paymentMethod = data.paymentMethod →
      v.Holds ledgerGrowth db₀ (fun db => db.HasOrder o.terms) → P (o, items) v) :
    wp machine CoreInRange (grownSpec ledgerGrowth db₀) p (insertOrder data lines) (OnOk P) w := by
  have hS := sharedSpec_isolated (ledgerGrowth.Run db₀) p
  have hlog : w.store.txn p = .active [] := by
    obtain ⟨log, hlog⟩ := h.opened
    rw [hlog, ← hempty, World.log_of_active hlog]
  unfold insertOrder createOrder bulkInsertItems
  apply wp_seq
  apply wp_seq
  apply wp_now_ok hS
  intro v₁ hr₁ _
  have hlog₁ : v₁.store.txn p = .active [] := (hS.sees w v₁ hr₁).1.txn.trans hlog
  apply wp_trx_ok hS hlog₁
  intro v₂ _ order _ _ hlog₂ _ _ hreply
  simp only [World.inTrx, Sql.eval] at hreply
  have hwrites : (v₂.inTrx p (.createOrder data v₁.clock)).writes = [.insertOrder order] ∧
      order.terms = ⟨order.id, data.publicId, data.subtotal, data.total, data.currency,
        data.paymentMethod⟩ := by
    simp only [World.inTrx, Sql.eval]
    cases howner : data.restaurantOwnerId with
    | none =>
      rw [howner] at hreply
      cases hreply
    | some ownerId =>
      simp only [howner, writing, Except.ok.injEq] at hreply
      rw [← hreply]
      exact ⟨rfl, rfl⟩
  have hlog₃ : (v₂.queried p (.createOrder data v₁.clock)).store.txn p
      = .active [.insertOrder order] := by
    rw [World.queried_txn_of_log hlog₂, hwrites.1]
    rfl
  apply wp_seq
  apply wp_seq
  apply wp_now_ok hS
  intro v₄ hr₄ _
  have hlog₄ := (hS.sees _ v₄ hr₄).1.txn.trans hlog₃
  apply wp_trx_ok hS hlog₄
  intro v₅ _ items _ hi₅ hlog₅ _ _ hitems
  simp only [World.inTrx, Sql.eval] at hitems
  split_ifs at hitems with hall
  have hquantities : ∀ i ∈ lines order.id, 0 < i.quantity := by
    simpa using hall
  have hterms : order.terms.WellFormed := by
    have hamounts := hdata order.id hquantities
    rw [hwrites.2]
    exact ⟨hamounts.1, hamounts.2⟩
  -- Only now does the log fit.
  have hitemRows : (v₅.inTrx p (.bulkInsertItems (lines order.id) v₄.clock)).writes
      = (itemRows (lines order.id) v₅.seqs.orderItems v₄.clock).map .insertOrderItem := by
    simp only [World.inTrx, Sql.eval, if_pos hall, writing]
  have hknows : (v₅.queried p (.bulkInsertItems (lines order.id) v₄.clock)).Knows ledgerGrowth db₀
      p fun db => db.HasOrder order.terms := by
    have hinserted : v₅.Knows ledgerGrowth db₀ p fun db => db.HasOrder order.terms := by
      have hlog : v₅.log p = [.insertOrder order] := World.log_of_active hlog₅
      refine ⟨hi₅.2, ⟨_, hlog₅⟩, by rw [hlog]; exact ⟨hterms, trivial⟩, ?_⟩
      rw [World.view_eq, hlog]
      exact (hasOrder_apply _ _ _).mpr (.inr ⟨order, rfl, rfl⟩)
    have hfit : ledgerGrowth.Fitting
        (v₅.inTrx p (.bulkInsertItems (lines order.id) v₄.clock)).writes (v₅.view p) := by
      apply Growth.fitting_of_lasting (hasOrder_lasting order.terms) _ hinserted.known
      intro x hx db _
      rw [hitemRows] at hx
      obtain ⟨row, _, rfl⟩ := List.mem_map.mp hx
      trivial
    exact hinserted.queried hfit (hasOrder_lasting _ _ _ hfit.le hinserted.known)
  apply wp_seq
  have hevent : (onlyIf (order.status = .placed)
      (insertOutboxEvent .trx (orderPlacedEvent order items))).Calls
      (Op.Appends (Backed order)) InRange fun _ => True := by
    refine calls_when fun _ => calls_sql ?_ fun _ _ => trivial
    rintro x ⟨id, clock, rfl⟩ db _
    trivial
  apply wp_appends_knows (hasOrder_lasting order.terms) (fun x hx db hdb => hx db hdb) hevent
    (fun o e w a w' hok hx => inRange_exec hok hx) hknows
  intro _ v₆ _ hv₆
  apply wp_seq
  apply wp_commit_knows (hasOrder_lasting order.terms) hv₆
  intro v₇ hv₇
  exact hP order items v₇ hterms (congrArg OrderTerms.paymentMethod hwrites.2) hv₇

theorem calls_undoStock_quiet {branchId : Nat} {items : List ReserveStockItem} :
    (undoStock branchId items).Calls (fun o => o.commits = false) (fun _ _ => True)
      fun _ => True := Prog.calls_catch (calls_quiet rfl) fun _ => trivial

/-- The session asks for the total of the order that was just committed. -/
theorem wp_openPayment_wellFormed (hs : db₀.RowsWellFormed) (cfg : Config) {order : OrderEntity}
    {branchId : Nat} {stock : List ReserveStockItem} (hterms : order.terms.WellFormed)
    (honline : order.paymentMethod = .online)
    (h : w.Holds ledgerGrowth db₀ fun db => db.HasOrder order.terms)
    {P : OrderResponsePaymentInfo → World → Prop} (hP : ∀ a v, P a v) :
    wp machine CoreInRange (grownSpec ledgerGrowth db₀) p (openPayment cfg order branchId stock)
      (OnOk P) w := by
  have hS := sharedSpec_isolated (ledgerGrowth.Run db₀) p
  have hlasting := hasOrder_lasting order.terms
  unfold openPayment
  apply wp_catch_ok
  · unfold initializePaymentSession
    apply wp_seq
    apply wp_seq
    apply wp_pool_reads hs hlasting h fun _ _ _ => rfl
    intro existing v₁ hv₁
    cases existing with
    | some session => exact hP _ v₁
    | none =>
      apply wp_seq
      apply wp_outer_holds hlasting hv₁ rfl
      intro e result _ v₂ _ _ hv₂
      unfold createPaymentSession
      apply wp_seq
      apply wp_seq
      apply wp_outer_holds hlasting hv₂ rfl
      intro e now _ v₃ _ _ hv₃
      apply wp_pool_holds (L := fun _ _ => True) hs hlasting hv₃
      · intro seqs clock db hdb _
        refine ⟨?_, fun _ _ => trivial⟩
        simp only [Sql.eval]
        split_ifs
        · trivial
        · exact ⟨⟨hterms.total, order.terms, hdb, rfl, honline, rfl, rfl⟩, trivial⟩
      · exact fun session v₄ _ => hP _ v₄
  · -- The order was committed, so this update is rejected.
    intro payErr v
    have hquiet : (do
        let _ ← updateOrderStatus order.publicId .cancelled .trx (some .cancelledAt)
        undoStock branchId stock
        throw payErr : Svc OrderResponsePaymentInfo).Calls (fun o => o.commits = false)
        (fun _ _ => True) fun _ => False := by
      have hupdate : (updateOrderStatus order.publicId .cancelled .trx (some .cancelledAt)).Calls
          (fun o => o.commits = false) (fun _ _ => True) fun _ => True :=
        Prog.calls_do (calls_quiet rfl) fun _ _ => Prog.calls_do (calls_quiet rfl) fun _ _ =>
          calls_toEntity fun _ _ => trivial
      exact Prog.calls_do hupdate fun _ _ => Prog.calls_do calls_undoStock_quiet fun _ _ => trivial
    exact wp_quiet hS hquiet fun _ _ hnever => absurd hnever id

theorem wp_submitOrder_wellFormed (hs : db₀.RowsWellFormed) (cfg : Config) {actor : ActorContext}
    {resolvedRegion : String} {branch : Branch} {address : CoreCustomerAddress}
    {products : List CoreBranchProduct} {dto : CreateOrderRequest}
    (hfee : 0 ≤ branch.deliveryFee) (hprices : ∀ b ∈ products, 0 ≤ b.price)
    {P : OrderResponse → World → Prop} (hP : ∀ r v, P r v) :
    wp machine CoreInRange (grownSpec ledgerGrowth db₀) p
      (submitOrder cfg actor resolvedRegion branch address products dto) (OnOk P) w := by
  have hS := sharedSpec_isolated (ledgerGrowth.Run db₀) p
  unfold submitOrder
  apply wp_seq
  apply wp_outer_ok hS rfl
  intro _ _ publicId _ _ _ _ _ _ _ _ _
  apply wp_seq
  apply wp_outer_ok hS rfl
  intro _ _ _ _ _ _ _ _ _ _ _ _
  apply wp_seq
  apply wp_start_ok hS
  intro v₁ _ hi₁ _
  have hstarted : v₁.Holds ledgerGrowth db₀ fun _ => True := ⟨hi₁.2, trivial⟩
  have hempty : ({ v₁ with store := v₁.store.start p } : World).log p = [] :=
    World.log_of_active (World.start_txn v₁ p)
  apply wp_seq
  apply wp_catch_ok
  · apply wp_insertOrder_wellFormed _ hstarted.start hempty
    · intro order items v₂ hterms hmethod hv₂
      -- What follows the commit.
      apply wp_seq
      have hpayment : wp machine CoreInRange (grownSpec ledgerGrowth db₀) p
          (paymentData cfg dto order (dto.items.map fun i => ⟨i.productId, i.quantity⟩))
          (OnOk fun _ _ => True) v₂ := by
        unfold paymentData
        split_ifs with honline
        · apply wp_seq
          exact wp_openPayment_wellFormed hs cfg hterms (hmethod.trans honline) hv₂
            fun _ _ => trivial
        · trivial
      apply wp_mono _ hpayment
      intro r v₃ _
      cases r with
      | error err => trivial
      | ok payment =>
      apply wp_outside hS _ fun _ _ => hP _ _
      apply Prog.calls_do (calls_outer rfl)
      intro _ _
      exact Prog.calls_do (calls_when fun _ => calls_outer rfl) fun _ _ => trivial
    · intro id hquantities
      have hsame := subtotalOf_orderLines resolvedRegion 0 id products dto.items
      have hsubtotal := subtotalOf_nonneg hprices hquantities
      have htotal : (0 : Int) < subtotalOf (orderLines resolvedRegion 0 products dto.items)
          + branch.deliveryFee + serviceFeeMinor := by
        have hfixed : serviceFeeMinor = 1000 := rfl
        omega
      exact ⟨hsame ▸ hsubtotal, htotal⟩
  · intro err v
    refine wp_quiet (Q := fun _ => False) hS ?_ fun _ _ hnever => absurd hnever id
    apply Prog.calls_do (calls_quiet rfl)
    intro _ _
    exact Prog.calls_do calls_undoStock_quiet fun _ _ => trivial

end Placements

end OrderService
