import OrderService.AccountRows
import OrderService.LedgerEffects

/-! Webhooks, deliveries and refunds insert only rows that name the restaurant as their source
does. -/
namespace OrderService
open ReadCommitted Interleaving

section Statement

/-- The transaction that a webhook tells of. -/
def webhookTransaction (rawBody : Option Json) : Option String :=
  (parseEnvelope rawBody).toOption.bind fun envelope =>
    (((getField envelope.data "transactionId").getD .null).text).toOption

/-- The webhook of a transaction, which is processed once, is answered with the owner of `owners`
when it asks core for the branch. There is none when the request fails, or the branch has none.
Whatever else is asked is answered in any way. -/
def BranchAnswers (calls : Pid → Option Call) (owners : String → Option Nat) (p : Pid) (o : Op)
    (e : Env) (_ : World) : Prop :=
  match o with
  | .getBranch _ => ∀ rawBody signature region transactionId,
      calls p = some (.webhook rawBody signature region) →
      webhookTransaction rawBody = some transactionId →
      (if e.fail then none else e.branch.restaurantOwnerId) = owners transactionId
  | _ => True

end Statement

section Rules
variable {owners : String → Option Nat} {db₀ : Db} {p : Pid} {w : World}
  {ok : Pid → Op → Env → World → Prop} {order : OrderEntity}

theorem hasAccounts_lasting (o : AccountTerms) :
    (accountGrowth owners).Lasting fun db => db.HasAccounts o := fun _ _ hle h => hle.orders o h

/-- The write fits as long as the order is there. -/
def Accountable (owners : String → Option Nat) (order : OrderEntity) (x : Write) : Prop :=
  ∀ db : Db, db.HasAccounts order.accounts → x.FitsAccounts owners db

theorem accountable_settlement {agentId : Nat} {rate : Int → Prop} {x : Write}
    (h : SettlementWrite order agentId rate x) : Accountable owners order x := by
  intro db hdb
  cases h with
  | cod id now | commission bps id now | serviceFee id now | deliveryFee id now =>
    exact accounted_settled owners hdb (fun h => by cases h) (fun h => by cases h)
      (fun h => by cases h) rfl rfl
  | _ => trivial

/-- A settlement takes the account of the restaurant from the order. -/
theorem calls_settlement_accounts {agentId : Nat} (cfg : Config) :
    (settleDeliveredOrder cfg order agentId .trx).Calls (Op.Appends (Accountable owners order))
      (fun _ _ => True) fun _ => True :=
  calls_settleDeliveredOrder (fun _ => True)
    (fun _ hq x hx => accountable_settlement (hq x hx)) cfg rfl rfl (fun _ _ => trivial) trivial

theorem wp_deliver_accounts (hs : db₀.RowsAccounted owners) (cfg : Config) (agentId : Nat)
    (region : String) {P : OrderEntity → World → Prop} (hP : ∀ o v, P o v) :
    wp machine ok (grownSpec (accountGrowth owners) db₀) p (deliver cfg order agentId region)
      (OnOk P) w := by
  have hS := sharedSpec_isolated ((accountGrowth owners).Run db₀) p
  unfold deliver
  split_ifs
  · trivial
  apply wp_seq
  apply wp_start_fresh
  intro v₁ hv₁
  apply wp_catch_ok _ fun err v => wp_abort hS
  apply wp_seq
  apply wp_updateOrder_tells (L := fun o db => db.HasAccounts o.accounts) hs
    (fun _ _ => trivial) _ hv₁
  · intro updated v₂ hv₂
    have hlasting : (accountGrowth owners).Lasting fun db => db.HasAccounts updated.accounts :=
      hasAccounts_lasting _
    apply wp_seq
    apply wp_appends_knows hlasting (fun x hx db hdb => hx db hdb) (calls_settlement_accounts cfg)
      (fun _ _ _ _ _ _ _ => trivial) hv₂
    intro earned v₃ _ hv₃
    apply wp_seq
    apply wp_commit_knows hlasting hv₃
    intro v₄ _
    apply wp_outside hS _ hP
    apply Prog.calls_do (calls_outer rfl)
    intro _ _
    apply Prog.calls_do (calls_emitDeliveryStatus fun _ => rfl)
    intro _ _
    exact Prog.calls_do (calls_outer rfl) fun _ _ => trivial
  · intro db o now _ hfound
    have hdb : db.HasAccounts o.accounts := ⟨o, List.mem_of_find?_eq_some hfound, rfl⟩
    rw [withStatus_accounts]
    exact (hasAccounts_apply _ db _).mpr (.inl hdb)

end Rules

section Webhooks
variable {owners : String → Option Nat} {db₀ : Db} {p : Pid} {w : World}
  {ok : Pid → Op → Env → World → Prop} {ctx : WebhookContext} {order : OrderEntity}
  {session : PaymentSessionEntity}
  -- What core answers while the transaction of `ctx` is processed.
  (hlook : ∀ b e v, ok p (.getBranch b) e v →
    (if e.fail then none else e.branch.restaurantOwnerId) = owners ctx.transactionId)
include hlook

/-- A failure and an answer without an owner both leave the account to the restaurant. -/
theorem wp_fetchOwner_told {K : Db → Prop} (hK : (accountGrowth owners).Lasting K)
    (h : w.Knows (accountGrowth owners) db₀ p K) {branchId : Nat} {P : Option Nat → World → Prop}
    (hP : ∀ v, v.Knows (accountGrowth owners) db₀ p K →
      P (orNull (owners ctx.transactionId)) v) :
    wp machine ok (grownSpec (accountGrowth owners) db₀) p (fetchRestaurantOwner branchId)
      (OnOk P) w := by
  unfold fetchRestaurantOwner getBranch
  apply wp_catch
  apply wp_do
  apply wp_outer (sharedSpec_isolated _ p) rfl
  intro u e r v hr hi hok hx _ hstore _ _
  have hv := (h.rely hK hr hi).of_store hstore
  have htold := hlook branchId e u hok
  simp only [exec, Option.some.injEq, Prod.mk.injEq] at hx
  obtain ⟨rfl, rfl⟩ := hx
  by_cases hfail : e.fail = true
  · rw [if_pos hfail] at htold
    rw [if_pos hfail]
    have hnone := hP _ hv
    rw [← htold] at hnone
    exact hnone
  · rw [if_neg hfail] at htold
    rw [if_neg hfail]
    have hsome := hP _ hv
    rw [← htold] at hsome
    exact hsome

theorem wp_applySuccess_accounts
    (h : w.Knows (accountGrowth owners) db₀ p fun db => db.HasAccounts order.accounts)
    {P : Option (OrderEntity × Nat) → World → Prop}
    (hP : ∀ a v, v.Knows (accountGrowth owners) db₀ p (fun db => db.HasAccounts order.accounts) →
      P a v) :
    wp machine ok (grownSpec (accountGrowth owners) db₀) p (applySuccess ctx order session)
      (OnOk P) w := by
  have hlasting : (accountGrowth owners).Lasting fun db => db.HasAccounts order.accounts :=
    hasAccounts_lasting _
  have hcapture : (updatePaymentSessionStatus session.id .captured .trx).Calls
      (Op.Appends (Accountable owners order)) (fun _ _ => True) fun _ => True := by
    refine calls_updateSession rfl fun now => ?_
    rintro x rfl db _
    trivial
  unfold applySuccess
  apply wp_seq
  apply wp_appends_knows hlasting (fun x hx db hdb => hx db hdb) hcapture
    (fun _ _ _ _ _ _ _ => trivial) h
  intro _ v₁ _ hv₁
  apply wp_seq
  apply wp_fetchOwner_told hlook hlasting hv₁
  intro v₂ hv₂
  have hcharge : ∀ id now, Accountable owners order (.insertTransaction
      ((chargeData ctx order session .succeeded (accountGiven (owners ctx.transactionId)
        order.accounts)).toEntity id now)) :=
    fun id now db hdb => accounted_charge owners hdb rfl id now
  exact wp_appends_knows hlasting (fun x hx db hdb => hx db hdb)
    (calls_bookPayment hcharge (fun _ _ _ => trivial) fun _ _ _ => trivial)
    (fun _ _ _ _ _ _ _ => trivial) hv₂ (fun a v _ hv => hP a v hv)

theorem wp_processWebhook_accounts (hs : db₀.RowsAccounted owners) {event : Json}
    (hpay : event.isText "pay" = true) {insertedId : Nat}
    (h : w.Knows (accountGrowth owners) db₀ p fun _ => True) {P : Unit → World → Prop}
    (hP : ∀ v, P () v) :
    wp machine ok (grownSpec (accountGrowth owners) db₀) p (processWebhook event ctx insertedId)
      (OnOk P) w := by
  have hS := sharedSpec_isolated ((accountGrowth owners).Run db₀) p
  have htrue : (accountGrowth owners).Lasting fun _ => True := fun _ _ _ _ => trivial
  unfold processWebhook
  apply wp_seq
  have hfind : wp machine ok (grownSpec (accountGrowth owners) db₀) p
      (findReferencedOrder (orderReference ctx.data) .trx)
      (OnOk fun found v => v.Knows (accountGrowth owners) db₀ p fun db =>
        ∀ order, found = some order → db.HasAccounts order.accounts) w := by
    unfold findReferencedOrder
    split
    · apply wp_trx_reads (L := fun found db => ∀ order, found = some order →
        db.HasAccounts order.accounts) hs htrue h fun _ _ _ => rfl
      · intro seqs clock db found _ _ hreply order hfound
        simp only [Sql.eval, reading, Except.ok.injEq] at hreply
        rw [← hreply] at hfound
        exact ⟨order, List.mem_of_find?_eq_some hfound, rfl⟩
      · exact fun _ _ hv => hv
    · exact h.mono fun _ _ order hnone => by cases hnone
    · trivial
  apply wp_mono _ hfind
  intro r v₁ hv₁
  cases r with
  | error err => trivial
  | ok found =>
  cases found with
  | none => trivial
  | some order =>
  have hlasting : (accountGrowth owners).Lasting fun db => db.HasAccounts order.accounts :=
    hasAccounts_lasting _
  have horder := hv₁.mono fun db hdb => hdb order rfl
  apply wp_seq
  apply wp_trx_reads hs hlasting horder (fun _ _ _ => rfl) fun _ _ _ _ hdb _ _ => hdb
  intro row v₂ hv₂
  cases row with
  | none => trivial
  | some session =>
  apply wp_seq
  unfold applyEvent
  rw [hpay, Bool.true_or, if_pos rfl]
  apply wp_applySuccess_accounts hlook hv₂
  intro broadcast v₃ hv₃
  apply wp_seq
  apply wp_outer_knows hlasting hv₃ rfl
  intro e processedAt _ v₄ _ _ hv₄
  apply wp_seq
  apply wp_trx_knows (L := fun _ db => db.HasAccounts order.accounts) hs hlasting hv₄
  · intro seqs clock db hdb _
    exact ⟨⟨trivial, trivial⟩, fun _ _ => hlasting _ _ (keepsAccounts_apply _ db) hdb⟩
  intro _ v₅ hv₅
  apply wp_seq
  apply wp_commit_knows hlasting hv₅
  exact fun v₆ _ => wp_outside hS calls_announcePlaced fun _ v => hP v

omit hlook in
theorem wp_webhook_accounts (hs : db₀.RowsAccounted owners) (hmacSha256 : String → String → String)
    (cfg : Config) {calls : Pid → Option Call} {rawBody : Option Json} {signature region : String}
    (hp : calls p = some (.webhook rawBody signature region)) {P : Unit → World → Prop}
    (hP : ∀ v, P () v) :
    wp machine (BranchAnswers calls owners) (grownSpec (accountGrowth owners) db₀) p
      (verifyAndProcessWebhook hmacSha256 cfg rawBody signature region) (OnOk P) w := by
  have hS := sharedSpec_isolated ((accountGrowth owners).Run db₀) p
  have hmark : ∀ id processedAt processError x,
      (Sql.updateWebhookEventStatus id processedAt processError).MayWrite x →
      ∀ db, (accountGrowth owners).fits x db := by
    rintro id processedAt processError x rfl db
    trivial
  have htold : ∀ {envelope transactionId}, parseEnvelope rawBody = .ok envelope →
      (((getField envelope.data "transactionId").getD .null).text) = .ok transactionId →
      ∀ b e v, BranchAnswers calls owners p (.getBranch b) e v →
        (if e.fail then none else e.branch.restaurantOwnerId) = owners transactionId := by
    intro envelope transactionId hparse htext b e v hok
    apply hok rawBody signature region transactionId hp
    rw [webhookTransaction, hparse]
    change Except.toOption _ = _
    rw [htext]
    rfl
  unfold verifyAndProcessWebhook
  split
  · trivial
  next envelope hparse =>
  split_ifs with hevent
  · exact hP w
  · trivial
  have hpay : envelope.event.isText "pay" = true := by
    simpa using hevent
  apply wp_seq
  apply wp_pool_fits fun x hx => absurd hx id
  intro provider v₁
  cases provider with
  | none => trivial
  | some provider =>
  dsimp only
  split_ifs
  · trivial
  apply wp_seq
  apply wp_fromExcept
  intro isValid _
  split_ifs
  · trivial
  apply wp_seq
  apply wp_fromExcept
  intro transactionId htext
  unfold receiveWebhook insertWebhookEvent
  apply wp_seq
  apply wp_seq
  apply wp_now_ok hS
  intro v₂ _ _
  apply wp_pool_fits
  · rintro x ⟨id, rfl⟩ db
    trivial
  intro inserted v₃
  cases inserted with
  | none => exact hP v₃
  | some insertedEvent =>
  dsimp only
  apply wp_seq
  apply wp_start_fresh
  intro v₄ hv₄
  apply wp_catch_ok (wp_processWebhook_accounts (htold hparse htext) hs hpay hv₄ hP)
  intro error v₅
  apply wp_seq
  apply wp_rollback hS
  intro v₆ _ _ _
  apply wp_seq
  apply wp_now_ok hS
  intro v₇ _ _
  apply wp_seq
  exact wp_pool_fits (hmark _ _ _) fun _ _ => trivial

end Webhooks

section Refunds
variable {owners : String → Option Nat} {db₀ : Db} {p : Pid} {w : World}
  {ok : Pid → Op → Env → World → Prop} {tx : TransactionEntity}

theorem assertRefundable_charge {amount : Int} (h : assertRefundable tx amount = .ok ()) :
    tx.transactionType = .charge := by
  by_contra hcharge
  rw [assertRefundable, if_pos (.inl hcharge)] at h
  cases h

/-- What a refund knows of the row that it has read, if this is a charge. -/
def Refunds (tx : TransactionEntity) (db : Db) : Prop :=
  db.HasCharge tx.chargeTerms ∧ orNull tx.orderId = tx.orderId ∧ orNull tx.dstAccId = tx.dstAccId

theorem refunds_lasting (tx : TransactionEntity) : (accountGrowth owners).Lasting (Refunds tx) :=
  fun _ _ hle h => ⟨hle.charges _ h.1, h.2⟩

theorem wp_refundBody_accounts (hs : db₀.RowsAccounted owners) (cfg : Config) {transactionId : Nat}
    {amount : Int} {region : String} (h : w.Knows (accountGrowth owners) db₀ p fun _ => True)
    {P : PaymentResponse → World → Prop} (hP : ∀ a v, P a v) :
    wp machine ok (grownSpec (accountGrowth owners) db₀) p
      (refundBody cfg transactionId amount region) (OnOk P) w := by
  have htrue : (accountGrowth owners).Lasting fun _ => True := fun _ _ _ _ => trivial
  unfold refundBody
  apply wp_seq
  apply wp_trx_reads (L := fun found db => ∀ tx, found = some tx →
    tx.transactionType = .charge → Refunds tx db) hs htrue h fun _ _ _ => rfl
  · intro seqs clock db found _ hsound hreply tx hfound hkind
    simp only [Sql.eval, reading, Except.ok.injEq] at hreply
    rw [← hreply] at hfound
    have hmem := List.mem_of_find?_eq_some hfound
    exact ⟨⟨tx, hmem, hkind, rfl⟩, (hsound tx hmem).stored owners hkind⟩
  intro found v₁ hv₁
  cases found with
  | none => trivial
  | some tx =>
  apply wp_seq
  apply wp_fromExcept
  intro _ hrefundable
  have hkind := assertRefundable_charge hrefundable
  have hknows := hv₁.mono fun db hdb => hdb tx rfl hkind
  have hlasting : (accountGrowth owners).Lasting (Refunds tx) := refunds_lasting tx
  have hfits : ∀ x, (∀ db, Refunds tx db → (accountGrowth owners).fits x db) →
      ∀ db, Refunds tx db → (accountGrowth owners).fits x db := fun _ h => h
  apply wp_seq
  apply wp_appends_knows hlasting hfits (calls_lookUpOrder fun id x hx => absurd hx fun h => h)
    (fun _ _ _ _ _ _ _ => trivial) hknows
  intro _ v₂ _ hv₂
  apply wp_seq
  apply wp_appends_knows hlasting hfits (calls_kashierRefund rfl rfl)
    (fun _ _ _ _ _ _ _ => trivial) hv₂
  intro refundRes v₃ _ hv₃
  split_ifs
  · trivial
  unfold recordRefund
  have hmark : (markTransactionAsRefunded tx.id .trx).Calls
      (Op.Appends fun x => ∀ db, Refunds tx db → (accountGrowth owners).fits x db)
      (fun _ _ => True) fun _ => True := by
    refine Prog.calls_do (calls_now rfl fun _ => trivial) fun now _ => ?_
    refine calls_sql ?_ fun _ _ => trivial
    rintro x rfl db _
    trivial
  have hcreate : (createTransaction (refundData region tx refundRes amount) .trx).Calls
      (Op.Appends fun x => ∀ db, Refunds tx db → (accountGrowth owners).fits x db)
      (fun _ _ => True) fun _ => True := by
    refine calls_createTransaction rfl fun now => ?_
    rintro x ⟨id, rfl⟩ db ⟨hcharge, horder, hdst⟩
    exact accounted_refund owners hcharge horder hdst id now
  apply wp_seq
  apply wp_appends_knows hlasting hfits hmark (fun _ _ _ _ _ _ _ => trivial) hv₃
  intro _ v₄ _ hv₄
  apply wp_seq
  apply wp_appends_knows hlasting hfits hcreate (fun _ _ _ _ _ _ _ => trivial) hv₄
  intro refundTx v₅ _ hv₅
  apply wp_seq
  apply wp_commit_knows hlasting hv₅
  exact fun v₆ _ => hP _ v₆

theorem wp_refundPayment_accounts (hs : db₀.RowsAccounted owners) (cfg : Config)
    {transactionId : Nat} {amount : Int} {region : String} {P : PaymentResponse → World → Prop}
    (hP : ∀ a v, P a v) :
    wp machine ok (grownSpec (accountGrowth owners) db₀) p
      (refundPayment cfg transactionId amount region) (OnOk P) w := by
  unfold refundPayment
  apply wp_seq
  apply wp_start_fresh
  intro v₁ hv₁
  apply wp_catch_ok (wp_refundBody_accounts hs cfg hv₁ hP)
  exact fun err v => wp_abort (sharedSpec_isolated _ p)

end Refunds

end OrderService
