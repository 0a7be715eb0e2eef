import OrderService.SettlementEffects
import OrderService.Services.Webhook

/-! What the processing of a webhook can write. -/
namespace OrderService
open ReadCommitted Interleaving

section Booking
variable {P : Op → Prop} {R : (o : Op) → o.Res → Prop} {ctx : WebhookContext} {order : OrderEntity}
  {session : PaymentSessionEntity}

theorem calls_updateSession {id : Nat} {status : PaymentSessionStatus} (hnow : P .now)
    (hsql : ∀ now, P (.sql .trx (.updatePaymentSessionStatus id status now))) :
    (updatePaymentSessionStatus id status .trx).Calls P R fun _ => True := by
  apply Prog.calls_do (calls_now hnow fun _ => trivial)
  intro now _
  apply Prog.calls_do (calls_sql (hsql now) fun _ _ => trivial)
  exact fun row _ => calls_toEntity fun _ _ => trivial

theorem calls_fetchRestaurantOwner {branchId : Nat} (hP : P (.getBranch branchId)) :
    (fetchRestaurantOwner branchId).Calls P R fun _ => True := by
  apply Prog.calls_catch
  · exact Prog.calls_do (calls_any hP) fun _ _ => trivial
  · exact fun _ => trivial

theorem calls_recordCharge {status : TransactionStatus} {dstAccId : Nat} (hnow : P .now)
    (hfind : P (.sql .trx (.findTransactionByProviderReference ctx.transactionId)))
    (hsql : ∀ now,
      P (.sql .trx (.createTransaction (chargeData ctx order session status dstAccId) now))) :
    (recordCharge ctx order session status dstAccId).Calls P R fun _ => True := by
  apply Prog.calls_do (calls_sql hfind fun _ _ => trivial)
  intro existingTx _
  cases existingTx with
  | some t => trivial
  | none => exact Prog.calls_discard (calls_createTransaction hnow hsql) trivial

theorem calls_announcePlaced {region : String} {broadcast : Option (OrderEntity × Nat)} :
    (announcePlaced region broadcast).Calls (fun o => o.outer = true) R fun _ => True := by
  cases broadcast with
  | none => trivial
  | some placed =>
    apply Prog.calls_do (calls_outer rfl)
    intro _ _
    exact Prog.calls_do (calls_outer rfl) fun _ _ => calls_outer rfl

end Booking

section Receiving
variable {I : Db → List (Pid × List Write) → Prop} {ok : Pid → Op → Env → World → Prop}
  {p : Pid} {w : World} {H : Write → Prop}

/-- What the processing of a payment keeps while others run, its webhook keeps: around it only the
dedupe row is written. -/
theorem wp_webhook_shared (hI : KeptBy I p H) (hdedupe : ∀ row, H (.insertWebhookEvent row))
    (hmark : ∀ id processedAt processError, H (.setWebhookEvent id processedAt processError))
    (hprocess : ∀ event ctx insertedId v, Json.isText event "pay" = true →
      v.store.txn p = .active [] → wp machine ok (sharedSpec I) p
        (processWebhook event ctx insertedId) (OnOk fun _ _ => True) v)
    {hmacSha256 : String → String → String} {cfg : Config} {rawBody : Option Json}
    {signature region : String} :
    wp machine ok (sharedSpec I) p
      (verifyAndProcessWebhook hmacSha256 cfg rawBody signature region) (OnOk fun _ _ => True)
      w := by
  have hS := sharedSpec_isolated I p
  have hpool : ∀ {q : Sql} {P : q.Res → World → Prop} {v : World}, (∀ x, q.MayWrite x → H x) →
      (∀ a v', P a v') → wp machine ok (sharedSpec I) p (sql .pool q) (OnOk P) v := by
    intro q P v hq hP
    apply wp_pool_shared
    intro v₁ e _ hi _
    exact ⟨fun _ => hI _ _ _ hi.2 fun x hx => hq x (Sql.mayWrite_of_mem hx), fun a _ => hP a _⟩
  unfold verifyAndProcessWebhook
  split
  · trivial
  split_ifs with hevent
  · trivial
  · trivial
  apply wp_seq
  apply hpool fun x hx => absurd hx id
  intro provider v₁
  cases provider with
  | none => trivial
  | some provider =>
    dsimp only
    split_ifs
    · trivial
    apply wp_seq
    apply wp_fromExcept
    intro isValid _
    split_ifs
    · trivial
    apply wp_seq
    apply wp_fromExcept
    intro transactionId _
    unfold receiveWebhook insertWebhookEvent
    apply wp_seq
    apply wp_seq
    apply wp_now_ok hS
    intro v₂ _ _
    apply hpool
    · rintro x ⟨id, rfl⟩
      exact hdedupe _
    intro inserted v₃
    cases inserted with
    | none => trivial
    | some insertedEvent =>
      dsimp only
      apply wp_seq
      apply wp_start_ok hS
      intro v₄ _ _ _
      refine wp_catch_ok (hprocess _ _ _ _ ?_ (World.start_txn v₄ p)) fun error v₅ => ?_
      · simpa using hevent
      apply wp_seq
      apply wp_rollback hS
      intro v₆ _ _ _
      apply wp_seq
      apply wp_now_ok hS
      intro v₇ _ _
      apply wp_seq
      apply hpool
      · rintro x rfl
        exact hmark _ _ _
      · exact fun _ _ => trivial

end Receiving

end OrderService
