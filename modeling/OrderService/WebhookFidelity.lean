import OrderService.WebhookSpec

/-! What the service makes of a payment that the provider reports as failed. -/
namespace OrderService
open ReadCommitted Interleaving

section Statement

/-- The writes of a failed payment: the session and the charge have failed, the only event tells so,
and no order is placed. -/
structure FailedOnly (session : PaymentSessionEntity) (writes : List Write) : Prop where
  session : ∃ now, .setSessionStatus session.id .failed now ∈ writes
  sessions : ∀ id status now, .setSessionStatus id status now ∈ writes → status = .failed
  transactions : ∀ row, .insertTransaction row ∈ writes →
    row.transactionType = .charge ∧ row.status = .failed
  event : ∃ row, .insertOutbox row ∈ writes ∧ row.eventType = .paymentFailed
  events : ∀ row, .insertOutbox row ∈ writes → row.eventType = .paymentFailed
  orders : ∀ publicId stamp now, .setOrderStatus publicId .placed stamp now ∉ writes

/-- A webhook that reports a failure is processed as a failure. -/
def Faithful (data : List (String × Json)) (session : PaymentSessionEntity)
    (writes : List Write) : Prop :=
  statusIs data "FAILED" = true → FailedOnly session writes

end Statement

section Fidelity
variable (hmacSha256 : String → String → String) (cfg : Config)

/-- Whatever its status, an accepted payment is captured. -/
theorem captures {db : Db} {ctx : WebhookContext} {order : OrderEntity}
    {session : PaymentSessionEntity} {rowId : Nat} {log : List Write}
    (h : Applied db ctx order session rowId log) :
    ∃ now, .setSessionStatus session.id .captured now ∈ log := by
  cases h with
  | intro capturedAt processedAt event hcharge hplaced htype hid =>
    exact ⟨capturedAt, List.mem_cons_self⟩

theorem wp_returned_captured {w : World} {rawBody : Option Json} {signature region : String}
    {ctx : WebhookContext} {order : OrderEntity} {session : PaymentSessionEntity}
    (hacc : Accepted hmacSha256 cfg w.store.db rawBody signature region ctx)
    (hnew : w.store.db.webhookEvents.any (ofEvent ctx.transactionId) = false)
    (happ : Applicable w.store.db ctx order session) (p : Pid) :
    wp machine anyOp (soloSpec (storeInv fun _ _ => True) p) p
      (verifyAndProcessWebhook hmacSha256 cfg rawBody signature region)
      (OnOk fun _ w' => ∃ batches, w'.store.history = w.store.history ++ batches ∧
        ∃ now, .setSessionStatus session.id .captured now ∈ batches.flatMap Prod.snd) w := by
  have hrely : ∀ v v', (soloSpec (storeInv fun _ _ => True) p).rely p v v' → v' = v :=
    fun _ _ h => h rfl
  have hS := storeSpec_isolated (fun _ _ => True) p
  apply wp_verify hacc hS (storeSpec_ofStore _ p) hrely ⟨rfl, rfl⟩
  · exact fun _ _ _ => trivial
  intro w₁ hw₁
  apply wp_receiveNew hS hrely hw₁ hnew
  · exact fun _ _ _ => trivial
  intro row w₂ _ _ hw₂
  refine ⟨trivial, ?_⟩
  have halone : Alone anyOp (soloSpec (storeInv fun _ _ => True) p) p True
      (engine.apply (.insertWebhookEvent row) w.store.db)
      (w.store.history ++ [(p, [.insertWebhookEvent row])]) :=
    ⟨hS, atStore_kept _, fun _ _ _ _ _ _ _ => trivial⟩
  have happ' : Applicable (engine.apply (.insertWebhookEvent row) w.store.db) ctx order session :=
    ⟨happ.reference, happ.found, happ.active⟩
  apply wp_mono _ (wp_process halone happ' (.inr trivial) (fun _ _ => trivial)
    (fun _ _ => trivial) (fun _ _ => trivial) hrely rfl hw₂)
  intro r w₃ hleft
  cases r with
  | error err => trivial
  | ok a =>
    obtain ⟨log, happlied, hat⟩ := hleft
    obtain ⟨now, hnow⟩ := captures happlied
    refine ⟨[(p, [.insertWebhookEvent row]), (p, log)], ?_, now, ?_⟩
    · rw [hat.2, List.append_assoc]
      rfl
    · simp [hnow]

theorem returned_captured {w w' : World} {rawBody : Option Json} {signature region : String}
    {ctx : WebhookContext} {order : OrderEntity} {session : PaymentSessionEntity}
    (hacc : Accepted hmacSha256 cfg w.store.db rawBody signature region ctx)
    (hnew : w.store.db.webhookEvents.any (ofEvent ctx.transactionId) = false)
    (happ : Applicable w.store.db ctx order session) {p : Pid} {es : List Env}
    (hrun : machine.runAlone p (verifyAndProcessWebhook hmacSha256 cfg rawBody signature region)
      es w = (.returned (), w')) :
    ∃ batches, w'.store.history = w.store.history ++ batches ∧
      ∃ now, .setSessionStatus session.id .captured now ∈ batches.flatMap Prod.snd := by
  have hsound := runAlone_sound (fun _ _ => rfl) (trivial : storeInv (fun _ _ => True) w)
    (wp_returned_captured hmacSha256 cfg hacc hnew happ p) (runMeets_true _ es w)
  rw [hrun] at hsound
  exact hsound.2

/-- An accepted first delivery that is acknowledged has been processed as its status says exactly
when it does not report a failure. -/
theorem webhook_outcome_faithful_iff (w w' : World) (rawBody : Option Json)
    (signature region : String) (ctx : WebhookContext) (order : OrderEntity)
    (session : PaymentSessionEntity)
    (hacc : Accepted hmacSha256 cfg w.store.db rawBody signature region ctx)
    (hnew : w.store.db.webhookEvents.any (ofEvent ctx.transactionId) = false)
    (happ : Applicable w.store.db ctx order session) (p : Pid) (es : List Env)
    (hrun : machine.runAlone p (verifyAndProcessWebhook hmacSha256 cfg rawBody signature region)
      es w = (.returned (), w')) :
    ∃ batches, w'.store.history = w.store.history ++ batches ∧
      (Faithful ctx.data session (batches.flatMap Prod.snd) ↔
        statusIs ctx.data "FAILED" = false) := by
  obtain ⟨batches, hhistory, now, hcaptured⟩ :=
    returned_captured hmacSha256 cfg hacc hnew happ hrun
  refine ⟨batches, hhistory, fun hfaithful => ?_, fun hstatus hfailed => ?_⟩
  · by_contra hstatus
    have honly := hfaithful (Bool.eq_true_of_not_eq_false hstatus)
    have hcontra := honly.sessions _ _ _ hcaptured
    cases hcontra
  · rw [hstatus] at hfailed
    cases hfailed

end Fidelity

/-- What the delivery of a payment with this status leaves. -/
def payDelivery (status : String) : Outcome Err Unit × World :=
  machine.runAlone 0 (verifyAndProcessWebhook sampleHmac sampleConfig (some (payBody status))
    (paySignature status) "eg") (List.replicate 30 {}) awaitingPayment

theorem payDelivery_eq {status : String} (h : (payDelivery status).1.isReturned = true) :
    payDelivery status = (.returned (), (payDelivery status).2) := by
  cases hrun : payDelivery status with
  | mk outcome w' =>
    rw [hrun] at h
    cases outcome with
    | returned a => rfl
    | threw e => cases h
    | crashed => cases h

theorem webhook_outcome_faithful_iff_success :
    ∃ batches, (payDelivery "SUCCESS").2.store.history = awaitingPayment.store.history ++ batches ∧
      (Faithful (payData "SUCCESS") openSession (batches.flatMap Prod.snd) ↔
        statusIs (payData "SUCCESS") "FAILED" = false) :=
  webhook_outcome_faithful_iff sampleHmac sampleConfig awaitingPayment _ (some (payBody "SUCCESS"))
    (paySignature "SUCCESS") "eg" (payContext "SUCCESS") pendingOrder openSession
    (payWebhook_accepted (by decide)) rfl (payWebhook_applicable "SUCCESS") 0
    (List.replicate 30 {}) (payDelivery_eq (by decide))

/-- The report of a failed payment captures the session, records a charge and places the order. -/
theorem failed_payment_captured :
    Accepted sampleHmac sampleConfig awaitingPayment.store.db (some (payBody "FAILED"))
      (paySignature "FAILED") "eg" (payContext "FAILED") ∧
    Applicable awaitingPayment.store.db (payContext "FAILED") pendingOrder openSession ∧
    payDelivery "FAILED" = (.returned (), (payDelivery "FAILED").2) ∧
    ((payDelivery "FAILED").2.store.db.paymentSessions.map fun s => s.status) = [.captured] ∧
    ((payDelivery "FAILED").2.store.db.transactions.map fun t => (t.transactionType, t.status))
      = [(.charge, .succeeded)] ∧
    ((payDelivery "FAILED").2.store.db.orders.map fun o => o.status) = [.placed] ∧
    ((payDelivery "FAILED").2.store.db.eventsOutbox.map fun e => e.eventType)
      = [.paymentCompleted, .orderPlaced] ∧
    ∀ batches, (payDelivery "FAILED").2.store.history
        = awaitingPayment.store.history ++ batches →
      ¬Faithful (payData "FAILED") openSession (batches.flatMap Prod.snd) := by
  have hacc := payWebhook_accepted (by decide : verifyKashierWebhookSignature sampleHmac
    (payData "FAILED") (paySignature "FAILED") (signatureKeysOf (payData "FAILED")) "api-key"
      = .ok true)
  have happ := payWebhook_applicable "FAILED"
  have hreturned : payDelivery "FAILED" = (.returned (), (payDelivery "FAILED").2) :=
    payDelivery_eq (by decide)
  refine ⟨hacc, happ, hreturned, by decide, by decide, by decide, by decide, ?_⟩
  intro batches hbatches hfaithful
  obtain ⟨batches', hbatches', now, hcaptured⟩ :=
    returned_captured sampleHmac sampleConfig hacc rfl happ hreturned
  have hsame : batches' = batches := List.append_cancel_left (hbatches'.symm.trans hbatches)
  rw [hsame] at hcaptured
  have hcontra := (hfaithful rfl).sessions _ _ _ hcaptured
  cases hcontra

end OrderService
