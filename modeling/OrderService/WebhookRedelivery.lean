import OrderService.StatusHistory
import OrderService.WebhookSpec

/-! The redeliveries of one webhook, with failures and deaths of the process in between. -/
namespace OrderService
open ReadCommitted Interleaving

section Statement

/-- One delivery after the other, and whether one of them was acknowledged. -/
def redeliver (prog : Svc Unit) : List (Pid × List Env) → World → Bool × World
  | [], w => (false, w)
  | (p, es) :: rest, w =>
    let delivered := machine.runAlone p prog es w
    let later := redeliver prog rest delivered.2
    (delivered.1.isReturned || later.1, later.2)

/-- The event has been received, and its row waits for the processing. -/
def Unprocessed (providerEventId : String) (w : World) : Prop :=
  ∃ row ∈ w.store.db.webhookEvents, ofEvent providerEventId row = true ∧ row.processedAt = none

/-- While the row waits no statement fails. -/
def NoFailure (providerEventId : String) (_ : Pid) (o : Op) (e : Env) (w : World) : Prop :=
  Unprocessed providerEventId w → o.outer = false → e.fail = false

/-- While the row waits no statement fails and the process does not die. -/
def Undisturbed (providerEventId : String) (prog : Svc Unit) :
    List (Pid × List Env) → World → Prop
  | [], _ => True
  | (p, es) :: rest, w =>
    RunMeets machine (NoFailure providerEventId) (fun v => ¬Unprocessed providerEventId v) p prog
      es w ∧ Undisturbed providerEventId prog rest (machine.runAlone p prog es w).2

variable (before : Db) (past : List (Pid × List Write)) (ctx : WebhookContext)
  (order : OrderEntity) (session : PaymentSessionEntity)

/-- The effects of the webhook have been committed once: after its dedupe row one commit applies
it, and nothing else is written but an error to the row. -/
def AppliedOnce (db : Db) (history : List (Pid × List Write)) : Prop :=
  ∃ p q row log marks, ofEvent ctx.transactionId row = true ∧
    Applied before ctx order session row.id log ∧
    (∀ b ∈ marks, ∃ t message, b.2 = [.setWebhookEvent row.id (some t) (some message)]) ∧
    history = past ++ ([(p, [.insertWebhookEvent row]), (q, log)] ++ marks) ∧
    db = tablesAfter before ([(p, [.insertWebhookEvent row]), (q, log)] ++ marks)

end Statement

section Tables
variable {providerEventId : String}

theorem paymentProviders_applyAll (log : List Write) (db : Db) :
    (engine.applyAll log db).paymentProviders = db.paymentProviders := by
  induction log generalizing db with
  | nil => rfl
  | cons x log ih =>
    rw [applyAll_cons, ih]
    cases x <;> rfl

/-- A received event stays received. -/
theorem received_applyAll (log : List Write) {db : Db}
    (h : db.webhookEvents.any (ofEvent providerEventId) = true) :
    (engine.applyAll log db).webhookEvents.any (ofEvent providerEventId) = true := by
  induction log generalizing db with
  | nil => exact h
  | cons x log ih =>
    rw [applyAll_cons]
    apply ih
    cases x with
    | insertWebhookEvent row =>
      change (db.webhookEvents ++ [row]).any _ = true
      rw [List.any_append, h, Bool.true_or]
    | setWebhookEvent id processedAt processError =>
      change (db.webhookEvents.map _).any _ = true
      rw [List.any_map]
      obtain ⟨row, hrow, hof⟩ := List.any_eq_true.mp h
      apply List.any_eq_true.mpr
      refine ⟨row, hrow, ?_⟩
      simp only [Function.comp]
      split_ifs
      · exact hof
      · exact hof
    | _ => exact h

theorem received_insert {row : PaymentWebhookEventEntity} (h : ofEvent providerEventId row = true)
    (db : Db) : (engine.apply (.insertWebhookEvent row) db).webhookEvents.any
      (ofEvent providerEventId) = true := by
  change (db.webhookEvents ++ [row]).any _ = true
  simp [h]

theorem unprocessed_insert {row : PaymentWebhookEventEntity}
    (h : ofEvent providerEventId row = true) (hopen : row.processedAt = none) {db : Db}
    {history : List (Pid × List Write)} {w : World}
    (hw : AtStore (engine.apply (.insertWebhookEvent row) db) history w) :
    Unprocessed providerEventId w := by
  refine ⟨row, ?_, h, hopen⟩
  rw [hw.1]
  change row ∈ db.webhookEvents ++ [row]
  simp

theorem Applied.of_transactions {db db' : Db} {ctx : WebhookContext} {order : OrderEntity}
    {session : PaymentSessionEntity} {rowId : Nat} {log : List Write}
    (h : Applied db ctx order session rowId log) (hsame : db'.transactions = db.transactions) :
    Applied db' ctx order session rowId log := by
  cases h with
  | intro capturedAt processedAt event hcharge hplaced htype hid =>
    refine .intro capturedAt processedAt event ?_ hplaced htype hid
    cases hcharge with
    | known ht =>
      rw [← hsame] at ht
      exact .known ht
    | charged id now dstAccId ht =>
      rw [← hsame] at ht
      exact .charged id now dstAccId ht

end Tables

section Deliveries
variable {hmacSha256 : String → String → String} {cfg : Config} {rawBody : Option Json}
  {signature region : String} {ctx : WebhookContext} {order : OrderEntity}
  {session : PaymentSessionEntity} {before : Db} {past : List (Pid × List Write)} {p : Pid}

/-- Where a delivery that meets the condition can be. -/
def Stage (before : Db) (past : List (Pid × List Write)) (ctx : WebhookContext)
    (order : OrderEntity) (session : PaymentSessionEntity) (p : Pid) (db : Db)
    (history : List (Pid × List Write)) : Prop :=
  (db = before ∧ history = past) ∨
  (∃ row, ofEvent ctx.transactionId row = true ∧ row.processedAt = none ∧
    db = engine.apply (.insertWebhookEvent row) before ∧
    history = past ++ [(p, [.insertWebhookEvent row])]) ∨
  AppliedOnce before past ctx order session db history

theorem appliedOnce_of_completed {row : PaymentWebhookEventEntity} {w : World}
    (hof : ofEvent ctx.transactionId row = true)
    (h : Completed (engine.apply (.insertWebhookEvent row) before)
      (past ++ [(p, [.insertWebhookEvent row])]) ctx order session p row.id w) :
    AppliedOnce before past ctx order session w.store.db w.store.history := by
  obtain ⟨log, happlied, hdb, hhistory⟩ := h
  refine ⟨p, p, row, log, [], hof, happlied.of_transactions rfl, by simp, ?_, ?_⟩
  · rw [hhistory, List.append_assoc]
    rfl
  · rw [hdb]
    simp [tablesAfter, applyAll_cons]

theorem appliedOnce_of_marked {row : PaymentWebhookEventEntity} {w : World}
    (hof : ofEvent ctx.transactionId row = true)
    (h : Marked (engine.apply (.insertWebhookEvent row) before)
      (past ++ [(p, [.insertWebhookEvent row])]) ctx order session p row.id w) :
    AppliedOnce before past ctx order session w.store.db w.store.history := by
  obtain ⟨log, t, message, happlied, hdb, hhistory⟩ := h
  refine ⟨p, p, row, log, [(p, [.setWebhookEvent row.id (some t) (some message)])], hof,
    happlied.of_transactions rfl, by simp, ?_, ?_⟩
  · rw [hhistory]
    simp
  · rw [hdb]
    simp [tablesAfter, applyAll_cons, applyAll_append]

/-- The first delivery that comes through applies the webhook; the others leave no trace. -/
theorem wp_firstDelivery
    (hacc : Accepted hmacSha256 cfg before rawBody signature region ctx)
    (hnew : before.webhookEvents.any (ofEvent ctx.transactionId) = false)
    (happ : Applicable before ctx order session) (hkey : KeyFree before ctx) {w : World}
    (hw : AtStore before past w) :
    wp machine (NoFailure ctx.transactionId)
      (soloSpec (storeInv (Stage before past ctx order session p)) p) p
      (verifyAndProcessWebhook hmacSha256 cfg rawBody signature region)
      (fun r w' => AppliedOnce before past ctx order session w'.store.db w'.store.history ∨
        (AtStore before past w' ∧ ∃ err, r = .error err)) w := by
  have hS := storeSpec_isolated (Stage before past ctx order session p) p
  have hrely : ∀ v v', (soloSpec (storeInv (Stage before past ctx order session p)) p).rely p v v' →
      v' = v := fun _ _ h => h rfl
  apply wp_verify hacc hS (storeSpec_ofStore _ p) hrely hw
  · exact fun err w' hw' => .inr ⟨hw', err, rfl⟩
  intro w₁ hw₁
  apply wp_receiveNew hS hrely hw₁ hnew
  · exact fun err w' hw' => .inr ⟨hw', err, rfl⟩
  intro row w₂ hof hopen hw₂
  refine ⟨.inr (.inl ⟨row, hof, hopen, hw₂.1, hw₂.2⟩), ?_⟩
  -- From here on the row waits, so nothing fails before the commit.
  have halone : Alone (NoFailure ctx.transactionId)
      (soloSpec (storeInv (Stage before past ctx order session p)) p) p False
      (engine.apply (.insertWebhookEvent row) before)
      (past ++ [(p, [.insertWebhookEvent row])]) := by
    refine ⟨hS, atStore_kept _, fun o e v hv hok ho hfail => ?_⟩
    have hnofail := hok (unprocessed_insert hof hopen hv) ho
    rw [hfail] at hnofail
    cases hnofail
  have happ' : Applicable (engine.apply (.insertWebhookEvent row) before) ctx order session :=
    ⟨happ.reference, happ.found, happ.active⟩
  apply wp_mono _ (wp_process halone happ' (.inl hkey) False.elim
    (fun v hv => .inr (.inr (appliedOnce_of_completed hof hv)))
    (fun v hv => .inr (.inr (appliedOnce_of_marked hof hv))) hrely rfl hw₂)
  intro r w₃ hleft
  cases r with
  | ok a => exact .inl (appliedOnce_of_completed hof hleft)
  | error err =>
    rcases hleft with hfalse | hdone | hmark
    · cases hfalse
    · exact .inl (appliedOnce_of_completed hof hdone)
    · exact .inl (appliedOnce_of_marked hof hmark)

theorem received_of_appliedOnce {db : Db} {history : List (Pid × List Write)}
    (h : AppliedOnce before past ctx order session db history) :
    db.webhookEvents.any (ofEvent ctx.transactionId) = true ∧
      db.paymentProviders = before.paymentProviders := by
  obtain ⟨p, q, row, log, marks, hof, _, _, _, rfl⟩ := h
  refine ⟨?_, paymentProviders_applyAll _ before⟩
  unfold tablesAfter
  rw [List.cons_append, List.flatMap_cons, List.singleton_append, applyAll_cons]
  exact received_applyAll _ (received_insert hof before)

/-- A received webhook is not processed again. -/
theorem wp_laterDelivery {db : Db} {history : List (Pid × List Write)}
    (hacc : Accepted hmacSha256 cfg db rawBody signature region ctx)
    (hreceived : db.webhookEvents.any (ofEvent ctx.transactionId) = true) {w : World}
    (hw : AtStore db history w) {ok : Pid → Op → Env → World → Prop} :
    wp machine ok (soloSpec (storeInv fun db' history' => db' = db ∧ history' = history) p) p
      (verifyAndProcessWebhook hmacSha256 cfg rawBody signature region)
      (fun _ w' => AtStore db history w') w := by
  have hS := storeSpec_isolated (fun db' history' => db' = db ∧ history' = history) p
  have hrely : ∀ v v', (soloSpec (storeInv fun db' history' => db' = db ∧ history' = history)
      p).rely p v v' → v' = v := fun _ _ h => h rfl
  apply wp_verify hacc hS (storeSpec_ofStore _ p) hrely hw
  · exact fun _ _ hw' => hw'
  intro w₁ hw₁
  apply wp_do
  apply wp_do
  apply wp_now hS
  intro v hr _
  obtain rfl := hrely w₁ v hr
  apply wp_pool hS
  · intro v' e hr' _ _ _
    rw [hrely v v' hr']
    exact hw₁
  intro v' e hr' hi _ _
  obtain rfl := hrely v v' hr'
  have heval : v'.onPool (.insertWebhookEvent
      ⟨ctx.region, kashierProviderId, ctx.transactionId, ctx.signature⟩ v'.clock)
        = reading none := by
    have hfound : (v'.store.db.webhookEvents.any fun e => e.providerId = kashierProviderId &&
        e.providerEventId = ctx.transactionId) = true := by
      rw [hw₁.1]
      exact hreceived
    simp only [World.onPool, Sql.eval, hfound, if_true]
  have hsame := World.pooled_store (p := p) (congrArg Answer.writes heval)
  have hw₂ : AtStore db history (v'.pooled p (.insertWebhookEvent
      ⟨ctx.region, kashierProviderId, ctx.transactionId, ctx.signature⟩ v'.clock)) := by
    rw [AtStore, hsame]
    exact hw₁
  refine ⟨hw₂, ?_⟩
  rw [heval]
  exact hw₂

/-- A delivery of a new event applies the webhook, or leaves everything as it was and is not
acknowledged. -/
theorem firstDelivery_leaves
    (hacc : Accepted hmacSha256 cfg before rawBody signature region ctx)
    (hnew : before.webhookEvents.any (ofEvent ctx.transactionId) = false)
    (happ : Applicable before ctx order session) (hkey : KeyFree before ctx) {w : World}
    (hw : AtStore before past w) {es : List Env}
    (hmeets : RunMeets machine (NoFailure ctx.transactionId)
      (fun v => ¬Unprocessed ctx.transactionId v) p
      (verifyAndProcessWebhook hmacSha256 cfg rawBody signature region) es w) :
    let delivered := machine.runAlone p
      (verifyAndProcessWebhook hmacSha256 cfg rawBody signature region) es w
    AppliedOnce before past ctx order session delivered.2.store.db delivered.2.store.history ∨
      (AtStore before past delivered.2 ∧ delivered.1.isReturned = false) := by
  have hinit : storeInv (Stage before past ctx order session p) w := .inl hw
  have hsound := runAlone_sound (fun _ _ => rfl) hinit
    (wp_firstDelivery hacc hnew happ hkey hw) hmeets
  intro delivered
  cases hrun : machine.runAlone p
      (verifyAndProcessWebhook hmacSha256 cfg rawBody signature region) es w with
  | mk outcome w' =>
    have hdelivered : delivered = (outcome, w') := hrun
    rw [hdelivered]
    rw [hrun] at hsound
    cases outcome with
    | returned a =>
      rcases hsound.2 with hdone | ⟨_, err, herr⟩
      · exact .inl hdone
      · cases herr
    | threw e =>
      rcases hsound.2 with hdone | ⟨hfresh, _⟩
      · exact .inl hdone
      · exact .inr ⟨hfresh, rfl⟩
    | crashed =>
      -- The process was alive while its row waited, so it died before or after that.
      obtain ⟨v, hstage, halive, rfl⟩ := hsound
      rcases hstage with hfresh | ⟨row, hof, hopen, hv⟩ | hdone
      · exact .inr ⟨hfresh, rfl⟩
      · exact absurd (unprocessed_insert hof hopen hv) halive
      · exact .inl hdone

theorem laterDelivery_leaves {w : World} (hw : AppliedOnce before past ctx order session
      w.store.db w.store.history)
    (hacc : Accepted hmacSha256 cfg before rawBody signature region ctx) (es : List Env) :
    AppliedOnce before past ctx order session
      (machine.runAlone p (verifyAndProcessWebhook hmacSha256 cfg rawBody signature region)
        es w).2.store.db
      (machine.runAlone p (verifyAndProcessWebhook hmacSha256 cfg rawBody signature region)
        es w).2.store.history := by
  obtain ⟨hreceived, hproviders⟩ := received_of_appliedOnce hw
  have hacc' : Accepted hmacSha256 cfg w.store.db rawBody signature region ctx :=
    { hacc with
      provider := by
        rw [hproviders]
        exact hacc.provider }
  have hok : ∀ e ∈ es, ∀ o v, anyOp p o e v := fun _ _ _ _ => trivial
  obtain ⟨hdb, hhistory⟩ := runAlone_leaves (p := p)
    (I := fun db' history' => db' = w.store.db ∧ history' = w.store.history) ⟨rfl, rfl⟩ hok
    (wp_mono (fun r _ _ => by cases r <;> trivial)
      (wp_laterDelivery hacc' hreceived ⟨rfl, rfl⟩))
  rw [hdb, hhistory]
  exact hw

theorem redeliver_leaves
    (hacc : Accepted hmacSha256 cfg before rawBody signature region ctx)
    (hnew : before.webhookEvents.any (ofEvent ctx.transactionId) = false)
    (happ : Applicable before ctx order session) (hkey : KeyFree before ctx)
    (attempts : List (Pid × List Env)) {w : World}
    (hw : AppliedOnce before past ctx order session w.store.db w.store.history ∨
      AtStore before past w)
    (hundisturbed : Undisturbed ctx.transactionId
      (verifyAndProcessWebhook hmacSha256 cfg rawBody signature region) attempts w) :
    let redelivered := redeliver
      (verifyAndProcessWebhook hmacSha256 cfg rawBody signature region) attempts w
    AppliedOnce before past ctx order session redelivered.2.store.db
        redelivered.2.store.history ∨
      (AtStore before past redelivered.2 ∧ AtStore before past w ∧ redelivered.1 = false) := by
  induction attempts generalizing w with
  | nil =>
    rcases hw with hdone | hfresh
    · exact .inl hdone
    · exact .inr ⟨hfresh, hfresh, rfl⟩
  | cons attempt attempts ih =>
    obtain ⟨p, es⟩ := attempt
    obtain ⟨hmeets, hlater⟩ := hundisturbed
    rcases hw with hdone | hfresh
    · have hdone' := laterDelivery_leaves (p := p) hdone hacc es
      rcases ih (.inl hdone') hlater with hdone'' | ⟨_, hfresh', _⟩
      · exact .inl hdone''
      · -- An applied webhook is received, so the tables are not those before.
        have hreceived := (received_of_appliedOnce hdone').1
        rw [hfresh'.1, hnew] at hreceived
        cases hreceived
    · rcases firstDelivery_leaves hacc hnew happ hkey hfresh hmeets with hdone' | ⟨hfresh', hno⟩
      · rcases ih (.inl hdone') hlater with hdone'' | ⟨_, hfresh', _⟩
        · exact .inl hdone''
        · have hreceived := (received_of_appliedOnce hdone').1
          rw [hfresh'.1, hnew] at hreceived
          cases hreceived
      · rcases ih (.inr hfresh') hlater with hdone'' | ⟨hfresh'', _, hno'⟩
        · exact .inl hdone''
        · refine .inr ⟨hfresh'', hfresh, ?_⟩
          change (_ || _) = false
          rw [hno, hno']
          rfl

end Deliveries

section Runs
variable (hmacSha256 : String → String → String) (cfg : Config)

/-- Redeliveries of a new payment webhook that are not disturbed while its row waits: once one of
them is acknowledged, the webhook has been applied exactly once. -/
theorem acknowledged_webhook_applied_once (w : World) (rawBody : Option Json)
    (signature region : String) (ctx : WebhookContext) (order : OrderEntity)
    (session : PaymentSessionEntity)
    (hacc : Accepted hmacSha256 cfg w.store.db rawBody signature region ctx)
    (hnew : w.store.db.webhookEvents.any (ofEvent ctx.transactionId) = false)
    (happ : Applicable w.store.db ctx order session) (hkey : KeyFree w.store.db ctx)
    (attempts : List (Pid × List Env))
    (hundisturbed : Undisturbed ctx.transactionId
      (verifyAndProcessWebhook hmacSha256 cfg rawBody signature region) attempts w)
    (w' : World) (hack : redeliver
      (verifyAndProcessWebhook hmacSha256 cfg rawBody signature region) attempts w = (true, w')) :
    AppliedOnce w.store.db w.store.history ctx order session w'.store.db w'.store.history := by
  have hleaves := redeliver_leaves hacc hnew happ hkey attempts (.inr ⟨rfl, rfl⟩) hundisturbed
  rw [hack] at hleaves
  rcases hleaves with hdone | ⟨_, _, hno⟩
  · exact hdone
  · cases hno

/-- The provider lookup of the first delivery fails; the second comes through. -/
def secondComesThrough : List (Pid × List Env) :=
  [(0, [{ fail := true }]), (1, List.replicate 30 {})]

instance (providerEventId : String) (w : World) : Decidable (Unprocessed providerEventId w) :=
  inferInstanceAs (Decidable (∃ row ∈ w.store.db.webhookEvents, _ ∧ _))

instance (providerEventId : String) (p : Pid) (o : Op) (e : Env) (w : World) :
    Decidable (NoFailure providerEventId p o e w) :=
  inferInstanceAs (Decidable (_ → _ → _))

theorem acknowledged_webhook_applied_once_second :
    ∃ w', redeliver (verifyAndProcessWebhook sampleHmac sampleConfig (some (payBody "SUCCESS"))
        (paySignature "SUCCESS") "eg") secondComesThrough awaitingPayment = (true, w') ∧
      AppliedOnce awaitingPayment.store.db awaitingPayment.store.history (payContext "SUCCESS")
        pendingOrder openSession w'.store.db w'.store.history := by
  have hack : (redeliver (verifyAndProcessWebhook sampleHmac sampleConfig
      (some (payBody "SUCCESS")) (paySignature "SUCCESS") "eg") secondComesThrough
      awaitingPayment).1 = true := by decide
  have hundisturbed : Undisturbed "T1" (verifyAndProcessWebhook sampleHmac sampleConfig
      (some (payBody "SUCCESS")) (paySignature "SUCCESS") "eg") secondComesThrough
      awaitingPayment := by
    refine ⟨by decide, by decide, trivial⟩
  refine ⟨_, Prod.ext hack rfl, ?_⟩
  exact acknowledged_webhook_applied_once sampleHmac sampleConfig awaitingPayment
    (some (payBody "SUCCESS")) (paySignature "SUCCESS") "eg" (payContext "SUCCESS") pendingOrder
    openSession (payWebhook_accepted (by decide)) rfl (payWebhook_applicable "SUCCESS")
    (fun _ => rfl) secondComesThrough hundisturbed _ (Prod.ext hack rfl)

/-- The transaction of the first delivery cannot be opened. -/
def startFailsFirst : List (Pid × List Env) :=
  [(0, [{}, {}, {}, { fail := true }]), (1, List.replicate 30 {})]

/-- The second delivery is acknowledged for the dedupe row of the first, and nothing has been
applied. -/
theorem acknowledged_webhook_not_applied :
    Accepted sampleHmac sampleConfig awaitingPayment.store.db (some (payBody "SUCCESS"))
      (paySignature "SUCCESS") "eg" (payContext "SUCCESS") ∧
    Applicable awaitingPayment.store.db (payContext "SUCCESS") pendingOrder openSession ∧
    ∃ w', redeliver (verifyAndProcessWebhook sampleHmac sampleConfig (some (payBody "SUCCESS"))
        (paySignature "SUCCESS") "eg") startFailsFirst awaitingPayment = (true, w') ∧
      (w'.store.db.paymentSessions.map fun s => s.status) = [.pending] ∧
      (w'.store.db.orders.map fun o => o.status) = [.pendingPayment] ∧
      w'.store.db.transactions.length = 0 ∧ w'.store.db.eventsOutbox.length = 0 ∧
      ¬AppliedOnce awaitingPayment.store.db awaitingPayment.store.history (payContext "SUCCESS")
        pendingOrder openSession w'.store.db w'.store.history := by
  have hrun : (redeliver (verifyAndProcessWebhook sampleHmac sampleConfig
      (some (payBody "SUCCESS")) (paySignature "SUCCESS") "eg") startFailsFirst
      awaitingPayment).1 = true := by decide
  refine ⟨payWebhook_accepted (by decide), payWebhook_applicable "SUCCESS", _,
    Prod.ext hrun rfl, by decide, by decide, by decide, by decide, ?_⟩
  rintro ⟨p, q, row, log, marks, _, _, _, hhistory, _⟩
  -- Only the dedupe row has been committed.
  have hone : (redeliver (verifyAndProcessWebhook sampleHmac sampleConfig
      (some (payBody "SUCCESS")) (paySignature "SUCCESS") "eg") startFailsFirst
      awaitingPayment).2.store.history.length = 1 := by decide
  have htwo := hone.symm.trans (congrArg List.length hhistory)
  simp only [List.length_append, List.length_cons, List.length_nil] at htwo
  omega

end Runs

end OrderService
