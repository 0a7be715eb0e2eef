import OrderService.DeliveryAlone
import OrderService.WebhookEffects

/-! The writes of a processed webhook, and the processing of an accepted one that runs by itself. -/
namespace OrderService
open ReadCommitted Interleaving

section Writes
variable (db : Db) (ctx : WebhookContext) (order : OrderEntity) (session : PaymentSessionEntity)

/-- The charge of a payment is recorded unless a transaction names it. -/
inductive Charged : List Write → Prop
  | known {t : TransactionEntity} :
      db.transactions.find? (fun t => t.providerReferenceId = some ctx.transactionId) = some t →
      Charged []
  | charged (id : Nat) (now : Time) (dstAccId : Nat) :
      db.transactions.find? (fun t => t.providerReferenceId = some ctx.transactionId) = none →
      Charged [.insertTransaction
        ((chargeData ctx order session .succeeded dstAccId).toEntity id now)]

/-- An order that was waiting for its payment is placed. -/
inductive Placed : List Write → Prop
  | already : order.status ≠ .pendingPayment → Placed []
  | placed (now : Time) (row : OutboxRow) : order.status = .pendingPayment →
      row.eventType = .orderPlaced → row.aggregateId = order.publicId →
      Placed [.setOrderStatus order.publicId .placed none now, .insertOutbox row]

/-- The writes of an applied webhook, whose dedupe row is `rowId`. -/
inductive Applied (rowId : Nat) : List Write → Prop
  | intro {charge placement : List Write} (capturedAt processedAt : Time) (event : OutboxRow) :
      Charged db ctx order session charge → Placed order placement →
      event.eventType = .paymentCompleted → event.aggregateId = order.publicId →
      Applied rowId (.setSessionStatus session.id .captured capturedAt :: charge
        ++ [.insertOutbox event] ++ placement ++ [.setWebhookEvent rowId (some processedAt) none])

/-- The order and the session that the processing finds. -/
structure Applicable : Prop where
  reference : orderReference ctx.data = some (.str order.publicId)
  found : db.order order.publicId = some order
  active : firstDesc PaymentSessionEntity.id (db.paymentSessions.filter fun s =>
    s.orderId = order.id && (s.status = .initialized || s.status = .pending)) = some session

theorem Charged.table {db : Db} {ctx : WebhookContext} {order : OrderEntity}
    {session : PaymentSessionEntity} {charge : List Write}
    (h : Charged db ctx order session charge) : ∀ x ∈ charge, x.table = .transactions := by
  cases h <;> simp [Write.table]

end Writes

section Rules
variable {ok : Pid → Op → Env → World → Prop} {S : Spec Pid World} {p : Pid} {E : Prop}
  {db : Db} {history : List (Pid × List Write)} {w : World} {log : List Write}
  {ctx : WebhookContext} {order : OrderEntity} {session : PaymentSessionEntity}

/-- A call by itself, in which a statement can fail only where `E` holds. -/
structure Alone (ok : Pid → Op → Env → World → Prop) (S : Spec Pid World) (p : Pid) (E : Prop)
    (db : Db) (history : List (Pid × List Write)) : Prop where
  isolated : Isolated S p
  kept : Kept S p (AtStore db history)
  fails : ∀ o e v, AtStore db history v → ok p o e v → o.outer = false → e.fail = true → E

theorem wp_alone_sql (h : Alone ok S p E db history) (ho : Open (AtStore db history) p log w)
    {q : Sql} {P : q.Res → World → Prop}
    (hP : ∀ (v : World) w', Open (AtStore db history) p
      (log ++ (q.eval v.seqs v.clock (engine.applyAll log db)).writes) w' →
      OrFail E P (q.eval v.seqs v.clock (engine.applyAll log db)).reply w') :
    wp machine ok S p (sql .trx q) (OrFail E P) w := by
  have hS := h.isolated
  apply wp_trx hS ho.txn
  · intro v e hr _ hok hfail
    exact h.fails _ e v (h.kept.rely w v hr ho.holds) hok rfl hfail
  · intro v e hr hi hlog hok _
    have hv : AtStore db history v := h.kept.rely w v hr ho.holds
    have hview : v.inTrx p q = q.eval v.seqs v.clock (engine.applyAll log db) := by
      rw [World.inTrx, World.view_eq, World.log_of_active hlog, hv.1]
    rw [hview]
    apply hP v
    refine ⟨hv, ?_⟩
    rw [World.queried_txn_of_log hlog, hview]

/-- A statement that answers `a` and writes nothing. -/
theorem wp_alone_read (h : Alone ok S p E db history) (ho : Open (AtStore db history) p log w)
    {q : Sql} {P : q.Res → World → Prop} {a : q.Res}
    (hread : ∀ seqs clock, q.eval seqs clock (engine.applyAll log db) = reading a)
    (hP : ∀ w', Open (AtStore db history) p log w' → P a w') :
    wp machine ok S p (sql .trx q) (OrFail E P) w := by
  apply wp_alone_sql h ho
  intro v w' ho'
  rw [hread] at ho' ⊢
  rw [reading, List.append_nil] at ho'
  exact hP w' ho'

/-- A statement that answers `a` and writes. -/
theorem wp_alone_write (h : Alone ok S p E db history) (ho : Open (AtStore db history) p log w)
    {q : Sql} {P : q.Res → World → Prop}
    (hP : ∀ (v : World) w', ∃ a ws, q.eval v.seqs v.clock (engine.applyAll log db) = writing a ws ∧
      (Open (AtStore db history) p (log ++ ws) w' → P a w')) :
    wp machine ok S p (sql .trx q) (OrFail E P) w := by
  apply wp_alone_sql h ho
  intro v w' ho'
  obtain ⟨a, ws, heval, hP⟩ := hP v w'
  rw [heval] at ho' ⊢
  exact hP ho'

theorem wp_alone_now (h : Alone ok S p E db history) (ho : Open (AtStore db history) p log w)
    {P : Time → World → Prop} (hP : ∀ t w', Open (AtStore db history) p log w' → P t w') :
    wp machine ok S p now (OrFail E P) w := by
  apply wp_now h.isolated
  intro v hr _
  exact hP v.clock v
    ⟨h.kept.rely w v hr ho.holds, (h.isolated.sees w v hr).1.txn.trans ho.txn⟩

theorem wp_alone_seq {α β : Type} {prog : Svc α} {f : α → Svc β} {P : β → World → Prop}
    (h : wp machine ok S p prog (OrFail E fun a w' => wp machine ok S p (f a) (OrFail E P) w') w) :
    wp machine ok S p (prog >>= f) (OrFail E P) w := wp_seq_fail (fun he _ _ => he) h

theorem mem_of_firstDesc {α : Type} {key : α → Nat} {l : List α} {a : α}
    (h : firstDesc key l = some a) : a ∈ l := by
  induction l generalizing a with
  | nil => cases h
  | cons b l ih =>
    unfold firstDesc at h
    split at h
    · rw [Option.some.inj h]
      exact List.mem_cons_self
    · next c hc =>
      split_ifs at h with hkey
      · rw [← Option.some.inj h]
        exact List.mem_cons_of_mem b (ih hc)
      · rw [Option.some.inj h]
        exact List.mem_cons_self

theorem wp_alone_capture (h : Alone ok S p E db history) (happ : Applicable db ctx order session)
    (ho : Open (AtStore db history) p [] w) {P : PaymentSessionEntity → World → Prop}
    (hP : ∀ s t w', Open (AtStore db history) p [.setSessionStatus session.id .captured t] w' →
      P s w') :
    wp machine ok S p (updatePaymentSessionStatus session.id .captured .trx) (OrFail E P) w := by
  apply wp_alone_seq
  apply wp_alone_now h ho
  intro t w₁ ho₁
  apply wp_alone_seq
  -- The active session is one of the rows.
  have hmem : session ∈ db.paymentSessions := (List.mem_filter.mp (mem_of_firstDesc happ.active)).1
  obtain ⟨s, hs⟩ : ∃ s, db.paymentSessions.find? (fun s => s.id = session.id) = some s := by
    apply Option.isSome_iff_exists.mp
    rw [List.find?_isSome]
    exact ⟨session, hmem, by simp⟩
  apply wp_alone_write h ho₁
  intro v w₂
  refine ⟨some { s with status := .captured, updatedAt := t },
    [.setSessionStatus session.id .captured t], ?_, ?_⟩
  · simp only [Sql.eval, applyAll_nil, hs]
  · exact fun ho₂ => hP _ t w₂ ho₂

theorem wp_alone_owner (h : Alone ok S p E db history) (ho : Open (AtStore db history) p log w)
    {branchId : Nat} {P : Option Nat → World → Prop}
    (hP : ∀ owner w', Open (AtStore db history) p log w' → P owner w') :
    wp machine ok S p (fetchRestaurantOwner branchId) (OrFail E P) w := by
  apply wp_catch
  apply wp_do
  apply wp_outer h.isolated rfl
  intro v e r w₁ hr hi _ hx _ hstore _ _
  have ho₁ : Open (AtStore db history) p log w₁ := by
    refine ⟨h.kept.step _ e v r w₁ rfl hi hx (h.kept.rely w v hr ho.holds), ?_⟩
    rw [hstore]
    exact (h.isolated.sees w v hr).1.txn.trans ho.txn
  cases r with
  | error err => exact hP none w₁ ho₁
  | ok branch => exact hP _ w₁ ho₁

/-- A key that is taken although no transaction names the payment makes the insert fail. -/
def KeyFree (db : Db) (ctx : WebhookContext) : Prop :=
  db.transactions.find? (fun t => t.providerReferenceId = some ctx.transactionId) = none →
    db.idempotent ("kashier:" ++ ctx.transactionId) = none

theorem wp_alone_charge (h : Alone ok S p E db history)
    (hlog : (engine.applyAll log db).transactions = db.transactions)
    (hkey : KeyFree db ctx ∨ E) (ho : Open (AtStore db history) p log w) {dstAccId : Nat}
    {P : Unit → World → Prop} (hP : ∀ charge w', Charged db ctx order session charge →
      Open (AtStore db history) p (log ++ charge) w' → P () w') :
    wp machine ok S p (recordCharge ctx order session .succeeded dstAccId) (OrFail E P) w := by
  apply wp_alone_seq
  cases hknown : db.transactions.find?
      (fun t => t.providerReferenceId = some ctx.transactionId) with
  | some t =>
    refine wp_alone_read h ho (a := some t) ?_ ?_
    · intro seqs clock
      simp only [Sql.eval, hlog, hknown]
    · intro w₁ ho₁
      refine hP [] w₁ (.known hknown) ?_
      rw [List.append_nil]
      exact ho₁
  | none =>
    refine wp_alone_read h ho (a := none) ?_ ?_
    · intro seqs clock
      simp only [Sql.eval, hlog, hknown]
    · intro w₁ ho₁
      apply wp_alone_seq
      apply wp_alone_seq
      apply wp_alone_now h ho₁
      intro t w₂ ho₂
      apply wp_alone_seq
      apply wp_alone_sql h ho₂
      intro v w₃ ho₃
      have hidempotent : (orNullText (chargeData ctx order session .succeeded dstAccId).idempotencyKey).bind
          (engine.applyAll log db).idempotent = db.idempotent ("kashier:" ++ ctx.transactionId) := by
        rw [show (chargeData ctx order session .succeeded dstAccId).idempotencyKey
          = some ("kashier:" ++ ctx.transactionId) from rfl, orNullText_of_ne (by simp)]
        unfold Db.idempotent
        rw [hlog]
        rfl
      simp only [Sql.eval, hidempotent] at ho₃ ⊢
      cases hfree : db.idempotent ("kashier:" ++ ctx.transactionId) with
      | none =>
        rw [hfree] at ho₃
        exact hP _ w₃ (.charged _ t dstAccId hknown) ho₃
      | some taken =>
        rcases hkey with hkey | he
        · rw [hkey hknown] at hfree
          cases hfree
        · exact he

theorem wp_alone_place (h : Alone ok S p E db history) (happ : Applicable db ctx order session)
    (hlog : (engine.applyAll log db).orders = db.orders)
    (ho : Open (AtStore db history) p log w) {P : Option (OrderEntity × Nat) → World → Prop}
    (hP : ∀ broadcast placement w', Placed order placement →
      Open (AtStore db history) p (log ++ placement) w' → P broadcast w') :
    wp machine ok S p (placePaidOrder order) (OrFail E P) w := by
  unfold placePaidOrder
  split_ifs with hpending
  · have hfound : (engine.applyAll log db).order order.publicId = some order := by
      rw [Db.order, hlog]
      exact happ.found
    apply wp_alone_seq
    apply wp_alone_seq
    apply wp_alone_now h ho
    intro t w₁ ho₁
    apply wp_alone_seq
    apply wp_alone_write h ho₁
    intro v w₂
    refine ⟨some (order.withStatus .placed none t), [.setOrderStatus order.publicId .placed none t],
      ?_, ?_⟩
    · simp only [Sql.eval, hfound]
    intro ho₂
    change wp machine ok S p (findItemsByOrderIds _ .trx >>= _) _ w₂
    apply wp_alone_seq
    refine wp_alone_read h ho₂ (fun _ _ => rfl) ?_
    intro w₃ ho₃
    apply wp_alone_seq
    apply wp_alone_write h ho₃
    intro v' w₄
    refine ⟨(), _, rfl, fun ho₄ => ?_⟩
    rw [List.append_assoc] at ho₄
    exact hP _ _ w₄ (.placed t _ hpending rfl rfl) ho₄
  · refine hP none [] w (.already hpending) ?_
    rw [List.append_nil]
    exact ho

/-- The webhook has been applied to the tables `db`, after the commits `history`. -/
def Completed (db : Db) (history : List (Pid × List Write)) (ctx : WebhookContext)
    (order : OrderEntity) (session : PaymentSessionEntity) (p : Pid) (rowId : Nat) (w : World) :
    Prop :=
  ∃ log, Applied db ctx order session rowId log ∧
    AtStore (engine.applyAll log db) (history ++ [(p, log)]) w

/-- The processing of an applicable webhook applies it, or fails where `E` holds. Once it is
committed, what follows cannot undo it. -/
theorem wp_alone_process (h : Alone ok S p E db history) (happ : Applicable db ctx order session)
    (hkey : KeyFree db ctx ∨ E) {rowId : Nat}
    (hcommit : ∀ v, S.inv v → Completed db history ctx order session p rowId (v.committed p) →
      S.inv (v.committed p))
    (hrely : ∀ w w', S.rely p w w' → w' = w) {event : Json} (hpay : event.isText "pay" = true)
    (ho : Open (AtStore db history) p [] w) :
    wp machine ok S p (processWebhook event ctx rowId) (fun r w' =>
      Completed db history ctx order session p rowId w' ∨ (E ∧ ∃ err, r = .error err)) w := by
  have hfail : E → ∀ err w', Completed db history ctx order session p rowId w' ∨
      (E ∧ ∃ err', (.error err : Except Err Unit) = .error err') :=
    fun he err _ => .inr ⟨he, err, rfl⟩
  unfold processWebhook
  rw [happ.reference]
  apply wp_seq_fail hfail
  refine wp_alone_read h ho (fun _ _ => congrArg reading happ.found) ?_
  intro w₁ ho₁
  apply wp_seq_fail hfail
  refine wp_alone_read h ho₁ (fun _ _ => congrArg reading happ.active) ?_
  intro w₂ ho₂
  apply wp_seq_fail hfail
  unfold applyEvent
  rw [hpay, Bool.true_or, if_pos rfl]
  apply wp_alone_seq
  apply wp_alone_capture h happ ho₂
  intro _ capturedAt w₃ ho₃
  apply wp_alone_seq
  apply wp_alone_owner h ho₃
  intro owner w₄ ho₄
  apply wp_alone_seq
  apply wp_alone_charge h rfl hkey ho₄
  intro charge w₅ hcharge ho₅
  apply wp_alone_seq
  apply wp_alone_now h ho₅
  intro completedAt w₆ ho₆
  apply wp_alone_seq
  apply wp_alone_write h ho₆
  intro v₆ w₇
  refine ⟨(), _, rfl, fun ho₇ => ?_⟩
  have horders : (engine.applyAll ([.setSessionStatus session.id .captured capturedAt] ++ charge
      ++ [.insertOutbox { paymentEvent ctx order session .paymentCompleted completedAt with
        id := v₆.seqs.eventsOutbox, createdAt := v₆.clock }]) db).orders = db.orders := by
    apply orders_applyAll
    intro x hx htable
    simp only [List.mem_append, List.mem_singleton] at hx
    rcases hx with (rfl | hx) | rfl
    · cases htable
    · rw [hcharge.table x hx] at htable
      cases htable
    · cases htable
  apply wp_alone_place h happ horders ho₇
  intro broadcast placement w₈ hplaced ho₈
  apply wp_seq_fail hfail
  apply wp_alone_now h ho₈
  intro processedAt w₉ ho₉
  apply wp_seq_fail hfail
  apply wp_alone_write h ho₉
  intro v₉ w₁₀
  refine ⟨(), _, rfl, fun ho₁₀ => ?_⟩
  have hS := h.isolated
  apply wp_do
  apply wp_commit hS ho₁₀.txn
  · intro v e hr _ hok hf
    exact hfail (h.fails .commit e v (h.kept.rely w₁₀ v hr ho₁₀.holds) hok rfl hf) _ _
  intro v e hr hi hlog hok
  have hv : AtStore db history v := h.kept.rely w₁₀ v hr ho₁₀.holds
  have hprocessed : Completed db history ctx order session p rowId (v.committed p) := by
    refine ⟨_, .intro capturedAt processedAt
      { paymentEvent ctx order session .paymentCompleted completedAt with
        id := v₆.seqs.eventsOutbox, createdAt := v₆.clock } hcharge hplaced rfl rfl, ?_⟩
    simp only [AtStore, World.committed, World.log_of_active hlog, hv.1, hv.2]
    exact ⟨rfl, rfl⟩
  refine ⟨hcommit v hi hprocessed, ?_⟩
  -- The announcements do not touch the store.
  apply wp_mono _ (wp_outside_always hS
    (F := Completed db history ctx order session p rowId) _ _ calls_announcePlaced hprocessed)
  · exact fun r w' hw' => .inl hw'
  · intro w w' hr hw
    rw [hrely w w' hr]
    exact hw
  · rintro w w' hstore ⟨log, happlied, hat⟩
    exact ⟨log, happlied, by rw [AtStore, hstore]; exact hat⟩

end Rules

section Receiving
variable (hmacSha256 : String → String → String) (cfg : Config)

/-- The service accepts the webhook as a payment: the provider is enabled and the signature is
valid. `ctx` is what it takes from it. -/
structure Accepted (db : Db) (rawBody : Option Json) (signature region : String)
    (ctx : WebhookContext) : Prop where
  envelope : parseEnvelope rawBody = .ok ⟨.str "pay", ctx.data⟩
  signature_eq : ctx.signature = signature
  region_eq : ctx.region = region
  signed : signature ≠ ""
  provider : db.paymentProviders.find? (fun p => p.name = "kashier") = some ctx.provider
  enabled : ctx.provider.isEnabled = true
  verified : verifyKashierWebhookSignature hmacSha256 ctx.data signature (signatureKeysOf ctx.data)
    cfg.kashierApiKey = .ok true
  transactionId : ((getField ctx.data "transactionId").getD .null).text = .ok ctx.transactionId

/-- The dedupe row of a provider event. -/
def ofEvent (providerEventId : String) (e : PaymentWebhookEventEntity) : Bool :=
  e.providerId = kashierProviderId && e.providerEventId = providerEventId

variable {hmacSha256 cfg} {ok : Pid → Op → Env → World → Prop} {S : Spec Pid World} {p : Pid}
  {db : Db} {history : List (Pid × List Write)} {w : World} {ctx : WebhookContext}
  {rawBody : Option Json} {signature region : String}

/-- An accepted webhook comes to the dedupe insert, or nothing happens. -/
theorem wp_verify (hacc : Accepted hmacSha256 cfg db rawBody signature region ctx)
    (hS : Isolated S p) (hstore : OfStore S) (hrely : ∀ w w', S.rely p w w' → w' = w)
    (hw : AtStore db history w) {Q : Except Err Unit → World → Prop}
    (herr : ∀ err w', AtStore db history w' → Q (.error err) w')
    (hreceive : ∀ w', AtStore db history w' →
      wp machine ok S p (receiveWebhook (.str "pay") ctx ctx.transactionId) Q w') :
    wp machine ok S p (verifyAndProcessWebhook hmacSha256 cfg rawBody signature region) Q w := by
  unfold verifyAndProcessWebhook
  simp only [hacc.envelope]
  rw [if_neg (by simp [Json.isText]), if_neg hacc.signed]
  apply wp_do
  apply wp_pool hS
  · intro v e hr _ _ _
    rw [hrely w v hr]
    exact herr _ w hw
  intro v e hr hi _ _
  obtain rfl := hrely w v hr
  have hsame : (v.pooled p (.findProviderByName "kashier")).store = v.store :=
    World.pooled_store rfl
  refine ⟨hstore v _ hsame hi, ?_⟩
  have hreply : (v.onPool (.findProviderByName "kashier")).reply = .ok (some ctx.provider) := by
    rw [← hacc.provider, ← hw.1]
    rfl
  rw [hreply]
  have hw' : AtStore db history (v.pooled p (.findProviderByName "kashier")) := by
    rw [AtStore, hsame]
    exact hw
  simp only [hacc.enabled, Bool.not_true, Bool.false_eq_true, if_false, hacc.verified,
    hacc.transactionId, Prog.ofExcept]
  have hctx : ctx = ⟨region, signature, ctx.data, ctx.transactionId, ctx.provider⟩ := by
    rw [← hacc.signature_eq, ← hacc.region_eq]
  rw [hctx] at hreceive
  exact hreceive _ hw'

/-- The dedupe insert of an event that has not been received commits its row, or nothing
happens. -/
theorem wp_receiveNew (hS : Isolated S p) (hrely : ∀ w w', S.rely p w w' → w' = w)
    (hw : AtStore db history w) (hnew : db.webhookEvents.any (ofEvent ctx.transactionId) = false)
    {event : Json} {Q : Except Err Unit → World → Prop}
    (herr : ∀ err w', AtStore db history w' → Q (.error err) w')
    (hinsert : ∀ row w', ofEvent ctx.transactionId row = true → row.processedAt = none →
      AtStore (engine.apply (.insertWebhookEvent row) db)
        (history ++ [(p, [.insertWebhookEvent row])]) w' →
      S.inv w' ∧ wp machine ok S p (do
        startTransaction
        tryCatch (processWebhook event ctx row.id) fun error => do
          rollback
          let processedAt ← now
          updateWebhookEventStatus row.id (some processedAt) (some error.message) .pool
          throw error) Q w') :
    wp machine ok S p (receiveWebhook event ctx ctx.transactionId) Q w := by
  apply wp_do
  apply wp_do
  apply wp_now hS
  intro v hr _
  obtain rfl := hrely w v hr
  apply wp_pool hS
  · intro v' e hr' _ _ _
    rw [hrely v v' hr']
    exact herr _ v hw
  intro v' e hr' hi _ _
  obtain rfl := hrely v v' hr'
  have heval : ∃ row, ofEvent ctx.transactionId row = true ∧ row.processedAt = none ∧
      v'.onPool (.insertWebhookEvent
        ⟨ctx.region, kashierProviderId, ctx.transactionId, ctx.signature⟩ v'.clock)
          = writing (some row) [.insertWebhookEvent row] := by
    refine ⟨⟨⟨ctx.region, kashierProviderId, ctx.transactionId, ctx.signature⟩,
      v'.seqs.webhookEvents, v'.clock, none, none⟩, by simp [ofEvent], rfl, ?_⟩
    have hnone : (v'.store.db.webhookEvents.any fun e => e.providerId = kashierProviderId &&
        e.providerEventId = ctx.transactionId) = false := by
      rw [hw.1]
      exact hnew
    simp only [World.onPool, Sql.eval, hnone, Bool.false_eq_true, if_false]
  obtain ⟨row, hof, hopen, heval⟩ := heval
  have hw' : AtStore (engine.apply (.insertWebhookEvent row) db)
      (history ++ [(p, [.insertWebhookEvent row])]) (v'.pooled p (.insertWebhookEvent
        ⟨ctx.region, kashierProviderId, ctx.transactionId, ctx.signature⟩ v'.clock)) := by
    simp only [AtStore, World.pooled, heval, writing, hw.1, hw.2]
    exact ⟨rfl, rfl⟩
  obtain ⟨hinv, hwp⟩ := hinsert row _ hof hopen hw'
  refine ⟨hinv, ?_⟩
  rw [heval]
  exact hwp

/-- The webhook has been applied, and its row marked with an error of what followed. -/
def Marked (db : Db) (history : List (Pid × List Write)) (ctx : WebhookContext)
    (order : OrderEntity) (session : PaymentSessionEntity) (p : Pid) (rowId : Nat) (w : World) :
    Prop :=
  ∃ log t message, Applied db ctx order session rowId log ∧
    AtStore (engine.apply (.setWebhookEvent rowId (some t) (some message)) (engine.applyAll log db))
      (history ++ [(p, log)] ++ [(p, [.setWebhookEvent rowId (some t) (some message)])]) w

variable {E : Prop} {order : OrderEntity} {session : PaymentSessionEntity}

/-- What is left of the processing: it returned and the webhook is applied, or it threw. It throws
before the commit only where `E` holds. -/
def Left (E : Prop) (db : Db) (history : List (Pid × List Write)) (ctx : WebhookContext)
    (order : OrderEntity) (session : PaymentSessionEntity) (p : Pid) (rowId : Nat) :
    Except Err Unit → World → Prop
  | .ok _, w => Completed db history ctx order session p rowId w
  | .error _, w => E ∨ Completed db history ctx order session p rowId w ∨
      Marked db history ctx order session p rowId w

theorem wp_process (h : Alone ok S p E db history) (happ : Applicable db ctx order session)
    (hkey : KeyFree db ctx ∨ E) {rowId : Nat} (hE : E → ∀ v, S.inv v)
    (hcompleted : ∀ v, Completed db history ctx order session p rowId v → S.inv v)
    (hmarked : ∀ v, Marked db history ctx order session p rowId v → S.inv v)
    (hrely : ∀ w w', S.rely p w w' → w' = w) {event : Json} (hpay : event.isText "pay" = true)
    (hw : AtStore db history w) :
    wp machine ok S p (do
      startTransaction
      tryCatch (processWebhook event ctx rowId) fun error => do
        rollback
        let processedAt ← now
        updateWebhookEventStatus rowId (some processedAt) (some error.message) .pool
        throw error) (Left E db history ctx order session p rowId) w := by
  have hS := h.isolated
  apply wp_do
  apply wp_start hS
  · intro v e hr _ hok hf
    rw [hrely w v hr] at hok ⊢
    exact .inl (h.fails .start e w hw hok rfl hf)
  intro v e hr _ _ _
  obtain rfl := hrely w v hr
  have ho : Open (AtStore db history) p [] { v with store := v.store.start p } :=
    ⟨hw, World.start_txn v p⟩
  apply wp_catch
  apply wp_mono _ (wp_alone_process h happ hkey (fun v _ hdone => hcompleted _ hdone) hrely hpay
    ho)
  intro r w₁ hleft
  cases r with
  | ok a =>
    rcases hleft with hdone | ⟨_, err, herr⟩
    · exact hdone
    · cases herr
  | error error =>
    -- The handler marks the row; only after the commit is there something to keep.
    replace hleft : E ∨ Completed db history ctx order session p rowId w₁ := by
      rcases hleft with hdone | ⟨he, _⟩
      · exact .inr hdone
      · exact .inl he
    apply wp_do
    apply wp_rollback hS
    intro w₂ hr₂ _ _
    obtain rfl := hrely w₁ w₂ hr₂
    apply wp_do
    apply wp_now hS
    intro w₃ hr₃ _
    have hw₃ : E ∨ Completed db history ctx order session p rowId w₃ := by
      rw [hrely _ w₃ hr₃]
      exact hleft
    apply wp_do
    apply wp_pool hS
    · intro w₄ e hr₄ _ _ _
      rw [hrely w₃ w₄ hr₄]
      rcases hw₃ with he | hdone
      · exact .inl he
      · exact .inr (.inl hdone)
    intro w₄ e hr₄ _ _ _
    obtain rfl := hrely w₃ w₄ hr₄
    have hleft' : E ∨ Marked db history ctx order session p rowId (w₄.pooled p
        (.updateWebhookEventStatus rowId (some w₄.clock) (some error.message))) := by
      rcases hw₃ with he | ⟨log, happlied, hat⟩
      · exact .inl he
      · refine .inr ⟨log, w₄.clock, error.message, happlied, ?_⟩
        simp only [AtStore, World.pooled, World.onPool, Sql.eval, writing, hat.1, hat.2]
        exact ⟨rfl, rfl⟩
    refine ⟨?_, ?_⟩
    · rcases hleft' with he | hmark
      · exact hE he _
      · exact hmarked _ hmark
    · rcases hleft' with he | hmark
      · exact .inl he
      · exact .inr (.inr hmark)

end Receiving

/-- An online order whose session is open, to run webhooks on. -/
def pendingOrder : OrderEntity :=
  { OrderEntity.sample "order-1" .pendingPayment with
    paymentMethod := .online, deliveryAgentId := none }

def openSession : PaymentSessionEntity :=
  ⟨⟨"eg", 1, 0, "session-1", "https://pay", 13000, "EGP", .pending⟩, 1, 0, 0⟩

def kashier : PaymentProviderEntity := ⟨1, "kashier", true, 10⟩

def awaitingPayment : World :=
  { store := Store.ofDb
      { orders := [pendingOrder]
        paymentProviders := [kashier]
        paymentSessions := [openSession] } }

/-- HMAC-SHA256 under the key `api-key`, on the two messages below. -/
def sampleHmac (_ message : String) : String :=
  if message = "merchantOrderId=order-1&status=FAILED&transactionId=T1" then
    "ddb62788ebe853d4e1d538310b3e2d92a4d6695aebab05febe8d1a950f3bb143"
  else if message = "merchantOrderId=order-1&status=SUCCESS&transactionId=T1" then
    "93d0e1f5fe17859e75b6559696fdef950179fffea17abec0dec699ecf99ffe2e"
  else ""

/-- The fields of a payment webhook about the order. -/
def payData (status : String) : List (String × Json) :=
  [("transactionId", .str "T1"), ("merchantOrderId", .str "order-1"), ("status", .str status),
    ("signatureKeys", .arr [.str "transactionId", .str "merchantOrderId", .str "status"])]

def payBody (status : String) : Json := .obj [("event", .str "pay"), ("data", .obj (payData status))]

def paySignature (status : String) : String :=
  sampleHmac "api-key" ("merchantOrderId=order-1&status=" ++ status ++ "&transactionId=T1")

def payContext (status : String) : WebhookContext :=
  ⟨"eg", paySignature status, payData status, "T1", kashier⟩

theorem payWebhook_accepted {status : String}
    (h : verifyKashierWebhookSignature sampleHmac (payData status) (paySignature status)
      (signatureKeysOf (payData status)) "api-key" = .ok true) :
    Accepted sampleHmac sampleConfig awaitingPayment.store.db (some (payBody status))
      (paySignature status) "eg" (payContext status) where
  envelope := rfl
  signature_eq := rfl
  region_eq := rfl
  signed := by
    intro hempty
    rw [hempty] at h
    cases h
  provider := rfl
  enabled := rfl
  verified := h
  transactionId := rfl

theorem payWebhook_applicable (status : String) :
    Applicable awaitingPayment.store.db (payContext status) pendingOrder openSession :=
  ⟨rfl, rfl, rfl⟩

end OrderService
