import OrderService.CallEffects
import OrderService.Spending
import OrderService.WebhookSpec

/-! Any number of webhooks that carry one transaction id: only the one whose dedupe row is
committed does anything. -/
namespace OrderService
open ReadCommitted Interleaving

section Statement

/-- The transaction id that a body carries, as the dedupe key has it. -/
def carriedId (rawBody : Option Json) : Option String :=
  match parseEnvelope rawBody with
  | .ok envelope => (((getField envelope.data "transactionId").getD .null).text).toOption
  | .error _ => none

/-- The write inserts the dedupe row of the transaction. -/
def insertsEvent (transactionId : String) : Write → Bool
  | .insertWebhookEvent row =>
    row.providerId = kashierProviderId && row.providerEventId = transactionId
  | _ => false

/-- The call has committed the dedupe row. -/
def Inserted (transactionId : String) (p : Pid) (history : List (Pid × List Write)) : Prop :=
  ∃ ws, (p, ws) ∈ history ∧ ∃ x ∈ ws, insertsEvent transactionId x = true

/-- What a webhook does beyond its dedupe row. -/
def Write.beyondDedupe (x : Write) : Prop := x.table ≠ .webhookEvents

/-- The effects of a payment that a webhook reports. -/
inductive Effect where
  | charge
  | session
  | payment
  | placed

def Effect.of : Effect → Write → Bool
  | .charge, .insertTransaction _ => true
  | .session, .setSessionStatus .. => true
  | .payment, .insertOutbox row =>
    row.eventType = .paymentCompleted || row.eventType = .paymentFailed
  | .placed, .insertOutbox row => row.eventType = .orderPlaced
  | _, _ => false

/-- How often the commits contain the effect. -/
def committedEffects (k : Effect) (history : List (Pid × List Write)) : Nat :=
  (history.flatMap Prod.snd).countP k.of

/-- Only the call that committed the dedupe row has ever a transaction open or an effect
committed, there is one such call, and each effect is committed once. -/
structure AppliedAtMostOnce (transactionId : String) (w : World) : Prop where
  engaged : ∀ p, w.Engaged Write.beyondDedupe p → Inserted transactionId p w.store.history
  one : ∀ p q, Inserted transactionId p w.store.history →
    Inserted transactionId q w.store.history → p = q
  once : ∀ k, committedEffects k w.store.history ≤ 1

end Statement

section Dedupe
variable {transactionId : String} {db : Db} {history : List (Pid × List Write)}

def Db.hasEvent (db : Db) (transactionId : String) : Bool :=
  db.webhookEvents.any fun e =>
    e.providerId = kashierProviderId && e.providerEventId = transactionId

/-- The dedupe row was committed once at most, and when it was, it is there. -/
def DedupedOnce (transactionId : String) (db : Db) (history : List (Pid × List Write)) : Prop :=
  (history.filter fun b => b.2.any (insertsEvent transactionId)).length ≤ 1 ∧
    ((history.any fun b => b.2.any (insertsEvent transactionId)) = true →
      db.hasEvent transactionId = true)

theorem hasEvent_apply (x : Write) (h : db.hasEvent transactionId = true) :
    (engine.apply x db).hasEvent transactionId = true := by
  cases x with
  | insertWebhookEvent row =>
    change (db.webhookEvents ++ [row]).any _ = true
    rw [List.any_append, Bool.or_eq_true]
    exact .inl h
  | setWebhookEvent id processedAt processError =>
    change (db.webhookEvents.map _).any _ = true
    rw [List.any_map]
    obtain ⟨e, he, hkey⟩ := List.any_eq_true.mp h
    refine List.any_eq_true.mpr ⟨e, he, ?_⟩
    simp only [Function.comp_apply]
    split <;> exact hkey
  | _ => exact h

theorem hasEvent_applyAll (ws : List Write) (h : db.hasEvent transactionId = true) :
    (engine.applyAll ws db).hasEvent transactionId = true := by
  induction ws generalizing db with
  | nil => exact h
  | cons x ws ih =>
    rw [applyAll_cons]
    exact ih (hasEvent_apply x h)

theorem dedupedOnce_keptBy (transactionId : String) (p : Pid) :
    KeptBy (DedupedOnce transactionId) p fun x => insertsEvent transactionId x = false := by
  intro db history log h hlog
  have hnone : log.any (insertsEvent transactionId) = false := by
    rw [List.any_eq_false]
    intro x hx
    rw [hlog x hx]
    exact Bool.false_ne_true
  refine ⟨?_, fun hany => hasEvent_applyAll log (h.2 ?_)⟩
  · rw [List.filter_append, List.filter_cons_of_neg (by simp [hnone]), List.filter_nil,
      List.append_nil]
    exact h.1
  · simpa [hnone] using hany

/-- A row that the index let in is the first of its key. -/
theorem dedupedOnce_insert {p : Pid} {row : PaymentWebhookEventEntity}
    (h : DedupedOnce transactionId db history) (hnew : db.hasEvent transactionId = false)
    (hrow : insertsEvent transactionId (.insertWebhookEvent row) = true) :
    DedupedOnce transactionId (engine.apply (.insertWebhookEvent row) db)
      (history ++ [(p, [.insertWebhookEvent row])]) := by
  have hbefore : (history.any fun b => b.2.any (insertsEvent transactionId)) = false := by
    rw [Bool.eq_false_iff]
    intro hany
    rw [h.2 hany] at hnew
    cases hnew
  have hnone : history.filter (fun b => b.2.any (insertsEvent transactionId)) = [] := by
    apply List.filter_eq_nil_iff.mpr
    intro b hb
    rw [List.any_eq_false] at hbefore
    exact hbefore b hb
  refine ⟨?_, fun _ => ?_⟩
  · rw [List.filter_append, hnone, List.nil_append]
    exact List.length_filter_le _ _
  · change (db.webhookEvents ++ [row]).any _ = true
    rw [List.any_append, Bool.or_eq_true]
    refine .inr ?_
    rw [List.any_cons, Bool.or_eq_true]
    exact .inl hrow

theorem inserted_remains (transactionId : String) : Remains (Inserted transactionId) := by
  rintro q history bs ⟨ws, hws, hx⟩
  exact ⟨ws, List.mem_append_left _ hws, hx⟩

/-- Two calls cannot both have committed it. -/
theorem inserted_unique (h : DedupedOnce transactionId db history) {p q : Pid}
    (hp : Inserted transactionId p history) (hq : Inserted transactionId q history) : p = q := by
  have hmem : ∀ r, Inserted transactionId r history → ∃ ws, (r, ws) ∈
      history.filter fun b => b.2.any (insertsEvent transactionId) := by
    rintro r ⟨ws, hws, x, hx, hins⟩
    exact ⟨ws, List.mem_filter.mpr ⟨hws, List.any_eq_true.mpr ⟨x, hx, hins⟩⟩⟩
  obtain ⟨ws, hws⟩ := hmem p hp
  obtain ⟨ws', hws'⟩ := hmem q hq
  have hlen := h.1
  generalize history.filter (fun b => b.2.any (insertsEvent transactionId)) = l at hws hws' hlen
  match l, hlen with
  | [b], _ =>
    rw [List.mem_singleton] at hws hws'
    exact congrArg Prod.fst (hws.trans hws'.symm)

end Dedupe

section Budget

def Effect.share : Effect → Effect → Nat
  | .charge, .charge => 1
  | .session, .session => 1
  | .payment, .payment => 1
  | .placed, .placed => 1
  | _, _ => 0

/-- The statements that can have the effect `k`. -/
def Effect.cost (k : Effect) : Op → Nat
  | .sql _ (.createTransaction ..) => k.share .charge
  | .sql _ (.updatePaymentSessionStatus ..) => k.share .session
  | .sql _ (.insertOutboxEvent input) =>
    if input.eventType = .paymentCompleted ∨ input.eventType = .paymentFailed then k.share .payment
    else if input.eventType = .orderPlaced then k.share .placed
    else 0
  | _ => 0

theorem share_total (k : Effect) :
    k.share .session + k.share .charge + k.share .payment + k.share .placed = 1 := by
  cases k <;> rfl

theorem countP_eq_zero_of_mayWrite {kind : Write → Bool} {q : Sql} {seqs : Seqs} {clock : Time}
    {db : Db} (h : ∀ x, q.MayWrite x → kind x = false) :
    (q.eval seqs clock db).writes.countP kind = 0 := by
  rw [List.countP_eq_zero]
  intro x hx
  rw [h x (Sql.mayWrite_of_mem hx)]
  exact Bool.false_ne_true

theorem effect_priced (k : Effect) : Prices k.cost k.of := by
  intro c q seqs clock db
  cases q with
  | createTransaction data now =>
    simp only [Sql.eval, Effect.cost]
    split <;> cases k <;> simp [reading, writing, Effect.of, Effect.share]
  | updatePaymentSessionStatus id status now =>
    simp only [Sql.eval, Effect.cost]
    split <;> cases k <;> simp [reading, writing, Effect.of, Effect.share]
  | insertOutboxEvent input =>
    simp only [Sql.eval, Effect.cost, writing, List.countP_singleton]
    cases k <;> cases hkind : input.eventType <;> simp [Effect.of, Effect.share, hkind]
  | _ =>
    refine (countP_eq_zero_of_mayWrite fun x hx => ?_).trans_le (Nat.zero_le _)
    cases x with
    | insertTransaction row | setSessionStatus id status now | insertOutbox row =>
      simp [Sql.MayWrite] at hx
    | _ => cases k <;> rfl

variable {k : Effect}

theorem spends_free {α : Type} {prog : Svc α}
    (h : prog.Calls (fun o => k.cost o = 0) (fun _ _ => True) fun _ => True) :
    prog.Spends k.cost 0 := h.spends fun _ _ => trivial

theorem free_outside {α : Type} {prog : Svc α}
    (h : prog.Calls (fun o => o.outer = true) (fun _ _ => True) fun _ => True) :
    prog.Spends k.cost 0 := by
  apply spends_free
  apply h.weaken
  intro o ho
  cases o with
  | sql c q => cases ho
  | _ => rfl

theorem spends_now : now.Spends k.cost 0 := Prog.spends_perform le_rfl

theorem spends_toEntity {α : Type} {row : Option α} : (toEntity row).Spends k.cost 0 :=
  spends_free (calls_toEntity fun _ _ => trivial)

theorem spends_sql {c : Conn} {q : Sql} : (sql c q).Spends k.cost (k.cost (.sql c q)) :=
  Prog.spends_perform le_rfl

theorem spends_pure {α : Type} {a : α} {n : Nat} : (pure a : Svc α).Spends k.cost n := trivial

theorem spends_updateSession {id : Nat} {status : PaymentSessionStatus} :
    (updatePaymentSessionStatus id status .trx).Spends k.cost (k.share .session) := by
  refine Prog.spends_after spends_now fun now => ?_
  exact Prog.spends_before spends_sql fun row => spends_toEntity

theorem spends_recordCharge {ctx : WebhookContext} {order : OrderEntity}
    {session : PaymentSessionEntity} {status : TransactionStatus} {dstAccId : Nat} :
    (recordCharge ctx order session status dstAccId).Spends k.cost (k.share .charge) := by
  refine Prog.spends_after spends_sql fun existingTx => ?_
  cases existingTx with
  | some t => trivial
  | none =>
    refine Prog.spends_before (Prog.spends_after spends_now fun now => ?_) fun _ => trivial
    exact Prog.spends_before spends_sql fun row => spends_toEntity

/-- The outbox row of a payment. -/
theorem spends_paymentEvent {ctx : WebhookContext} {order : OrderEntity}
    {session : PaymentSessionEntity} {eventType : EventType} {occurredAt : Time}
    (htype : eventType = .paymentCompleted ∨ eventType = .paymentFailed) :
    (insertOutboxEvent .trx (paymentEvent ctx order session eventType occurredAt)).Spends k.cost
      (k.share .payment) := by
  refine Prog.spends_perform ?_
  change (if eventType = .paymentCompleted ∨ eventType = .paymentFailed then _ else _) ≤ _
  rw [if_pos htype]

theorem spends_placePaidOrder {order : OrderEntity} :
    (placePaidOrder order).Spends k.cost (k.share .placed) := by
  unfold placePaidOrder
  split_ifs
  · refine Prog.spends_after ?_ fun placed => ?_
    · refine Prog.spends_after spends_now fun now => ?_
      exact Prog.spends_before spends_sql fun row => spends_toEntity
    refine Prog.spends_after ?_ fun items => Prog.spends_before spends_sql fun _ => spends_pure
    unfold findItemsByOrderIds
    split_ifs
    · exact spends_pure
    · exact spends_sql
  · trivial

theorem spends_applySuccess {ctx : WebhookContext} {order : OrderEntity}
    {session : PaymentSessionEntity} : (applySuccess ctx order session).Spends k.cost
      (k.share .session + (k.share .charge + (k.share .payment + k.share .placed))) := by
  refine Prog.spends_do spends_updateSession fun _ => ?_
  refine Prog.spends_after (free_outside (calls_fetchRestaurantOwner rfl)) fun owner => ?_
  refine Prog.spends_do spends_recordCharge fun _ => Prog.spends_after spends_now fun t => ?_
  exact Prog.spends_do (spends_paymentEvent (.inl rfl)) fun _ => spends_placePaidOrder

theorem spends_applyFailure {ctx : WebhookContext} {order : OrderEntity}
    {session : PaymentSessionEntity} : (applyFailure ctx order session).Spends k.cost
      (k.share .session + (k.share .charge + k.share .payment)) := by
  refine Prog.spends_do spends_updateSession fun _ => ?_
  refine Prog.spends_do spends_recordCharge fun _ => Prog.spends_after spends_now fun t => ?_
  exact Prog.spends_before (spends_paymentEvent (.inr rfl)) fun _ => trivial

/-- Whatever a webhook reports, it has each effect once. -/
theorem spends_applyEvent {event : Json} {ctx : WebhookContext} {order : OrderEntity}
    {session : PaymentSessionEntity} : (applyEvent event ctx order session).Spends k.cost 1 := by
  have htotal := share_total k
  unfold applyEvent
  split_ifs
  · exact spends_applySuccess.mono (by omega)
  · exact spends_applyFailure.mono (by omega)
  · trivial

theorem spends_processWebhook {event : Json} {ctx : WebhookContext} {insertedId : Nat} :
    (processWebhook event ctx insertedId).Spends k.cost 1 := by
  refine Prog.spends_after ?_ fun found => ?_
  · unfold findReferencedOrder
    split
    · exact spends_sql
    · trivial
    · trivial
  cases found with
  | none => trivial
  | some order =>
    refine Prog.spends_after spends_sql fun session => ?_
    cases session with
    | none => trivial
    | some session =>
      refine Prog.spends_before spends_applyEvent fun broadcast => ?_
      refine Prog.spends_after spends_now fun t => Prog.spends_after spends_sql fun _ => ?_
      exact Prog.spends_after (Prog.spends_perform le_rfl) fun _ => free_outside calls_announcePlaced

theorem spends_webhook (hmacSha256 : String → String → String) (cfg : Config)
    (rawBody : Option Json) (signature region : String) :
    (verifyAndProcessWebhook hmacSha256 cfg rawBody signature region).Spends k.cost 1 := by
  unfold verifyAndProcessWebhook
  split
  · trivial
  split_ifs
  · trivial
  · trivial
  refine Prog.spends_after spends_sql fun provider => ?_
  cases provider with
  | none => trivial
  | some provider =>
    dsimp only
    split_ifs
    · trivial
    refine Prog.spends_after Prog.spends_ofExcept fun isValid => ?_
    split_ifs
    · trivial
    refine Prog.spends_after Prog.spends_ofExcept fun transactionId => ?_
    refine Prog.spends_after (Prog.spends_after spends_now fun t => spends_sql) fun inserted => ?_
    cases inserted with
    | none => trivial
    | some insertedEvent =>
      refine Prog.spends_after (Prog.spends_perform le_rfl) fun _ => ?_
      refine Prog.spends_catch (n := 1) (m := 0) spends_processWebhook fun error => ?_
      refine Prog.spends_after (Prog.spends_perform le_rfl) fun _ => ?_
      refine Prog.spends_after spends_now fun t => Prog.spends_after spends_sql fun _ => trivial

end Budget

section Rules
variable {ok : Pid → Op → Env → World → Prop} {p : Pid} {w : World} {transactionId : String}

/-- What holds while webhooks with one transaction id run. -/
abbrev onceSpec (transactionId : String) : Spec Pid World :=
  ownedSpec (DedupedOnce transactionId) Write.beyondDedupe (Inserted transactionId)

theorem still_of_read {q : Sql} (hread : ∀ seqs clock db, (q.eval seqs clock db).writes = [])
    {e : Env} {v v' : World} {r : Except Err q.Res} (hx : exec p (.sql .pool q) e v = some (r, v')) :
    v'.store = v.store := by
  rcases exec_sql_cases hx with rfl | ⟨_, rfl⟩ | ⟨hc, _⟩
  · rfl
  · exact World.pooled_store (hread v.seqs v.clock _)
  · cases hc

/-- The dedupe insert: the index lets it in once, and then the call has committed the row. -/
theorem wp_dedupe {data : WebhookEventData} {receivedAt : Time}
    (hprovider : data.providerId = kashierProviderId) (hevent : data.providerEventId = transactionId)
    {P : Option PaymentWebhookEventEntity → World → Prop} (hnone : ∀ v, P none v)
    (hsome : ∀ row v, Inserted transactionId p v.store.history → v.log p = w.log p →
      P (some row) v) :
    wp machine ok (onceSpec transactionId) p (sql .pool (.insertWebhookEvent data receivedAt))
      (OnOk P) w := by
  apply wp_perform
  intro v hr hi e r v' _ hx
  rw [machine_exec] at hx
  have hguarantee : ∀ q, q ≠ p → (onceSpec transactionId).rely q v v' := fun q hqp =>
    (sharedSpec_isolated _ p).guarantee _ e v r v' hi.1 hx q hqp
  by_cases hf : e.fail = true
  · simp only [exec, hf, if_true, Option.some.injEq, Prod.mk.injEq] at hx
    obtain ⟨rfl, rfl⟩ := hx
    exact ⟨hi, hguarantee, trivial⟩
  obtain ⟨rfl, rfl, _⟩ := exec_pool (Bool.eq_false_iff.mpr hf) hx
  by_cases htaken : (v.store.db.webhookEvents.any fun e =>
      e.providerId = data.providerId && e.providerEventId = data.providerEventId) = true
  · -- The event is there: nothing is written.
    have hanswer : v.onPool (.insertWebhookEvent data receivedAt) = reading none := by
      simp only [World.onPool, Sql.eval, htaken, if_true]
    have hstore := World.pooled_store (p := p) (q := .insertWebhookEvent data receivedAt)
      (w := v) (by rw [hanswer]; rfl)
    refine ⟨owned_of_store hstore hi, hguarantee, ?_⟩
    rw [hanswer]
    exact hnone _
  · obtain ⟨row, hrow, hanswer⟩ : ∃ row : PaymentWebhookEventEntity,
        insertsEvent transactionId (.insertWebhookEvent row) = true ∧
        v.onPool (.insertWebhookEvent data receivedAt)
          = writing (some row) [.insertWebhookEvent row] := by
      refine ⟨{ data with
        id := v.seqs.webhookEvents, receivedAt := receivedAt, processedAt := none
        processError := none }, ?_, ?_⟩
      · simp [insertsEvent, hprovider, hevent]
      · simp only [World.onPool, Sql.eval, htaken, Bool.false_eq_true, if_false]
    have hnew : v.store.db.hasEvent transactionId = false := by
      rw [hprovider, hevent] at htaken
      exact Bool.eq_false_iff.mpr htaken
    have hhistory : (v.pooled p (.insertWebhookEvent data receivedAt)).store.history
        = v.store.history ++ [(p, [.insertWebhookEvent row])] := by
      simp only [World.pooled, hanswer]
      rfl
    have hdb : (v.pooled p (.insertWebhookEvent data receivedAt)).store.db
        = engine.apply (.insertWebhookEvent row) v.store.db := by
      simp only [World.pooled, hanswer]
      rfl
    refine ⟨⟨⟨⟨hi.1.1.log_locked, hi.1.1.exclusive⟩, ?_⟩, fun q hq => ?_⟩, hguarantee, ?_⟩
    · rw [hdb, hhistory]
      exact dedupedOnce_insert hi.1.2 hnew hrow
    · rw [hhistory]
      apply inserted_remains
      apply hi.2 q
      rcases hq with hq | ⟨ws, hws, x, hx, hcount⟩
      · exact .inl hq
      · rw [hhistory, List.mem_append, List.mem_singleton] at hws
        rcases hws with hws | hws
        · exact .inr ⟨ws, hws, x, hx, hcount⟩
        · -- The dedupe row itself does not count.
          obtain ⟨rfl, rfl⟩ := Prod.mk.inj hws
          rw [List.mem_singleton] at hx
          rw [hx] at hcount
          exact absurd rfl hcount
    · rw [hanswer]
      refine hsome row _ ⟨[.insertWebhookEvent row], ?_, _, List.mem_singleton_self _, hrow⟩ ?_
      · rw [hhistory]
        exact List.mem_append_right _ (List.mem_singleton_self _)
      · rw [World.log, World.log, ← hr.1.txn]
        rfl

theorem processes_noInsert (transactionId : String) :
    Processes fun x => insertsEvent transactionId x = false :=
  ⟨fun _ _ _ => rfl, fun _ _ _ => rfl, fun _ _ => rfl, fun _ _ => rfl, fun _ _ => rfl⟩

theorem wp_receive_owned {event : Json} {ctx : WebhookContext} (hlog : w.log p = []) :
    wp machine ok (onceSpec ctx.transactionId) p
      (receiveWebhook event ctx ctx.transactionId) (OnOk fun _ _ => True) w := by
  apply wp_seq
  apply wp_seq
  apply wp_owned_still
  · exact fun e v r v' hx => (exec_outer rfl hx).1
  rintro e v (err | receivedAt) v' hr hx hstore
  · trivial
  have hlog' : v'.log p = [] := by
    rw [World.log, hstore, hr.1.txn]
    exact hlog
  dsimp only [OnOk]
  apply wp_dedupe
  · rfl
  · rfl
  · exact fun _ => trivial
  intro row v₁ howned hlog₁
  apply wp_mono _ (wp_owner (inserted_remains _) (dedupedOnce_keptBy _ p)
    (within_processing (processes_noInsert _)) ?_ howned)
  · rintro (err | a) v₂ _ <;> trivial
  · intro x hx
    rw [hlog₁, hlog'] at hx
    cases hx

theorem wp_webhook_owned {hmacSha256 : String → String → String} {cfg : Config}
    {rawBody : Option Json} {signature region : String}
    (hcarried : ∀ id, carriedId rawBody = some id → id = transactionId) (hlog : w.log p = []) :
    wp machine ok (onceSpec transactionId) p
      (verifyAndProcessWebhook hmacSha256 cfg rawBody signature region)
      (OnOk fun _ _ => True) w := by
  unfold verifyAndProcessWebhook
  split
  · trivial
  next envelope henvelope =>
  split_ifs
  · trivial
  · trivial
  apply wp_seq
  apply wp_owned_still
  · exact fun e v r v' hx => still_of_read (fun _ _ _ => rfl) hx
  rintro e v (err | provider) v' hr hx hstore
  · trivial
  have hlog' : v'.log p = [] := by
    rw [World.log, hstore, hr.1.txn]
    exact hlog
  cases provider with
  | none => trivial
  | some provider =>
    dsimp only [OnOk]
    split_ifs
    · trivial
    apply wp_seq
    apply wp_fromExcept
    intro isValid _
    split_ifs
    · trivial
    apply wp_seq
    apply wp_fromExcept
    intro id hid
    have hsame : id = transactionId := by
      apply hcarried
      simp only [carriedId, henvelope, hid]
      rfl
    subst hsame
    have howned : ∀ ctx : WebhookContext, wp machine ok (onceSpec ctx.transactionId) p
        (receiveWebhook envelope.event ctx ctx.transactionId) (OnOk fun _ _ => True) _ :=
      fun ctx => wp_receive_owned hlog'
    exact howned ⟨region, signature, envelope.data, id, provider⟩

end Rules

section Runs

theorem beyondDedupe_of_effect {k : Effect} {x : Write} (h : k.of x = true) : x.beyondDedupe := by
  cases x with
  | insertWebhookEvent row | setWebhookEvent id processedAt processError => cases k <;> cases h
  | _ =>
    intro htable
    cases htable

/-- When one call has all the effects, they are among its own commits. -/
theorem committedEffects_of_owner {k : Effect} {p : Pid} {history : List (Pid × List Write)}
    (h : ∀ b ∈ history, ∀ x ∈ b.2, k.of x = true → b.1 = p) :
    committedEffects k history = (batchesOf p history).countP k.of := by
  induction history with
  | nil => rfl
  | cons b history ih =>
    have hrest := ih fun b' hb' => h b' (List.mem_cons_of_mem b hb')
    have hfirst := h b List.mem_cons_self
    simp only [committedEffects, List.flatMap_cons, List.countP_append] at hrest ⊢
    rw [hrest, batchesOf, batchesOf]
    by_cases hb : b.1 = p
    · rw [List.filter_cons_of_pos (by simpa using hb), List.flatMap_cons, List.countP_append]
    · rw [List.filter_cons_of_neg (by simpa using hb)]
      have hnone : b.2.countP k.of = 0 := by
        rw [List.countP_eq_zero]
        exact fun x hx hof => hb (hfirst x hx hof)
      omega

variable (hmacSha256 : String → String → String) (cfg : Config)

/-- In every interleaving of webhooks that carry the same transaction id, with any failures and
deaths: one of them at most has a transaction or an effect, and each effect at most once. -/
theorem webhook_applied_at_most_once (w : World) (hw : w.AtRest) (transactionId : String)
    (calls : Pid → Option Call)
    (hcalls : ∀ p c, calls p = some c → ∃ rawBody signature region,
      c = .webhook rawBody signature region ∧
        ∀ id, carriedId rawBody = some id → id = transactionId)
    {t : Sys Pid Op Op.Res Err World Reply}
    (h : machine.Reaches anyOp (running hmacSha256 cfg calls w) t) :
    AppliedAtMostOnce transactionId t.world := by
  have hwp : ∀ p prog, (running hmacSha256 cfg calls w).procs p = some prog →
      wp machine anyOp (onceSpec transactionId) p prog (OnOk fun _ _ => True) w := by
    intro p prog hprog
    obtain ⟨c, hc, rfl⟩ := Option.map_eq_some_iff.mp hprog
    obtain ⟨rawBody, signature, region, rfl, hcarried⟩ := hcalls p c hc
    apply wp_seq
    apply wp_mono _ (wp_webhook_owned hcarried (by rw [World.log, hw.txn p]; rfl))
    rintro (err | a) w' _ <;> trivial
  have hstable : ∀ p : Pid, (onceSpec transactionId).Stable p
      (OnOk (ε := Err) (α := Reply) fun _ _ => True) := by
    rintro p (err | a) v v' _ _ _ <;> trivial
  have hinit : (onceSpec transactionId).inv w := by
    refine ⟨⟨hw.locked, ?_⟩, ?_⟩
    · rw [hw.history]
      exact ⟨Nat.zero_le 1, fun hany => by cases hany⟩
    · rintro q (⟨log, hlog⟩ | ⟨ws, hws, _⟩)
      · rw [hw.txn q] at hlog
        cases hlog
      · rw [hw.history] at hws
        cases hws
  have hsound := sound_reaches ownedSpec_fits hstable ⟨hinit, hwp⟩ h
  have hengaged := hsound.1.2
  have hone : ∀ p q, Inserted transactionId p t.world.store.history →
      Inserted transactionId q t.world.store.history → p = q :=
    fun p q hp hq => inserted_unique hsound.1.1.2 hp hq
  refine ⟨hengaged, hone, fun k => ?_⟩
  have hspends : ∀ p prog, (running hmacSha256 cfg calls w).procs p = some prog →
      prog.Spends k.cost 1 := by
    intro p prog hprog
    obtain ⟨c, hc, rfl⟩ := Option.map_eq_some_iff.mp hprog
    obtain ⟨rawBody, signature, region, rfl, _⟩ := hcalls p c hc
    exact Prog.spends_before (spends_webhook hmacSha256 cfg rawBody signature region)
      fun _ => trivial
  have hmade := made_le_of_spends (effect_priced k) hw hspends h
  by_cases hany : ∃ b ∈ t.world.store.history, ∃ x ∈ b.2, k.of x = true
  · obtain ⟨b, hb, x, hx, hof⟩ := hany
    have hinserted : ∀ b' ∈ t.world.store.history, ∀ y ∈ b'.2, k.of y = true →
        Inserted transactionId b'.1 t.world.store.history := by
      intro b' hb' y hy hof'
      exact hengaged b'.1 (.inr ⟨b'.2, hb', y, hy, beyondDedupe_of_effect hof'⟩)
    have howner : ∀ b' ∈ t.world.store.history, ∀ y ∈ b'.2, k.of y = true → b'.1 = b.1 :=
      fun b' hb' y hy hof' => hone _ _ (hinserted b' hb' y hy hof') (hinserted b hb x hx hof)
    rw [committedEffects_of_owner howner]
    have hwithin := hmade b.1
    rw [World.made] at hwithin
    omega
  · have hzero : committedEffects k t.world.store.history = 0 := by
      rw [committedEffects, List.countP_eq_zero]
      intro x hx hof
      obtain ⟨b, hb, hxb⟩ := List.mem_flatMap.mp hx
      exact hany ⟨b, hb, x, hxb, hof⟩
    omega

end Runs

/-- Two reports of one transaction, of which the second says that it failed. -/
def twoReports : Pid → Option Call
  | 0 => some (.webhook (some (payBody "SUCCESS")) (paySignature "SUCCESS") "eg")
  | 1 => some (.webhook (some (payBody "FAILED")) (paySignature "FAILED") "eg")
  | _ => none

/-- Both look the provider up before the first inserts its dedupe row. -/
def reportsTogether : List (Label Pid Env Ext) :=
  [.act 0 {}, .act 1 {}, .act 0 {}, .act 1 {}, .act 0 {}, .act 1 {}] ++
    List.replicate 21 (.act 0 {})

theorem webhook_applied_at_most_once_together :
    ∃ t, machine.run (fun _ _ _ _ => true) reportsTogether
        (running sampleHmac sampleConfig twoReports awaitingPayment) = some t ∧
      committedEffects .charge t.world.store.history = 1 ∧
      AppliedAtMostOnce "T1" t.world := by
  have hrun : ((machine.run (fun _ _ _ _ => true) reportsTogether
      (running sampleHmac sampleConfig twoReports awaitingPayment)).any fun t =>
        committedEffects .charge t.world.store.history = 1) = true := by
    decide +kernel
  obtain ⟨t, ht, hcharge⟩ := (Option.any_eq_true _ _).mp hrun
  have hcalls : ∀ p c, twoReports p = some c → ∃ rawBody signature region,
      c = .webhook rawBody signature region ∧ ∀ id, carriedId rawBody = some id → id = "T1" := by
    intro p c hc
    unfold twoReports at hc
    split at hc
    · cases hc
      exact ⟨_, _, _, rfl, fun id hid => (Option.some.inj hid).symm⟩
    · cases hc
      exact ⟨_, _, _, rfl, fun id hid => (Option.some.inj hid).symm⟩
    · cases hc
  exact ⟨t, ht, of_decide_eq_true hcharge, webhook_applied_at_most_once sampleHmac sampleConfig
    awaitingPayment ⟨rfl, fun _ => rfl, rfl⟩ "T1" twoReports hcalls
    (Machine.reaches_of_run (fun _ _ _ _ _ => trivial) _ ht)⟩

end OrderService
