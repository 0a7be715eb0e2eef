import OrderService.CallEffects
import OrderService.Interleaving.Complete
import OrderService.Rows
import OrderService.Services.RefundAmount
import Mathlib.Tactic.NormNum

/-! Whether a refund that the provider has made is recorded: the money moves before the row is
written, and the column does not take every amount of the request. -/
namespace OrderService
open ReadCommitted Interleaving

section Statement

/-- A charge that can be refunded, and the amount is not above it. -/
structure Refundable (tx : TransactionEntity) (request : RefundRequest) (w : World) : Prop where
  found : w.store.db.transactions.find? (fun t => t.id = tx.id) = some tx
  id_pos : 0 < tx.id
  charge : tx.transactionType = .charge
  succeeded : tx.status = .succeeded
  notRefunded : tx.isRefunded = false
  covered : request.amount ≤ tx.amount

/-- The statements before the provider is asked: the start of the transaction, the charge, and its
order if it has one. -/
def stepsBefore (tx : TransactionEntity) : Nat := if orNull tx.orderId = none then 2 else 3

/-- What the provider's `refund` reports in the run with these answers. -/
def Reported (decimal : Rat → Int) (cfg : Config) (tx : TransactionEntity)
    (request : RefundRequest) (p : Pid) (es : List Env) (result : RefundResult) : Prop :=
  ∃ before attempts after w₁ w₂, es = before ++ (attempts ++ after) ∧
    before.length = stepsBefore tx ∧
    machine.complete p (kashierRefund cfg (request.params decimal tx)) attempts w₁
      = some (.ok result, w₂)

/-- The row of the refund. -/
structure RefundOf (tx : TransactionEntity) (request : RefundRequest) (region : String)
    (row : TransactionEntity) : Prop where
  refund : row.transactionType = .refund
  amount : (row.amount : Rat) = request.amount
  linked : row.refundedPaymentId = some tx.id
  region : row.region = region
  succeeded : row.status = .succeeded

/-- After success one commit marks the charge and adds one row for the refund, and there is no
other; after failure nothing is committed. -/
def RefundRecorded (tx : TransactionEntity) (request : RefundRequest) (region : String) (p : Pid)
    (success : Bool) (w w' : World) : Prop :=
  if success then
    ∃ now row, RefundOf tx request region row ∧
      w'.store.history
        = w.store.history ++ [(p, [.markRefunded tx.id now, .insertTransaction row])] ∧
      w'.store.db
        = engine.applyAll [.markRefunded tx.id now, .insertTransaction row] w.store.db
  else w'.store.history = w.store.history ∧ w'.store.db = w.store.db

end Statement

section Steps
variable {p : Pid} {w₀ w w' : World} {log : List Write} {es : List Env}

/-- The transaction of `p` holds `log`, and nothing has been committed since `w₀`. -/
structure Pending (p : Pid) (w₀ : World) (log : List Write) (w : World) : Prop where
  db : w.store.db = w₀.store.db
  history : w.store.history = w₀.store.history
  txn : w.store.txn p = .active log

theorem Pending.log_eq (h : Pending p w₀ log w) : w.log p = log := World.log_of_active h.txn

theorem Pending.view (h : Pending p w₀ log w) :
    w.view p = engine.applyAll log w₀.store.db := by
  rw [World.view_eq, h.log_eq, h.db]

theorem Pending.queried (h : Pending p w₀ log w) (q : Sql) :
    Pending p w₀ (log ++ (w.inTrx p q).writes) (w.queried p q) where
  db := h.db
  history := h.history
  txn := World.queried_txn_of_log h.txn

theorem Pending.outer (h : Pending p w₀ log w) (hstore : w'.store = w.store) :
    Pending p w₀ log w' where
  db := by rw [hstore, h.db]
  history := by rw [hstore, h.history]
  txn := by rw [hstore, h.txn]

/-- A statement of the open transaction that does not fail. -/
theorem complete_trx (h : Pending p w₀ log w) {q : Sql} {s : Except Err q.Res}
    (hok : ∀ e ∈ es, e.fail = false)
    (hrun : machine.complete p (sql .trx q) es w = some (s, w')) :
    es.length = 1 ∧ s = (w.inTrx p q).reply ∧ w' = w.queried p q := by
  obtain ⟨e, rfl, hx⟩ := complete_perform hrun
  have hfail : e.fail = false := hok e List.mem_cons_self
  obtain ⟨hs, hw'⟩ := exec_trx h.txn hfail hx
  exact ⟨rfl, hs, hw'⟩

theorem complete_now {s : Except Err Time} (hrun : machine.complete p now es w = some (s, w')) :
    s = .ok w.clock ∧ w' = w := by
  obtain ⟨e, rfl, hx⟩ := complete_perform hrun
  have heq := Prod.mk.inj (Option.some.inj hx)
  exact ⟨heq.1.symm, heq.2.symm⟩

theorem complete_commit (h : Pending p w₀ log w) {s : Except Err Unit}
    (hok : ∀ e ∈ es, e.fail = false)
    (hrun : machine.complete p commit es w = some (s, w')) :
    s = .ok () ∧ w'.store.history = w₀.store.history ++ [(p, log)] ∧
      w'.store.db = engine.applyAll log w₀.store.db := by
  obtain ⟨e, rfl, hx⟩ := complete_perform hrun
  have hfail : e.fail = false := hok e List.mem_cons_self
  rw [machine_exec] at hx
  simp only [exec, hfail, Bool.false_eq_true, if_false, World.commit_eq h.txn] at hx
  have heq := Prod.mk.inj (Option.some.inj hx)
  refine ⟨heq.1.symm, ?_, ?_⟩
  · rw [← heq.2]
    change w.store.history ++ [(p, w.log p)] = _
    rw [h.history, h.log_eq]
  · rw [← heq.2]
    change engine.applyAll (w.log p) w.store.db = _
    rw [h.log_eq, h.db]

/-- The handler of `refundPayment`: nothing of the transaction is left, and the error goes on. -/
theorem complete_undo (h : Pending p w₀ log w) {α : Type} {err : Err} {s : Except Err α}
    (hrun : machine.complete p (do
      rollback
      throw err : Svc α) es w = some (s, w')) :
    w'.store.history = w₀.store.history ∧ w'.store.db = w₀.store.db := by
  rcases complete_do hrun with ⟨es₁, es₂, a, w₁, rfl, hundo, hthrow⟩ | ⟨err', -, hundo⟩
  · obtain ⟨e, rfl, hx⟩ := complete_perform hundo
    obtain ⟨-, -, rfl⟩ := complete_throw hthrow
    have heq := Prod.mk.inj (Option.some.inj hx)
    rw [← heq.2]
    exact ⟨h.history, h.db⟩
  · obtain ⟨e, rfl, hx⟩ := complete_perform hundo
    cases hx

end Steps

section Provider
variable {p : Pid} {w w' : World} {es : List Env} {cfg : Config} {params : RefundParams}

/-- The client catches what goes wrong, so it always reports. -/
theorem complete_kashierRefund {s : Except Err RefundResult}
    (hrun : machine.complete p (kashierRefund cfg params) es w = some (s, w')) :
    (∃ result, s = .ok result) ∧ w'.store = w.store := by
  refine ⟨?_, complete_keeps (F := fun v => v.store = w.store)
    (calls_kashierRefund (P := fun o => o.outer = true) rfl rfl)
    (fun _ _ _ _ _ _ _ => trivial)
    (fun o e v r v' ho hx hv => (exec_outer ho hx).1.trans hv) hrun rfl⟩
  unfold kashierRefund at hrun
  split_ifs at hrun with hmock
  · rcases complete_do hrun with ⟨es₁, es₂, a, w₁, -, -, hreport⟩ | ⟨err, -, hrandom⟩
    · obtain ⟨-, rfl, -⟩ := complete_pure hreport
      exact ⟨_, rfl⟩
    · obtain ⟨e, -, hx⟩ := complete_perform hrandom
      cases hx
  · rcases complete_catch hrun with ⟨a, rfl, -⟩ | ⟨es₁, es₂, err, w₁, -, -, hreport⟩
    · exact ⟨a, rfl⟩
    · obtain ⟨-, rfl, -⟩ := complete_pure hreport
      exact ⟨_, rfl⟩

end Provider

section Service
variable {p : Pid} {w₀ w w' : World} {log : List Write} {es : List Env} {tx : TransactionEntity}
  {request : RefundRequest} {region : String}

theorem complete_lookUpOrder (h : Pending p w₀ log w) (hok : ∀ e ∈ es, e.fail = false)
    {s : Except Err Unit} (hrun : machine.complete p (lookUpOrder tx) es w = some (s, w')) :
    s = .ok () ∧ Pending p w₀ log w' ∧ es.length + 2 = stepsBefore tx := by
  unfold lookUpOrder at hrun
  unfold stepsBefore
  cases hid : orNull tx.orderId with
  | none =>
    rw [hid] at hrun
    obtain ⟨rfl, rfl, rfl⟩ := complete_pure hrun
    exact ⟨rfl, h, rfl⟩
  | some orderId =>
    rw [hid] at hrun
    rcases complete_do hrun with ⟨es₁, es₂, a, w₁, rfl, hread, hrest⟩ | ⟨err, -, hread⟩
    · have hok₁ : ∀ e ∈ es₁, e.fail = false := fun e he => hok e (List.mem_append_left _ he)
      obtain ⟨hlength, -, rfl⟩ := complete_trx h hok₁ hread
      obtain ⟨rfl, rfl, rfl⟩ := complete_pure hrest
      have hreads := h.queried (.findOrderById orderId)
      rw [show (w.inTrx p (.findOrderById orderId)).writes = [] from rfl, List.append_nil] at hreads
      refine ⟨rfl, hreads, ?_⟩
      rw [List.append_nil, hlength]
      rfl
    · obtain ⟨-, hreply, -⟩ := complete_trx h hok hread
      cases hreply

theorem complete_mark (h : Pending p w₀ log w) (hok : ∀ e ∈ es, e.fail = false)
    {s : Except Err Unit}
    (hrun : machine.complete p (markTransactionAsRefunded tx.id .trx) es w = some (s, w')) :
    s = .ok () ∧ Pending p w₀ (log ++ [.markRefunded tx.id w.clock]) w' := by
  have hnow : ∀ err v, machine.complete p now es w ≠ some (.error err, v) := by
    intro err v hnow
    obtain ⟨hs, -⟩ := complete_now hnow
    cases hs
  obtain ⟨es₁, es₂, a, w₁, rfl, hclock, hmark⟩ := complete_do_ok hnow hrun
  obtain ⟨hs, rfl⟩ := complete_now hclock
  cases hs
  have hok₂ : ∀ e ∈ es₂, e.fail = false := fun e he => hok e (List.mem_append_right _ he)
  obtain ⟨-, rfl, rfl⟩ := complete_trx h hok₂ hmark
  exact ⟨rfl, h.queried (.markTransactionAsRefunded tx.id w₁.clock)⟩

/-- A whole amount goes into the column, any other is rejected. -/
theorem complete_insertRefund (h : Pending p w₀ log w) (hid : 0 < tx.id) {result : RefundResult}
    (hok : ∀ e ∈ es, e.fail = false) {s : Except Err TransactionEntity}
    (hrun : machine.complete p (request.insertRefund region tx result) es w = some (s, w')) :
    (request.amount.den = 1 ∧ ∃ row, RefundOf tx request region row ∧ s = .ok row ∧
        Pending p w₀ (log ++ [.insertTransaction row]) w') ∨
      (request.amount.den ≠ 1 ∧ s = .error .failed ∧ Pending p w₀ log w') := by
  have hnow : ∀ err v, machine.complete p now es w ≠ some (.error err, v) := by
    intro err v hnow
    obtain ⟨hs, -⟩ := complete_now hnow
    cases hs
  unfold RefundRequest.insertRefund at hrun
  by_cases hden : request.amount.den = 1
  · rw [if_pos hden] at hrun
    refine .inl ⟨hden, ?_⟩
    obtain ⟨es₁, es₂, a, w₁, rfl, hclock, hinsert⟩ := complete_do_ok hnow hrun
    obtain ⟨hs, rfl⟩ := complete_now hclock
    cases hs
    have hok₂ : ∀ e ∈ es₂, e.fail = false := fun e he => hok e (List.mem_append_right _ he)
    set data := refundData region tx result request.amount.num with hdata
    set row := data.toEntity w₁.seqs.transactions w₁.clock with hrow
    -- The refund carries no idempotency key, so it meets no other row.
    have hanswer : w₁.inTrx p (.createTransaction data w₁.clock)
        = writing (some row) [.insertTransaction row] := rfl
    have hrefund : RefundOf tx request region row := by
      refine ⟨rfl, ?_, ?_, rfl, rfl⟩
      · change ((request.amount.num : Int) : Rat) = request.amount
        exact Rat.coe_int_num_of_den_eq_one hden
      · change orNull (some tx.id) = some tx.id
        obtain ⟨n, hn⟩ := Nat.exists_eq_succ_of_ne_zero hid.ne'
        rw [hn]
        rfl
    have hstatement : ∀ {es s v}, (∀ e ∈ es, e.fail = false) →
        machine.complete p (sql .trx (.createTransaction data w₁.clock)) es w₁ = some (s, v) →
          s = .ok (some row) ∧ Pending p w₀ (log ++ [.insertTransaction row]) v := by
      intro es s v hes hstatement
      obtain ⟨-, rfl, rfl⟩ := complete_trx h hes hstatement
      refine ⟨by rw [hanswer]; rfl, ?_⟩
      have hqueried := h.queried (.createTransaction data w₁.clock)
      rw [hanswer] at hqueried
      exact hqueried
    have hreply : ∀ err v, machine.complete p (sql .trx (.createTransaction data w₁.clock)) es₂ w₁
        ≠ some (.error err, v) := by
      intro err v hstatement'
      obtain ⟨hs, -⟩ := hstatement hok₂ hstatement'
      cases hs
    obtain ⟨es₃, es₄, found, w₂, rfl, hsql, hdecode⟩ := complete_do_ok hreply hinsert
    obtain ⟨hs, hpending⟩ := hstatement
      (fun e he => hok₂ e (List.mem_append_left _ he)) hsql
    cases hs
    obtain ⟨-, rfl, rfl⟩ := complete_pure hdecode
    exact ⟨row, hrefund, rfl, hpending⟩
  · rw [if_neg hden] at hrun
    obtain ⟨es₁, es₂, a, w₁, rfl, hclock, hrejected⟩ := complete_do_ok hnow hrun
    obtain ⟨-, rfl⟩ := complete_now hclock
    obtain ⟨-, rfl, rfl⟩ := complete_throw hrejected
    exact .inr ⟨hden, rfl, h⟩

/-- Once the provider has refunded, the refund is committed, or it is not because the amount is no
integer. -/
theorem complete_recordRefund (h : Pending p w₀ [] w) (hid : 0 < tx.id) {result : RefundResult}
    (hok : ∀ e ∈ es, e.fail = false) {s : Except Err PaymentResponse}
    (hrun : machine.complete p (request.recordRefund region tx result) es w = some (s, w')) :
    (request.amount.den = 1 ∧ (∃ a, s = .ok a) ∧
        RefundRecorded tx request region p true w₀ w') ∨
      (request.amount.den ≠ 1 ∧ s = .error .failed ∧ ∃ log, Pending p w₀ log w') := by
  have hmark : ∀ err v, machine.complete p (markTransactionAsRefunded tx.id .trx) es w
      ≠ some (.error err, v) := by
    intro err v hmark
    obtain ⟨hs, -⟩ := complete_mark h hok hmark
    cases hs
  obtain ⟨es₁, es₂, a, w₁, rfl, hmarked, hrest⟩ := complete_do_ok hmark hrun
  obtain ⟨-, hpending⟩ := complete_mark h (fun e he => hok e (List.mem_append_left _ he)) hmarked
  rw [List.nil_append] at hpending
  have hok₂ : ∀ e ∈ es₂, e.fail = false := fun e he => hok e (List.mem_append_right _ he)
  rcases complete_do hrest with ⟨es₃, es₄, row, w₂, rfl, hinsert, hcommit⟩ | ⟨err, rfl, hinsert⟩
  · rcases complete_insertRefund hpending hid
      (fun e he => hok₂ e (List.mem_append_left _ he)) hinsert with
      ⟨hden, row', hrow, hs, hlog⟩ | ⟨-, hs, -⟩
    · cases hs
      have hok₄ : ∀ e ∈ es₄, e.fail = false := fun e he => hok₂ e (List.mem_append_right _ he)
      have hcommitted : ∀ err v, machine.complete p commit es₄ w₂ ≠ some (.error err, v) := by
        intro err v hcommitted
        obtain ⟨hs, -⟩ := complete_commit hlog hok₄ hcommitted
        cases hs
      obtain ⟨es₅, es₆, a, w₃, rfl, hdone, hreturn⟩ := complete_do_ok hcommitted hcommit
      obtain ⟨-, hhistory, hdb⟩ := complete_commit hlog
        (fun e he => hok₄ e (List.mem_append_left _ he)) hdone
      obtain ⟨-, rfl, rfl⟩ := complete_pure hreturn
      exact .inl ⟨hden, ⟨_, rfl⟩, w.clock, row, hrow, hhistory, hdb⟩
    · cases hs
  · rcases complete_insertRefund hpending hid hok₂ hinsert with
      ⟨-, row', -, hs, -⟩ | ⟨hden, hs, hlog⟩
    · cases hs
    · cases hs
      exact .inr ⟨hden, rfl, _, hlog⟩

theorem assertRefundable_ok {number : Rat → String} (h : Refundable tx request w) :
    request.assertRefundable number tx = .ok () := by
  have hcharge : ¬(tx.transactionType ≠ .charge ∨ tx.status ≠ .succeeded) := by
    rintro (hno | hno)
    · exact hno h.charge
    · exact hno h.succeeded
  have hcovered : ¬request.amount > tx.amount := not_lt_of_ge h.covered
  rw [RefundRequest.assertRefundable, if_neg hcharge, h.notRefunded, if_neg Bool.false_ne_true,
    if_neg hcovered]

/-- The provider is asked after the statements before it. What it reports is recorded, or the
transaction is left open with an error: the provider has failed, or the amount is no integer. -/
theorem complete_refundBody {decimal : Rat → Int} {number : Rat → String} {cfg : Config}
    (h : Refundable tx request w₀) (hpending : Pending p w₀ [] w) (hok : ∀ e ∈ es, e.fail = false)
    {s : Except Err PaymentResponse}
    (hrun : machine.complete p (request.refundBody decimal number cfg tx.id region) es w
      = some (s, w')) (start : Env) (rest : List Env) :
    ∃ result, Reported decimal cfg tx request p (start :: (es ++ rest)) result ∧
      ((request.amount.den = 1 ∧ result.success = true ∧ (∃ a, s = .ok a) ∧
          RefundRecorded tx request region p true w₀ w') ∨
        ((request.amount.den ≠ 1 ∨ result.success = false) ∧ (∃ err, s = .error err) ∧
          ∃ log, Pending p w₀ log w')) := by
  have hfind : ∀ {es s v}, (∀ e ∈ es, e.fail = false) →
      machine.complete p (findTransactionById tx.id .trx) es w = some (s, v) →
        es.length = 1 ∧ s = .ok (some tx) ∧ Pending p w₀ [] v := by
    intro es s v hes hfind
    obtain ⟨hlength, rfl, rfl⟩ := complete_trx hpending hes hfind
    refine ⟨hlength, ?_, hpending.queried (.findTransactionById tx.id)⟩
    change Except.ok ((w.view p).transactions.find? fun t => t.id = tx.id) = _
    rw [hpending.view, applyAll_nil, h.found]
  have hread : ∀ err v, machine.complete p (findTransactionById tx.id .trx) es w
      ≠ some (.error err, v) := by
    intro err v hread
    obtain ⟨-, hs, -⟩ := hfind hok hread
    cases hs
  obtain ⟨es₁, es₂, found, w₁, rfl, hfound, hbody⟩ := complete_do_ok hread hrun
  obtain ⟨hlength, hs, hpending₁⟩ := hfind (fun e he => hok e (List.mem_append_left _ he)) hfound
  cases hs
  have hok₂ : ∀ e ∈ es₂, e.fail = false := fun e he => hok e (List.mem_append_right _ he)
  dsimp only at hbody
  rw [assertRefundable_ok h] at hbody
  change machine.complete p (lookUpOrder tx >>= _) es₂ w₁ = _ at hbody
  have hlook : ∀ err v, machine.complete p (lookUpOrder tx) es₂ w₁ ≠ some (.error err, v) := by
    intro err v hlook
    obtain ⟨hs, -⟩ := complete_lookUpOrder hpending₁ hok₂ hlook
    cases hs
  obtain ⟨es₃, es₄, a, w₂, rfl, hlooked, hprovider⟩ := complete_do_ok hlook hbody
  obtain ⟨-, hpending₂, hsteps⟩ :=
    complete_lookUpOrder hpending₁ (fun e he => hok₂ e (List.mem_append_left _ he)) hlooked
  have hok₄ : ∀ e ∈ es₄, e.fail = false := fun e he => hok₂ e (List.mem_append_right _ he)
  have hreports : ∀ err v, machine.complete p (kashierRefund cfg (request.params decimal tx)) es₄ w₂
      ≠ some (.error err, v) := by
    intro err v hreports
    obtain ⟨⟨result, hs⟩, -⟩ := complete_kashierRefund hreports
    cases hs
  obtain ⟨es₅, es₆, result, w₃, rfl, hreported, hrecord⟩ := complete_do_ok hreports hprovider
  have hpending₃ := hpending₂.outer (complete_kashierRefund hreported).2
  have hok₆ : ∀ e ∈ es₆, e.fail = false := fun e he => hok₄ e (List.mem_append_right _ he)
  refine ⟨result, ⟨start :: (es₁ ++ es₃), es₅, es₆ ++ rest, w₂, w₃, ?_, ?_, hreported⟩, ?_⟩
  · simp only [List.cons_append, List.append_assoc]
  · rw [List.length_cons, List.length_append, hlength, ← hsteps]
    omega
  · cases hsuccess : result.success with
    | false =>
      simp only [hsuccess] at hrecord
      obtain ⟨-, rfl, rfl⟩ := complete_throw hrecord
      exact .inr ⟨.inr rfl, ⟨_, rfl⟩, _, hpending₃⟩
    | true =>
      simp only [hsuccess] at hrecord
      rcases complete_recordRefund hpending₃ h.id_pos hok₆ hrecord with
        ⟨hden, hreturned, hrecorded⟩ | ⟨hden, rfl, hlog⟩
      · exact .inl ⟨hden, rfl, hreturned, hrecorded⟩
      · exact .inr ⟨.inl hden, ⟨_, rfl⟩, hlog⟩

end Service

section Result

/-- In a complete run in which no statement fails: what the provider reports is recorded exactly if
the amount is a whole number, or it reports a failure. -/
theorem refund_recorded (decimal : Rat → Int) (number : Rat → String) (cfg : Config)
    (region : String) (tx : TransactionEntity) (request : RefundRequest) (w : World)
    (h : Refundable tx request w) (p : Pid) (es : List Env) (hok : ∀ e ∈ es, e.fail = false)
    (s : Except Err PaymentResponse) (w' : World)
    (hrun : machine.complete p (request.refundPayment decimal number cfg tx.id region) es w
      = some (s, w')) :
    ∃ result, Reported decimal cfg tx request p es result ∧
      (RefundRecorded tx request region p result.success w w' ↔
        request.amount.den = 1 ∨ result.success = false) := by
  have hbegin : ∀ {es s v}, (∀ e ∈ es, e.fail = false) →
      machine.complete p startTransaction es w = some (s, v) →
        (∃ e, es = [e]) ∧ s = .ok () ∧ Pending p w [] v := by
    intro es s v hes hbegin
    obtain ⟨e, rfl, hx⟩ := complete_perform hbegin
    have hfail : e.fail = false := hes e List.mem_cons_self
    rw [machine_exec] at hx
    simp only [exec, hfail, Bool.false_eq_true, if_false, Option.some.injEq, Prod.mk.injEq] at hx
    obtain ⟨rfl, rfl⟩ := hx
    exact ⟨⟨e, rfl⟩, rfl, rfl, rfl, World.start_txn w p⟩
  have hstart : ∀ err v, machine.complete p startTransaction es w ≠ some (.error err, v) := by
    intro err v hstart
    obtain ⟨-, hs, -⟩ := hbegin hok hstart
    cases hs
  obtain ⟨es₁, es₂, a, w₁, rfl, hstarted, hcaught⟩ := complete_do_ok hstart hrun
  obtain ⟨⟨start, rfl⟩, -, hpending⟩ :=
    hbegin (fun e he => hok e (List.mem_append_left _ he)) hstarted
  have hok₂ : ∀ e ∈ es₂, e.fail = false := fun e he => hok e (List.mem_append_right _ he)
  have hnothing : ∀ {success}, (request.amount.den ≠ 1 ∨ success = false) →
      w'.store.history = w.store.history ∧ w'.store.db = w.store.db →
      (RefundRecorded tx request region p success w w' ↔
        request.amount.den = 1 ∨ success = false) := by
    intro success hcause hsame
    cases success with
    | false => exact iff_of_true hsame (.inr rfl)
    | true =>
      have hden : request.amount.den ≠ 1 := hcause.resolve_right Bool.noConfusion
      refine iff_of_false (fun hrecorded => ?_) (fun hor => hden (hor.resolve_right Bool.noConfusion))
      -- The history has not grown.
      obtain ⟨now, row, -, hhistory, -⟩ := hrecorded
      rw [hsame.1] at hhistory
      have hlength := congrArg List.length hhistory
      rw [List.length_append, List.length_singleton] at hlength
      omega
  rcases complete_catch hcaught with ⟨a, rfl, hbody⟩ | ⟨es₃, es₄, err, w₂, rfl, hbody, hundo⟩
  · obtain ⟨result, hreported, hcase⟩ := complete_refundBody h hpending hok₂ hbody start []
    rw [List.append_nil] at hreported
    refine ⟨result, hreported, ?_⟩
    rcases hcase with ⟨hden, hsuccess, -, hrecorded⟩ | ⟨-, ⟨err, hs⟩, -⟩
    · rw [hsuccess]
      exact iff_of_true hrecorded (.inl hden)
    · cases hs
  · obtain ⟨result, hreported, hcase⟩ := complete_refundBody h hpending
      (fun e he => hok₂ e (List.mem_append_left _ he)) hbody start es₄
    refine ⟨result, hreported, ?_⟩
    rcases hcase with ⟨-, -, ⟨a, hs⟩, -⟩ | ⟨hcause, -, log, hlog⟩
    · cases hs
    · exact hnothing hcause (complete_undo hlog hundo)

/-- The charge of an order of 115.00 pounds. -/
def chargedOrder : TransactionEntity where
  region := "eg"
  orderId := some 1
  transactionType := .charge
  method := .online
  providerId := none
  providerReferenceId := some "charge-1"
  status := .succeeded
  amount := 11500
  currency := "EGP"
  srcAccId := some 3
  dstAccId := none
  id := 1
  createdAt := 0
  updatedAt := 0

def chargedShard : World :=
  { store := Store.ofDb
      { orders := [OrderEntity.sample "order-1" .cancelled], transactions := [chargedOrder] } }

/-- The nearest whole number, upwards from the middle. -/
def nearest (amount : Rat) : Int := (amount + 1 / 2).floor

theorem one_le_inFull : (1 : Rat) ≤ 11500 := by norm_num

theorem one_le_fraction : (1 : Rat) ≤ 3 / 2 := by norm_num

def inFull : RefundRequest := ⟨11500, one_le_inFull⟩

/-- One and a half minor units. -/
def fraction : RefundRequest := ⟨3 / 2, one_le_fraction⟩

theorem inFull_refundable : Refundable chargedOrder inFull chargedShard :=
  ⟨rfl, by decide, rfl, rfl, rfl, by norm_num [inFull, chargedOrder]⟩

theorem fraction_refundable : Refundable chargedOrder fraction chargedShard :=
  ⟨rfl, by decide, rfl, rfl, rfl, by norm_num [fraction, chargedOrder]⟩

def refundRun (request : RefundRequest) (answers : Nat) :
    Option (Except Err PaymentResponse × World) :=
  machine.complete 0 (request.refundPayment nearest (fun q => toString q.num) sampleConfig 1 "eg")
    (List.replicate answers {}) chargedShard

theorem refund_recorded_in_full :
    ∃ s w' result, refundRun inFull 9 = some (s, w') ∧
      Reported nearest sampleConfig chargedOrder inFull 0 (List.replicate 9 {}) result ∧
      (RefundRecorded chargedOrder inFull "eg" 0 result.success chargedShard w' ↔
        inFull.amount.den = 1 ∨ result.success = false) := by
  have hsome : (refundRun inFull 9).isSome = true := by decide +kernel
  obtain ⟨⟨s, w'⟩, hrun⟩ := Option.isSome_iff_exists.mp hsome
  have hes : ∀ e ∈ (List.replicate 9 {} : List Env), e.fail = false := fun e he => by
    rw [List.eq_of_mem_replicate he]
  obtain ⟨result, hreported, hiff⟩ := refund_recorded nearest (fun q => toString q.num)
    sampleConfig "eg" chargedOrder inFull chargedShard inFull_refundable 0 (List.replicate 9 {}) hes
    s w' hrun
  exact ⟨s, w', result, hrun, hreported, hiff⟩

/-- The provider has refunded one and a half minor units, and the tables know nothing of it. -/
theorem fraction_not_recorded :
    ∃ s w' result, refundRun fraction 8 = some (s, w') ∧
      Refundable chargedOrder fraction chargedShard ∧
      Reported nearest sampleConfig chargedOrder fraction 0 (List.replicate 8 {}) result ∧
      result.success = true ∧
      ¬RefundRecorded chargedOrder fraction "eg" 0 result.success chargedShard w' ∧
      w'.refunds.length = 1 := by
  have hend : (refundRun fraction 8).map (fun a => (a.2.store.history.length, a.2.refunds.length))
      = some (0, 1) := by decide +kernel
  obtain ⟨⟨s, w'⟩, hrun, heq⟩ := Option.map_eq_some_iff.mp hend
  obtain ⟨hhistory, hrefunds⟩ := Prod.mk.inj heq
  refine ⟨s, w', ⟨true, "", .obj [("status", .str "SUCCESS")]⟩, hrun, fraction_refundable, ?_, rfl,
    ?_, hrefunds⟩
  · exact ⟨List.replicate 3 {}, [{}], List.replicate 4 {}, chargedShard,
      { chargedShard with refunds := [fraction.params nearest chargedOrder] }, rfl, rfl, rfl⟩
  · rintro ⟨now, row, -, hgrown, -⟩
    rw [hgrown, List.length_append] at hhistory
    cases hhistory

end Result

end OrderService
