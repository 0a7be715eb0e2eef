import OrderService.Interleaving.Trace
import OrderService.RefundRecorded
import OrderService.SerialIds

/-! What any number of refunds of one charge come to: how much the provider pays back, and how many
rows refer to the charge. -/
namespace OrderService
open ReadCommitted Interleaving

section Statement

/-- The refunds of the charge that the provider has executed. -/
def World.executed (w : World) (tx : TransactionEntity) : List RefundParams :=
  w.refunds.filter fun params => params.providerReferenceId = tx.providerReferenceId.getD ""

def Db.transaction (db : Db) (id : Nat) : Option TransactionEntity :=
  db.transactions.find? fun t => t.id = id

/-- The rows that refer to the charge as refunds of it. -/
def Db.refundsOf (db : Db) (tx : TransactionEntity) : List TransactionEntity :=
  db.transactions.filter fun t => t.transactionType = .refund ∧ t.refundedPaymentId = some tx.id

structure RefundsBounded (tx : TransactionEntity) (w : World) : Prop where
  amount : ((w.executed tx).map RefundParams.amount).sum ≤ tx.amount
  rows : (w.store.db.refundsOf tx).length ≤ 1

/-- A successful charge before the calls. While it is not marked, nothing of it has been paid
back. -/
structure Chargeable (tx : TransactionEntity) (w : World) : Prop extends w.AtRest where
  found : w.store.db.transaction tx.id = some tx
  charge : tx.transactionType = .charge
  succeeded : tx.status = .succeeded
  bounded : RefundsBounded tx w
  untouched : tx.isRefunded = false → w.executed tx = [] ∧ w.store.db.refundsOf tx = []

/-- A call of `refundPayment` on the charge for each request. -/
def refunding (decimal : Rat → Int) (number : Rat → String) (cfg : Config) (region : String)
    (tx : TransactionEntity) (requests : Pid → Option RefundRequest) (w : World) :
    Sys Pid Op Op.Res Err World PaymentResponse :=
  ⟨w, fun p => (requests p).map fun request =>
    request.refundPayment decimal number cfg tx.id region⟩

/-- The provider has executed no refund of the charge when it receives a request, and the charge
is not marked when a call marks it. -/
def OneAtATime (tx : TransactionEntity) (_ : Pid) (o : Op) (e : Env) (w : World) : Prop :=
  match o with
  | .fetchRefund _ => (e.received || e.refund.isOk) = true → w.executed tx = []
  | .sql _ (.markTransactionAsRefunded _ _) =>
    (w.store.db.transaction tx.id).any (fun t => t.isRefunded) = false
  | _ => True

instance (tx : TransactionEntity) (p : Pid) (o : Op) (e : Env) (w : World) :
    Decidable (OneAtATime tx p o e w) := by
  unfold OneAtATime
  split <;> infer_instance

end Statement

section Tables
variable {tx t : TransactionEntity} {id : Nat} {db : Db} {x : Write} {now : Time}

/-- What a refund writes. -/
def Write.OfRefund : Write → Prop
  | .markRefunded _ _ => True
  | .insertTransaction _ => True
  | _ => False

theorem transaction_mark :
    (engine.apply (.markRefunded id now) db).transaction tx.id
      = (db.transaction tx.id).map fun t =>
        if t.id = id then { t with isRefunded := true, updatedAt := now } else t := by
  refine (List.find?_map ..).trans (congrArg _ ?_)
  refine congrArg (fun P => List.find? P db.transactions) (funext fun t => ?_)
  simp only [Function.comp_apply]
  split <;> rfl

/-- The row stays the first with its id, and keeps what a call may rely on. -/
theorem charge_apply (hx : x.OfRefund) (h : db.transaction tx.id = some t) :
    ∃ t', (engine.apply x db).transaction tx.id = some t' ∧ t'.amount = t.amount ∧
      (engine.key x ≠ some (.transaction tx.id) → t' = t) := by
  cases x with
  | markRefunded id now =>
    have hfound : t.id = tx.id := by
      have htest := List.find?_some h
      exact of_decide_eq_true htest
    rw [transaction_mark, h, Option.map_some]
    by_cases hid : t.id = id
    · rw [if_pos hid]
      refine ⟨_, rfl, rfl, fun hkey => absurd ?_ hkey⟩
      rw [← hfound, hid]
      rfl
    · rw [if_neg hid]
      exact ⟨t, rfl, rfl, fun _ => rfl⟩
  | insertTransaction row =>
    refine ⟨t, ?_, rfl, fun _ => rfl⟩
    exact List.find?_append.trans (by rw [show db.transactions.find? _ = some t from h]; rfl)
  | _ => exact absurd hx id

theorem refundsOf_mark : ((engine.apply (.markRefunded id now) db).refundsOf tx).length
    = (db.refundsOf tx).length := by
  change ((db.transactions.map _).filter _).length = _
  rw [List.filter_map, List.length_map]
  refine congrArg (fun P => (List.filter P db.transactions).length) (funext fun t => ?_)
  simp only [Function.comp_apply]
  split <;> rfl

theorem refundsOf_insert (row : TransactionEntity) :
    ((engine.apply (.insertTransaction row) db).refundsOf tx).length
      ≤ (db.refundsOf tx).length + 1 := by
  change ((db.transactions ++ [row]).filter _).length ≤ _
  rw [List.filter_append, List.length_append]
  exact Nat.add_le_add_left (List.length_filter_le _ [row]) _

/-- The charge has its row, for this amount. -/
def Db.Charged (db : Db) (tx : TransactionEntity) : Prop :=
  ∃ t, db.transaction tx.id = some t ∧ t.amount = tx.amount

theorem charged_applyAll {log : List Write} (hlog : ∀ x ∈ log, x.OfRefund) (h : db.Charged tx) :
    (engine.applyAll log db).Charged tx := by
  induction log generalizing db with
  | nil => exact h
  | cons x log ih =>
    obtain ⟨t, hfound, hamount⟩ := h
    obtain ⟨t', hfound', hsame, -⟩ := charge_apply (hlog x List.mem_cons_self) hfound
    rw [applyAll_cons]
    exact ih (fun y hy => hlog y (List.mem_cons_of_mem x hy)) ⟨t', hfound', hsame.trans hamount⟩

/-- Who writes no row with this id leaves it as it is. -/
theorem charge_applyAll {log : List Write} (hlog : ∀ x ∈ log, x.OfRefund)
    (hkey : ∀ x ∈ log, engine.key x ≠ some (.transaction tx.id))
    (h : db.transaction tx.id = some t) :
    (engine.applyAll log db).transaction tx.id = some t := by
  induction log generalizing db with
  | nil => exact h
  | cons x log ih =>
    obtain ⟨t', hfound', -, hsame⟩ := charge_apply (hlog x List.mem_cons_self) h
    rw [hsame (hkey x List.mem_cons_self)] at hfound'
    rw [applyAll_cons]
    exact ih (fun y hy => hlog y (List.mem_cons_of_mem x hy))
      (fun y hy => hkey y (List.mem_cons_of_mem x hy)) hfound'

end Tables

section Provider
variable {decimal : Rat → Int} {number : Rat → String} {cfg : Config} {region : String}
  {tx t : TransactionEntity} {request : RefundRequest} {p : Pid} {w w' : World}

/-- What a refund does outside and inside its transaction: it asks the provider for no more than
the charge. -/
def Op.Refunds (tx : TransactionEntity) : Op → Prop
  | .fetchRefund params => params.amount ≤ tx.amount
  | .sql _ q => ∀ x, q.MayWrite x → x.OfRefund
  | _ => True

/-- What it is told of the charge. -/
def TellsCharge (tx : TransactionEntity) : (o : Op) → o.Res → Prop
  | .sql _ (.findTransactionById id), found => id = tx.id → ∀ t, found = some t →
      t.amount = tx.amount
  | _, _ => True

theorem amount_of_assertRefundable (h : request.assertRefundable number t = .ok ()) :
    request.amount ≤ t.amount := by
  unfold RefundRequest.assertRefundable at h
  split_ifs at h with _ _ hcovered
  exact not_lt.mp hcovered

theorem calls_refundPayment
    (hdecimal : ∀ (amount : Rat) (n : Int), amount ≤ n → decimal amount ≤ n) :
    (request.refundPayment decimal number cfg tx.id region).Calls (Op.Refunds tx) (TellsCharge tx)
      fun _ => True := by
  refine Prog.calls_do (calls_any trivial) fun _ _ => Prog.calls_catch ?_ fun err =>
    Prog.calls_do (calls_any trivial) fun _ _ => trivial
  refine Prog.calls_do (Q := fun found => ∀ t, found = some t → t.amount = tx.amount)
    (calls_sql (fun x hx => absurd hx fun h => h) fun found h => h rfl) fun found hfound => ?_
  cases found with
  | none => trivial
  | some t =>
    have hcharge : t.amount = tx.amount := hfound t rfl
    refine Prog.calls_do (Q := fun _ => request.amount ≤ t.amount)
      (Prog.calls_ofExcept fun _ h => amount_of_assertRefundable h) fun _ hamount => ?_
    refine Prog.calls_do (calls_lookUpOrder fun id x hx => absurd hx fun h => h) fun _ _ => ?_
    have hparams : (request.params decimal t).amount ≤ tx.amount := by
      rw [← hcharge]
      exact hdecimal _ _ hamount
    refine Prog.calls_do (calls_kashierRefund trivial hparams) fun refundRes _ => ?_
    split_ifs
    · trivial
    refine Prog.calls_do (Q := fun _ => True) ?_ fun _ _ => Prog.calls_do (Q := fun _ => True) ?_
      fun _ _ => Prog.calls_do (calls_any trivial) fun _ _ => trivial
    · refine Prog.calls_do (calls_now trivial fun _ => trivial) fun now _ => ?_
      refine calls_sql ?_ fun _ _ => trivial
      rintro x rfl
      trivial
    · unfold RefundRequest.insertRefund
      split_ifs
      · refine calls_createTransaction trivial fun now => ?_
        rintro x ⟨id, rfl⟩
        trivial
      · exact Prog.calls_do (calls_now trivial fun _ => trivial) fun _ _ => trivial

/-- The provider has paid back no more than the charge, and every table that a call sees has the
row of the charge. -/
structure PaidBack (tx : TransactionEntity) (w : World) : Prop where
  charged : (sharedSpec fun db _ => db.Charged tx).inv w
  logs : ∀ q, ∀ x ∈ w.log q, x.OfRefund
  amount : ((w.executed tx).map RefundParams.amount).sum ≤ tx.amount

theorem charged_keptBy : KeptBy (fun db _ => db.Charged tx) p Write.OfRefund :=
  fun _ _ _ h hlog => charged_applyAll hlog h

/-- Only a request to the provider adds to what it has executed. -/
theorem exec_refunds {o : Op} {e : Env} {r : Except Err o.Res} (hx : exec p o e w = some (r, w'))
    (ho : ∀ params, o ≠ .fetchRefund params) : w'.refunds = w.refunds := by
  cases o with
  | fetchRefund params => exact absurd rfl (ho params)
  | sql c q =>
    simp only [exec] at hx
    split_ifs at hx with hfail
    · simp only [Option.some.injEq, Prod.mk.injEq] at hx
      rw [← hx.2]
    · cases c with
      | pool =>
        obtain ⟨a, _, hx⟩ := Option.map_eq_some_iff.mp hx
        simp only [Prod.mk.injEq] at hx
        rw [← hx.2]
      | trx =>
        obtain ⟨a, _, hx⟩ := Option.map_eq_some_iff.mp hx
        split at hx <;> simp only [Prod.mk.injEq] at hx <;> rw [← hx.2]
  | commit =>
    simp only [exec] at hx
    split_ifs at hx
    · simp only [Option.some.injEq, Prod.mk.injEq] at hx
      rw [← hx.2]
    · split at hx <;> simp only [Option.some.injEq, Prod.mk.injEq] at hx <;> rw [← hx.2]
  | rollback | now | emit m | getBranch b | getCustomerAddress a | getBranchProducts b ps
  | createSession i | random36 =>
    simp only [exec, Option.some.injEq, Prod.mk.injEq] at hx
    rw [← hx.2]
  | start | randomUUID | reserveStock b is k | undoReserveStock b is k | cache c =>
    simp only [exec] at hx
    split_ifs at hx <;> simp only [Option.some.injEq, Prod.mk.injEq] at hx <;> rw [← hx.2]

theorem paidBack_exec {o : Op} {e : Env} {r : Except Err o.Res} (ho : o.Refunds tx)
    (hok : OneAtATime tx p o e w) (h : PaidBack tx w) (hx : exec p o e w = some (r, w')) :
    PaidBack tx w' := by
  have hharmless : o.Harmless Write.OfRefund := by
    cases o with
    | sql c q => exact ho
    | _ => trivial
  refine ⟨inv_exec charged_keptBy hx hharmless (h.logs p) h.charged, fun q => ?_, ?_⟩
  · by_cases hqp : q = p
    · subst hqp
      exact log_exec hx hharmless (h.logs q)
    · have htxn := (exec_rely h.charged.1 hx hqp).txn
      rw [World.log, htxn]
      exact h.logs q
  · by_cases hfetch : ∃ params, o = .fetchRefund params
    · obtain ⟨params, rfl⟩ := hfetch
      simp only [exec, Option.some.injEq, Prod.mk.injEq] at hx
      obtain ⟨-, rfl⟩ := hx
      by_cases hreceived : (e.received || e.refund.isOk) = true
      · have hfirst : w.executed tx = [] := hok hreceived
        have hnone : (0 : Int) ≤ tx.amount := by
          have hbound := h.amount
          rw [hfirst] at hbound
          exact hbound
        have hparams : params.amount ≤ tx.amount := ho
        rw [World.executed] at hfirst
        rw [World.executed, if_pos hreceived, List.filter_append, hfirst, List.nil_append,
          List.filter_singleton]
        by_cases hmine : params.providerReferenceId = tx.providerReferenceId.getD ""
        · simpa [hmine] using hparams
        · simpa [hmine] using hnone
      · simp only [World.executed, if_neg hreceived]
        exact h.amount
    · have hsame := exec_refunds hx fun params heq => hfetch ⟨params, heq⟩
      rw [World.executed, hsame]
      exact h.amount

theorem tellsCharge_exec {o : Op} {e : Env} {a : o.Res} (h : PaidBack tx w)
    (hx : exec p o e w = some (.ok a, w')) : TellsCharge tx o a := by
  cases o with
  | sql c q =>
    cases q with
    | findTransactionById id =>
      rintro rfl t rfl
      have hall : ∀ db : Db, db.Charged tx → db.transaction tx.id = some t →
          t.amount = tx.amount := by
        rintro db ⟨t', hfound, hamount⟩ hread
        obtain rfl : t' = t := Option.some.inj (hfound.symm.trans hread)
        exact hamount
      have hcharged : w.store.db.Charged tx := h.charged.2
      rcases exec_sql_reply hx with ⟨-, hreply⟩ | ⟨-, hreply⟩
      · exact hall _ hcharged (Except.ok.inj hreply)
      · exact hall _ (charged_applyAll (h.logs p) hcharged) (Except.ok.inj hreply)
    | _ => trivial
  | _ => trivial

theorem PaidBack.crash (h : PaidBack tx w) (p : Pid) : PaidBack tx (machine.crash p w) := by
  refine ⟨(sharedSpec_fits _).crash p w h.charged |>.1, fun q x hx => ?_, h.amount⟩
  rcases Serial.log_update w p q .closed rfl with hlog | hlog
  · exact h.logs q x (hlog ▸ hx)
  · rw [World.log] at hx
    have hnone : x ∈ ([] : List Write) := hlog ▸ hx
    cases hnone

theorem PaidBack.ext (h : PaidBack tx w) (x : Ext) : PaidBack tx (machine.ext x w) := by
  cases x <;> exact ⟨h.charged, h.logs, h.amount⟩

theorem paidBack_start (h : Chargeable tx w) : PaidBack tx w := by
  refine ⟨⟨h.toAtRest.locked, tx, h.found, rfl⟩, fun q x hx => ?_, h.bounded.amount⟩
  rw [World.log, h.txn q] at hx
  cases hx

end Provider

section Rows
variable {decimal : Rat → Int} {number : Rat → String} {cfg : Config} {region : String}
  {tx t : TransactionEntity} {request : RefundRequest} {p : Pid} {w w' : World} {log : List Write}

/-- Only refunds have been committed, and no row refers to the charge while it is not marked. -/
structure RowsMarked (tx : TransactionEntity) (db : Db) (history : List (Pid × List Write)) :
    Prop where
  writes : ∀ b ∈ history, ∀ x ∈ b.2, x.OfRefund
  marked : ∃ t, db.transaction tx.id = some t ∧
    (db.refundsOf tx).length ≤ if t.isRefunded then 1 else 0

theorem rowsMarked_start (h : Chargeable tx w) : RowsMarked tx w.store.db [] := by
  refine ⟨fun b hb => (by cases hb), tx, h.found, ?_⟩
  cases hmarked : tx.isRefunded with
  | true => exact h.bounded.rows
  | false =>
    rw [(h.untouched hmarked).2]
    exact le_refl _

/-- The transaction has marked the charge, which is not marked in the committed tables. -/
structure HoldsMark (tx : TransactionEntity) (p : Pid) (log : List Write) (w : World) : Prop where
  txn : w.store.txn p = .active log
  lock : (.transaction tx.id, p) ∈ w.store.locks
  unmarked : ∃ t, w.store.db.transaction tx.id = some t ∧ t.isRefunded = false

/-- The row is locked, so the others leave it as it is. -/
theorem HoldsMark.rely (h : HoldsMark tx p log w) (hr : (sharedSpec (RowsMarked tx)).rely p w w')
    (hi : (sharedSpec (RowsMarked tx)).inv w') : HoldsMark tx p log w' := by
  obtain ⟨bs, hhistory, hdb, -, hfree⟩ := hr.1.commits
  obtain ⟨t, hfound, hunmarked⟩ := h.unmarked
  have hwrites : ∀ x ∈ bs.flatMap Prod.snd, x.OfRefund := by
    intro x hx
    obtain ⟨b, hb, hx⟩ := List.mem_flatMap.mp hx
    refine hi.2.writes b ?_ x hx
    rw [hhistory]
    exact List.mem_append_right _ hb
  have hkeys : ∀ x ∈ bs.flatMap Prod.snd, engine.key x ≠ some (.transaction tx.id) := by
    intro x hx hkey
    obtain ⟨b, hb, hx⟩ := List.mem_flatMap.mp hx
    exact hfree b hb x hx _ hkey h.lock
  refine ⟨hr.1.txn.trans h.txn, (hr.1.locks _).mpr h.lock, t, ?_, hunmarked⟩
  rw [hdb]
  exact charge_applyAll hwrites hkeys hfound

/-- A call that has marked the charge commits its row as the only one. -/
theorem rowsMarked_commit {now : Time} {row : TransactionEntity} {db : Db}
    {history : List (Pid × List Write)} (h : RowsMarked tx db history)
    (hunmarked : ∃ t, db.transaction tx.id = some t ∧ t.isRefunded = false) :
    RowsMarked tx (engine.applyAll [.markRefunded tx.id now, .insertTransaction row] db)
      (history ++ [(p, [.markRefunded tx.id now, .insertTransaction row])]) := by
  obtain ⟨t, hfound, hno⟩ := hunmarked
  have hid : t.id = tx.id := by
    have htest := List.find?_some hfound
    exact of_decide_eq_true htest
  have hnone : (db.refundsOf tx).length ≤ 0 := by
    obtain ⟨t', hfound', hrows⟩ := h.marked
    obtain rfl : t' = t := Option.some.inj (hfound'.symm.trans hfound)
    rwa [hno, if_neg Bool.false_ne_true] at hrows
  have hmarked : (engine.apply (.markRefunded tx.id now) db).transaction tx.id
      = some { t with isRefunded := true, updatedAt := now } := by
    rw [transaction_mark, hfound, Option.map_some, if_pos hid]
  obtain ⟨t', hfound', -, hsame⟩ :=
    charge_apply (x := .insertTransaction row) trivial hmarked
  refine ⟨?_, t', hfound', ?_⟩
  · intro b hb x hx
    rcases List.mem_append.mp hb with hb | hb
    · exact h.writes b hb x hx
    · rw [List.mem_singleton.mp hb] at hx
      rcases List.mem_pair.mp hx with rfl | rfl <;> trivial
  · have hkey : engine.key (.insertTransaction row) ≠ some (.transaction tx.id) := by
      intro hkey
      obtain ⟨k, -, hk⟩ := Option.map_eq_some_iff.mp hkey
      cases hk
    rw [hsame hkey, if_pos rfl, applyAll_cons, applyAll_cons, applyAll_nil]
    refine le_trans (refundsOf_insert row) ?_
    rw [refundsOf_mark]
    omega

theorem wp_recordRefund_marked (hid : t.id = tx.id) {refundRes : RefundResult}
    (hlog : w.store.txn p = .active []) {P : PaymentResponse → World → Prop} (hP : ∀ a v, P a v) :
    wp machine (OneAtATime tx) (sharedSpec (RowsMarked tx)) p
      (request.recordRefund region t refundRes) (OnOk P) w := by
  have hS := sharedSpec_isolated (RowsMarked tx) p
  unfold RefundRequest.recordRefund markTransactionAsRefunded
  apply wp_seq
  apply wp_seq
  apply wp_now_ok hS
  intro w₁ hr₁ _
  have hlog₁ : w₁.store.txn p = .active [] := hr₁.1.txn.trans hlog
  apply wp_trx_ok hS hlog₁
  intro w₂ e a _ hi₂ hlog₂ hok _ _
  rw [hid]
  -- The condition says that the charge is not marked when this call marks it.
  have hmarking : HoldsMark tx p [.markRefunded tx.id w₁.clock]
      (w₂.queried p (.markTransactionAsRefunded tx.id w₁.clock)) := by
    refine ⟨World.queried_txn_of_log hlog₂, World.mem_queried_locks List.mem_cons_self, ?_⟩
    obtain ⟨t', hfound, -⟩ := hi₂.2.marked
    have hno : (w₂.store.db.transaction tx.id).any (fun t => t.isRefunded) = false := hok
    rw [hfound] at hno
    exact ⟨t', hfound, hno⟩
  unfold RefundRequest.insertRefund
  split_ifs
  · unfold createTransaction
    apply wp_seq
    apply wp_seq
    apply wp_now_ok hS
    intro w₃ hr₃ hi₃
    have hmarking₃ := hmarking.rely hr₃ hi₃
    apply wp_seq
    apply wp_trx_ok hS hmarking₃.txn
    intro w₄ e row hr₄ hi₄ hlog₄ _ _ _
    obtain ⟨-, hlock, hunmarked⟩ := hmarking₃.rely hr₄ hi₄
    apply wp_toEntity
    rintro refundTx rfl
    have hrecorded : HoldsMark tx p _ (w₄.queried p
        (.createTransaction (refundData region t refundRes request.amount.num) w₃.clock)) :=
      ⟨World.queried_txn_of_log hlog₄, World.queried_locks_mono hlock, hunmarked⟩
    apply wp_seq
    apply wp_commit_shared hrecorded.txn
    intro w₅ hr₅ hi₅ _
    exact ⟨rowsMarked_commit hi₅.2 (hrecorded.rely hr₅ hi₅).unmarked, hP _ _⟩
  · apply wp_seq
    apply wp_seq
    apply wp_now_ok hS
    intro w₃ _ _
    trivial

theorem wp_refundPayment_marked {P : PaymentResponse → World → Prop} (hP : ∀ a v, P a v) :
    wp machine (OneAtATime tx) (sharedSpec (RowsMarked tx)) p
      (request.refundPayment decimal number cfg tx.id region) (OnOk P) w := by
  have hS := sharedSpec_isolated (RowsMarked tx) p
  unfold RefundRequest.refundPayment
  apply wp_seq
  apply wp_start_ok hS
  intro w₁ _ _ _
  apply wp_catch_ok _ fun err v => wp_abort hS
  unfold RefundRequest.refundBody
  apply wp_seq
  apply wp_trx_ok hS (World.start_txn w₁ p)
  intro w₂ e found _ _ hlog₂ _ _ hreply
  cases found with
  | none => trivial
  | some t =>
    have hid : t.id = tx.id := by
      have htest := List.find?_some (Except.ok.inj hreply)
      exact of_decide_eq_true htest
    apply wp_seq
    apply wp_fromExcept
    intro _ _
    apply wp_seq
    apply wp_reading hS (calls_lookUpOrder fun id x hx => absurd hx fun h => h)
      (World.queried_txn_of_read hlog₂ rfl)
    intro _ w₃ _ hlog₃
    apply wp_seq
    apply wp_reading hS (calls_kashierRefund rfl rfl) hlog₃
    intro refundRes w₄ _ hlog₄
    split_ifs
    · trivial
    · exact wp_recordRefund_marked hid hlog₄ hP

end Rows

section Result

/-- In every interleaving of any number of refunds of a charge, whatever replies are lost: if the
provider has executed none of them whenever it receives a request, and the charge is not marked
whenever a call marks it, then no more is paid back than was charged, and at most one row refers to
the charge. -/
theorem refunds_bounded (decimal : Rat → Int)
    (hdecimal : ∀ (amount : Rat) (n : Int), amount ≤ n → decimal amount ≤ n)
    (number : Rat → String) (cfg : Config) (region : String) (tx : TransactionEntity) (w : World)
    (h : Chargeable tx w) (requests : Pid → Option RefundRequest)
    {t : Sys Pid Op Op.Res Err World PaymentResponse}
    (ht : machine.Reaches (OneAtATime tx) (refunding decimal number cfg region tx requests w) t) :
    RefundsBounded tx t.world := by
  have hpaid : PaidBack tx t.world := by
    refine (Machine.Reaches.told (P := fun _ => Op.Refunds tx) (R := TellsCharge tx)
      (Q := fun _ _ => True) ?_ ?_ ?_ ?_ ?_ ht).1
    · intro p prog hprog
      obtain ⟨request, -, rfl⟩ := Option.map_eq_some_iff.mp hprog
      exact calls_refundPayment hdecimal
    · intro p o e v r v' ho hok hv hx
      refine ⟨paidBack_exec ho hok hv hx, ?_⟩
      rintro a rfl
      exact tellsCharge_exec hv hx
    · exact fun p v hv => hv.crash p
    · exact fun x v hv => hv.ext x
    · exact paidBack_start h
  have hrows : RowsMarked tx t.world.store.db t.world.store.history := by
    refine shared_reaches h.toAtRest (rowsMarked_start h) ?_ ht
    intro p prog hprog
    obtain ⟨request, -, rfl⟩ := Option.map_eq_some_iff.mp hprog
    exact wp_refundPayment_marked fun _ _ => trivial
  obtain ⟨t', -, hmarked⟩ := hrows.marked
  refine ⟨hpaid.amount, le_trans hmarked ?_⟩
  split <;> decide

theorem nearest_le {amount : Rat} {n : Int} (h : amount ≤ n) : nearest amount ≤ n := by
  have hhalf : (n : Rat) + 1 / 2 < n + 1 := Rat.add_lt_add_left.mpr (by norm_num)
  have hbelow : amount + 1 / 2 < ((n + 1 : Int) : Rat) := by
    rw [Rat.intCast_add]
    exact lt_of_le_of_lt (Rat.add_le_add_right.mpr h) hhalf
  exact Int.lt_add_one_iff.mp (Rat.floor_lt_iff.mpr hbelow)

theorem chargedShard_chargeable : Chargeable chargedOrder chargedShard where
  history := rfl
  txn _ := rfl
  locks := rfl
  found := rfl
  charge := rfl
  succeeded := rfl
  bounded := ⟨by decide, by decide⟩
  untouched _ := ⟨rfl, rfl⟩

/-- Two refunds of the whole charge. -/
def bothInFull : Pid → Option RefundRequest
  | 0 => some inFull
  | 1 => some inFull
  | _ => none

def refundingBoth : Sys Pid Op Op.Res Err World PaymentResponse :=
  refunding nearest (fun q => toString q.num) sampleConfig "eg" chargedOrder bothInFull chargedShard

/-- The second call starts when the first one has returned. -/
def refundThenAgain : List (Label Pid Env Ext) :=
  List.replicate 9 (.act 0 {}) ++ List.replicate 3 (.act 1 {})

theorem refunds_bounded_in_turn :
    ∃ t, machine.run (fun p o e w => decide (OneAtATime chargedOrder p o e w)) refundThenAgain
        refundingBoth = some t ∧ RefundsBounded chargedOrder t.world := by
  have hsome : (machine.run (fun p o e w => decide (OneAtATime chargedOrder p o e w))
      refundThenAgain refundingBoth).isSome = true := by
    decide +kernel
  obtain ⟨t, ht⟩ := Option.isSome_iff_exists.mp hsome
  exact ⟨t, ht, refunds_bounded nearest (fun _ _ => nearest_le) (fun q => toString q.num)
    sampleConfig "eg" chargedOrder chargedShard chargedShard_chargeable bothInFull
    (Machine.reaches_of_run (fun _ _ _ _ => of_decide_eq_true) _ ht)⟩

def paidBackAndRows (t : Sys Pid Op Op.Res Err World PaymentResponse) : Int × Nat :=
  (((t.world.executed chargedOrder).map RefundParams.amount).sum,
    (t.world.store.db.refundsOf chargedOrder).length)

/-- Both calls read the charge before either marks it. -/
def bothUnmarked : List (Label Pid Env Ext) :=
  List.replicate 4 (.act 0 {}) ++ (List.replicate 4 (.act 1 {}) ++
    (List.replicate 5 (.act 0 {}) ++ List.replicate 5 (.act 1 {})))

/-- The provider executes the first request, and its reply is lost. -/
def firstReplyLost : List (Label Pid Env Ext) :=
  List.replicate 3 (.act 0 {}) ++ (.act 0 { refund := .lost } :: List.replicate 6 (.act 0 {}))

/-- Two calls at the same time pay the charge back twice, in two rows; and one call pays it back
twice when its first reply is lost. -/
theorem refunded_twice : Chargeable chargedOrder chargedShard ∧
    (∃ t, machine.run (fun _ _ _ _ => true) bothUnmarked refundingBoth = some t ∧
      paidBackAndRows t = (23000, 2) ∧ ¬RefundsBounded chargedOrder t.world) ∧
    ∃ t, machine.run (fun _ _ _ _ => true) firstReplyLost refundingBoth = some t ∧
      paidBackAndRows t = (23000, 1) ∧ ¬RefundsBounded chargedOrder t.world := by
  have hover : ∀ {t : Sys Pid Op Op.Res Err World PaymentResponse} {rows : Nat},
      paidBackAndRows t = (23000, rows) → ¬RefundsBounded chargedOrder t.world := by
    intro t rows hpaid hbounded
    have hamount := hbounded.amount
    rw [show ((t.world.executed chargedOrder).map RefundParams.amount).sum = 23000 from
      congrArg Prod.fst hpaid] at hamount
    exact absurd hamount (by decide)
  have hboth : (machine.run (fun _ _ _ _ => true) bothUnmarked refundingBoth).map paidBackAndRows
      = some (23000, 2) := by
    decide +kernel
  have hlost : (machine.run (fun _ _ _ _ => true) firstReplyLost refundingBoth).map paidBackAndRows
      = some (23000, 1) := by
    decide +kernel
  obtain ⟨t, ht, hpaid⟩ := Option.map_eq_some_iff.mp hboth
  obtain ⟨t', ht', hpaid'⟩ := Option.map_eq_some_iff.mp hlost
  exact ⟨chargedShard_chargeable, ⟨t, ht, hpaid, hover hpaid⟩, t', ht', hpaid', hover hpaid'⟩

end Result

end OrderService
