import OrderService.DeliveredSettled
import OrderService.Interleaving.Verdict

/-! The stock that a placement reserves: whether it is released again when the placement throws. -/
namespace OrderService
open ReadCommitted Interleaving

section Statement

/-- The items that the requests reserved at a branch, in their order. -/
def reservedItems (calls : List StockCall) : List (Nat × ReserveStockItem) :=
  calls.flatMap fun
    | .reserve branchId items => items.map (branchId, ·)
    | .undo .. => []

def releasedItems (calls : List StockCall) : List (Nat × ReserveStockItem) :=
  calls.flatMap fun
    | .reserve .. => []
    | .undo branchId items => items.map (branchId, ·)

/-- The stock requests between two moments. -/
def stockCallsSince (w w' : World) : List StockCall := w'.stockCalls.drop w.stockCalls.length

def ordersSince (w w' : World) : List OrderEntity :=
  w'.store.db.orders.drop w.store.db.orders.length

/-- A placement that throws has released what it reserved and left no order but a cancelled one;
one that returns has released nothing, and its order is there. -/
def StockConserved (w : World) : Outcome Err OrderResponse × World → Prop
  | (.threw _, w') =>
    releasedItems (stockCallsSince w w') = reservedItems (stockCallsSince w w') ∧
      ∀ o ∈ ordersSince w w', o.status = .cancelled
  | (.returned r, w') => releasedItems (stockCallsSince w w') = [] ∧
      ∃ o ∈ ordersSince w w', o.publicId = r.publicId ∧ o.status ≠ .cancelled
  | (.crashed, _) => True

/-- Core performs every release. -/
def undoSucceeds (_ : Pid) : Op → Env → World → Prop
  | .undoReserveStock .., e, _ => e.fail = false
  | _, _, _ => True

/-- The steps outside the transaction of the order succeed: its start, the Kashier session with
its lookup and its storage, and the invalidation of the cache. -/
def StepsOutsideSucceed (items : List OrderItemInput) (_ : Pid) : Op → Env → World → Prop
  | .start, e, _ => items = [] ∨ e.fail = false
  | .createSession _, e, _ => e.fail = false
  | .sql .pool q, e, w => e.fail = false ∧ (w.onPool q).reply.isOk = true
  | .cache (.del _), e, _ => e.fail = false
  | _, _, _ => True

instance (p : Pid) (o : Op) (e : Env) (w : World) : Decidable (undoSucceeds p o e w) := by
  unfold undoSucceeds
  split <;> infer_instance

instance (items : List OrderItemInput) (p : Pid) (o : Op) (e : Env) (w : World) :
    Decidable (StepsOutsideSucceed items p o e w) :=
  match o with
  | .start => decidable_of_iff (items.isEmpty = true ∨ e.fail = false)
      (or_congr List.isEmpty_iff Iff.rfl)
  | .createSession _ => inferInstanceAs (Decidable (e.fail = false))
  | .sql .pool q => inferInstanceAs (Decidable (e.fail = false ∧ (w.onPool q).reply.isOk = true))
  | .cache (.del _) => inferInstanceAs (Decidable (e.fail = false))
  | .sql .trx _ | .commit | .rollback | .now | .randomUUID | .getBranch _ | .getCustomerAddress _
  | .getBranchProducts .. | .reserveStock .. | .undoReserveStock .. | .random36 | .fetchRefund _
  | .emit _ | .cache (.get _) | .cache (.trySet ..) | .cache (.set ..) | .cache (.keyExists _)
  | .cache (.incr _) | .cache (.expire ..) | .cache (.ttl _) | .cache (.saddBusy ..)
  | .cache (.sremBusy ..) | .cache (.sismemberBusy ..) | .cache (.geosearchByRadius ..) =>
    .isTrue trivial

end Statement

section Steps
variable {p : Pid} {o : Op} {e : Env} {w w' : World} {r : Except Err o.Res}

/-- The operations that core applies to the stock. -/
def Op.stocks : Op → Bool
  | .reserveStock .. => true
  | .undoReserveStock .. => true
  | _ => false

theorem exec_stockCalls (hx : exec p o e w = some (r, w')) (ho : o.stocks = false) :
    w'.stockCalls = w.stockCalls := by
  cases o with
  | sql c q =>
    rcases exec_sql_cases hx with rfl | ⟨_, rfl⟩ | ⟨_, rfl, _⟩ <;> rfl
  | commit =>
    simp only [exec] at hx
    split_ifs at hx
    · simp only [Option.some.injEq, Prod.mk.injEq] at hx
      rw [← hx.2]
    · split at hx <;> simp only [Option.some.injEq, Prod.mk.injEq] at hx <;> rw [← hx.2]
  | reserveStock b is k | undoReserveStock b is k => cases ho
  | rollback | now | emit m | getBranch b | getCustomerAddress a | getBranchProducts b ps
  | createSession i | random36 | fetchRefund ps =>
    simp only [exec, Option.some.injEq, Prod.mk.injEq] at hx
    rw [← hx.2]
  | start | randomUUID | cache c =>
    simp only [exec] at hx
    split_ifs at hx <;> simp only [Option.some.injEq, Prod.mk.injEq] at hx <;> rw [← hx.2]

/-- The orders that are committed and the stock requests so far. -/
structure StockAt (orders : List OrderEntity) (calls : List StockCall) (w : World) : Prop where
  orders : w.store.db.orders = orders
  calls : w.stockCalls = calls

variable {orders : List OrderEntity} {calls : List StockCall}

theorem StockAt.quiet (h : StockAt orders calls w) (hx : exec p o e w = some (r, w'))
    (hcommits : o.commits = false) (hstocks : o.stocks = false) : StockAt orders calls w' where
  orders := by
    rw [(exec_quiet hx hcommits).1]
    exact h.orders
  calls := (exec_stockCalls hx hstocks).trans h.calls

/-- The same, and `p` has written `log` in its open transaction. -/
structure Writing (p : Pid) (log : List Write) (orders : List OrderEntity)
    (calls : List StockCall) (w : World) : Prop extends StockAt orders calls w where
  txn : w.store.txn p = .active log

/-- The same, and the transaction of `p` has ended. -/
structure Ended (p : Pid) (orders : List OrderEntity) (calls : List StockCall) (w : World) :
    Prop extends StockAt orders calls w where
  txn : w.store.txn p = .closed

end Steps

section Judging
variable {p : Pid} {w : World} {items : List OrderItemInput} {orders : List OrderEntity}
  {calls : List StockCall} {log : List Write} {met : Prop} {α : Type}

/-- A program, judged by the steps outside the transaction, while core performs every release. -/
abbrev Weighed (items : List OrderItemInput) (p : Pid) (prog : Svc α)
    (Q : Prop → Except Err α → World → Prop) (met : Prop) (w : World) : Prop :=
  Judged machine undoSucceeds (StepsOutsideSucceed items) p prog Q met w

/-- Operations that neither commit, nor touch the stock or a transaction, nor are judged. -/
def Op.plain : Op → Bool
  | .now => true
  | .randomUUID => true
  | .getBranch _ => true
  | .getCustomerAddress _ => true
  | .getBranchProducts .. => true
  | .cache (.get _) => true
  | .emit _ => true
  | _ => false

theorem Op.plain_spec {o : Op} (ho : o.plain = true) : o.outer = true ∧ o.stocks = false ∧
    ∀ e w, StepsOutsideSucceed items p o e w := by
  cases o with
  | cache c =>
    cases c with
    | get key => exact ⟨rfl, rfl, fun _ _ => trivial⟩
    | _ => cases ho
  | now | randomUUID | getBranch b | getCustomerAddress a | getBranchProducts b ps | emit m =>
    exact ⟨rfl, rfl, fun _ _ => trivial⟩
  | _ => cases ho

/-- What only speaks of the store and the stock survives plain steps. -/
theorem weighed_plain {prog : Svc α}
    (hc : prog.Calls (fun o => o.plain = true) (fun _ _ => True) fun _ => True)
    {F : World → Prop} (hF : F w)
    (hkeep : ∀ v v' : World, v'.store = v.store → v'.stockCalls = v.stockCalls → F v → F v')
    {Q : Prop → Except Err α → World → Prop} (hthrow : ∀ e w', F w' → Q met (.error e) w')
    (hreturn : ∀ a w', F w' → Q met (.ok a) w') : Weighed items p prog Q met w := by
  refine judged_free (F := F) hc ?_ hF hthrow fun a w' _ => hreturn a w'
  intro o e v r v' ho hv _ hx
  obtain ⟨houter, hstocks, hfree⟩ := Op.plain_spec (p := p) ho
  exact ⟨hfree e v, hkeep v v' (exec_outer houter hx).1 (exec_stockCalls hx hstocks) hv,
    fun _ _ => trivial⟩

theorem StockAt.of_same {v v' : World} (hstore : v'.store = v.store)
    (hcalls : v'.stockCalls = v.stockCalls) (h : StockAt orders calls v) :
    StockAt orders calls v' := ⟨by rw [hstore]; exact h.orders, hcalls.trans h.calls⟩

theorem Writing.of_same {v v' : World} (hstore : v'.store = v.store)
    (hcalls : v'.stockCalls = v.stockCalls) (h : Writing p log orders calls v) :
    Writing p log orders calls v' :=
  ⟨h.toStockAt.of_same hstore hcalls, by rw [hstore]; exact h.txn⟩

theorem Ended.of_same {v v' : World} (hstore : v'.store = v.store)
    (hcalls : v'.stockCalls = v.stockCalls) (h : Ended p orders calls v) :
    Ended p orders calls v' :=
  ⟨h.toStockAt.of_same hstore hcalls, by rw [hstore]; exact h.txn⟩

theorem weighed_now {Q : Prop → Except Err Time → World → Prop} (h : ∀ t, Q met (.ok t) w) :
    Weighed items p now Q met w := by
  apply judged_unasked fun _ _ => trivial
  intro e r w' _ hx
  rw [machine_exec] at hx
  simp only [exec, Option.some.injEq, Prod.mk.injEq] at hx
  rw [← hx.1, ← hx.2]
  exact h w.clock

/-- A statement in the transaction. -/
theorem weighed_trx (h : Writing p log orders calls w) {q : Sql}
    {Q : Prop → Except Err q.Res → World → Prop}
    (hthrow : ∀ e w', StockAt orders calls w' → Q met (.error e) w')
    (hreturn : ∀ (v : World) a w',
      (q.eval v.seqs v.clock (v.view p)).reply = .ok a →
      Writing p (log ++ (q.eval v.seqs v.clock (v.view p)).writes) orders calls w' →
      Q met (.ok a) w') :
    Weighed items p (sql .trx q) Q met w := by
  apply judged_unasked fun _ _ => trivial
  intro e r w' _ hx
  rw [machine_exec] at hx
  have hstock : StockAt orders calls w' := h.toStockAt.quiet hx rfl rfl
  by_cases hfail : e.fail = true
  · simp only [exec, hfail, if_true, Option.some.injEq, Prod.mk.injEq] at hx
    rw [← hx.1]
    exact hthrow .failed w' hstock
  · obtain ⟨hr, rfl⟩ := exec_trx h.txn (Bool.eq_false_iff.mpr hfail) hx
    cases r with
    | error err => exact hthrow err _ hstock
    | ok a =>
      refine hreturn w a _ hr.symm ⟨hstock, ?_⟩
      rw [World.queried_txn_of_log h.txn]
      rfl

/-- A statement on the pool that leaves the orders alone. -/
theorem weighed_pool (h : Ended p orders calls w) {q : Sql}
    (hq : ∀ x, q.MayWrite x → x.table ≠ .orders) {Q : Prop → Except Err q.Res → World → Prop}
    (hthrow : ∀ e w', Ended p orders calls w' → Q False (.error e) w')
    (hreturn : ∀ a w', Ended p orders calls w' → Q met (.ok a) w') :
    Weighed items p (sql .pool q) Q met w := by
  apply judged_perform
  intro e r w' _ hx
  rw [machine_exec] at hx
  by_cases hfail : e.fail = true
  · simp only [exec, hfail, if_true, Option.some.injEq, Prod.mk.injEq] at hx
    have hmet : (met ∧ StepsOutsideSucceed items p (.sql .pool q) e w) = False := by
      simp [StepsOutsideSucceed, hfail]
    rw [hmet, ← hx.1, ← hx.2]
    exact hthrow .failed w h
  · have hok : e.fail = false := Bool.eq_false_iff.mpr hfail
    obtain ⟨hr, rfl, _⟩ := exec_pool hok hx
    have hended : Ended p orders calls (w.pooled p q) := by
      refine ⟨⟨?_, h.calls⟩, h.txn⟩
      exact (orders_applyAll (fun x hx => hq x (Sql.mayWrite_of_mem hx)) _).trans h.orders
    cases r with
    | error err =>
      have hmet : (met ∧ StepsOutsideSucceed items p (.sql .pool q) e w) = False := by
        simp [StepsOutsideSucceed, ← hr, Except.isOk, Except.toBool]
      rw [hmet]
      exact hthrow err _ hended
    | ok a =>
      have hmet : (met ∧ StepsOutsideSucceed items p (.sql .pool q) e w) = met := by
        simp [StepsOutsideSucceed, ← hr, hok, Except.isOk, Except.toBool]
      rw [hmet]
      exact hreturn a _ hended

/-- The commit, which may fail. -/
theorem weighed_commit (h : Writing p log orders calls w)
    {Q : Prop → Except Err Unit → World → Prop}
    (hthrow : ∀ e w', StockAt orders calls w' → Q met (.error e) w')
    (hreturn : ∀ w', Ended p (engine.applyAll log w.store.db).orders calls w' →
      Q met (.ok ()) w') :
    Weighed items p commit Q met w := by
  apply judged_unasked fun _ _ => trivial
  intro e r w' _ hx
  rw [machine_exec] at hx
  have hcalls := (exec_stockCalls hx rfl).trans h.calls
  by_cases hfail : e.fail = true
  · simp only [exec, hfail, if_true, Option.some.injEq, Prod.mk.injEq] at hx
    obtain ⟨rfl, rfl⟩ := hx
    exact hthrow .failed _ ⟨h.orders, h.calls⟩
  · simp only [exec, hfail, Bool.false_eq_true, if_false, Store.commit, h.txn, Option.some.injEq,
      Prod.mk.injEq] at hx
    obtain ⟨rfl, rfl⟩ := hx
    exact hreturn _ ⟨⟨rfl, hcalls⟩, Function.update_self _ _ _⟩

/-- The rollback, then the release, which core performs. -/
theorem weighed_release (h : StockAt orders calls w) {branchId : Nat}
    {stock : List ReserveStockItem} {err : Err} {Q : Prop → Except Err α → World → Prop}
    (hthrow : ∀ w', StockAt orders (calls ++ [.undo branchId stock]) w' → Q met (.error err) w') :
    Weighed items p (do
      rollback
      undoStock branchId stock
      throw err : Svc α) Q met w := by
  apply judged_do
  apply judged_unasked fun _ _ => trivial
  intro e r w₁ _ hx
  rw [machine_exec] at hx
  have h₁ : StockAt orders calls w₁ := h.quiet hx rfl rfl
  simp only [exec, Option.some.injEq, Prod.mk.injEq] at hx
  obtain ⟨rfl, rfl⟩ := hx
  apply judged_do
  apply judged_catch
  apply judged_unasked fun _ _ => trivial
  intro e r w₂ hgiven hx
  have hdone : e.fail = false := hgiven
  rw [machine_exec] at hx
  simp only [exec, hdone, Bool.false_eq_true, if_false, Option.some.injEq, Prod.mk.injEq] at hx
  obtain ⟨rfl, rfl⟩ := hx
  exact hthrow _ ⟨h₁.orders, congrArg (· ++ [StockCall.undo branchId stock]) h₁.calls⟩

end Judging

section Placement
variable {p : Pid} {w : World} {items : List OrderItemInput} {orders : List OrderEntity}
  {calls : List StockCall} {met : Prop}

theorem calls_plain {o : Op} (ho : o.plain = true) {R : (o : Op) → o.Res → Prop} :
    (Prog.perform o : Svc o.Res).Calls (fun o => o.plain = true) R fun _ => True :=
  Prog.calls_perform ho fun _ _ => trivial

/-- The transaction inserts the order, or leaves everything as it was. -/
theorem weighed_insertOrder {data : OrderData} {lines : Nat → List OrderItemData}
    (h : Writing p [] orders calls w)
    {Q : Prop → Except Err (OrderEntity × List OrderItemEntity) → World → Prop}
    (hthrow : ∀ e w', StockAt orders calls w' → Q met (.error e) w')
    (hreturn : ∀ order rows w', order.status = data.status →
      Ended p (orders ++ [order]) calls w' → Q met (.ok (order, rows)) w') :
    Weighed items p (insertOrder data lines) Q met w := by
  unfold insertOrder createOrder bulkInsertItems insertOutboxEvent
  apply judged_do
  apply judged_do
  apply weighed_now
  intro createdAt
  apply weighed_trx h hthrow
  intro v order w₂ hreply h₂
  have hinserted : (Sql.eval v.seqs v.clock (.createOrder data createdAt) (v.view p)).writes
      = [.insertOrder order] ∧ order.status = data.status := by
    simp only [Sql.eval] at hreply ⊢
    split at hreply
    · cases hreply
    · obtain rfl := Except.ok.inj hreply
      exact ⟨rfl, rfl⟩
  rw [hinserted.1, List.nil_append] at h₂
  apply judged_do
  apply judged_do
  apply weighed_now
  intro itemsAt
  apply weighed_trx h₂ hthrow
  intro v₃ rows w₄ _ h₄
  -- What the transaction writes besides the order is in other tables.
  have hitems : ∀ x ∈ (Sql.eval v₃.seqs v₃.clock (.bulkInsertItems (lines order.id) itemsAt)
      (v₃.view p)).writes, x.table ≠ .orders := by
    intro x hx
    obtain ⟨row, rfl⟩ := Sql.mayWrite_of_mem hx
    simp [Write.table]
  have hcommit : ∀ {rest w₅}, (∀ x ∈ rest, x.table ≠ .orders) →
      Writing p ([.insertOrder order] ++ rest) orders calls w₅ →
      Weighed items p (do
        commit
        pure (order, rows) : Svc (OrderEntity × List OrderItemEntity)) Q met w₅ := by
    intro rest w₅ hrest h₅
    apply judged_do
    apply weighed_commit h₅ hthrow
    intro w₆ h₆
    rw [applyAll_append, orders_applyAll hrest, applyAll_cons, applyAll_nil] at h₆
    have horders : (engine.apply (.insertOrder order) w₅.store.db).orders = orders ++ [order] :=
      congrArg (· ++ [order]) h₅.orders
    rw [horders] at h₆
    exact hreturn order rows w₆ hinserted.2 h₆
  apply judged_do
  unfold onlyIf
  split_ifs with hplaced
  · apply weighed_trx h₄ hthrow
    intro v₄ _ w₅ _ h₅
    rw [List.append_assoc] at h₅
    refine hcommit (fun x hx => ?_) h₅
    rcases List.mem_append.mp hx with hx | hx
    · exact hitems x hx
    · obtain ⟨id, clock, rfl⟩ := Sql.mayWrite_of_mem hx
      simp [Write.table]
  · exact hcommit hitems h₄

/-- When the session cannot be opened, the update of the order is rejected and nothing is
released. -/
theorem weighed_openPayment {cfg : Config} {order : OrderEntity} {branchId : Nat}
    {stock : List ReserveStockItem} (h : Ended p orders calls w)
    {Q : Prop → Except Err OrderResponsePaymentInfo → World → Prop}
    (hthrow : ∀ e w', StockAt orders calls w' → Q False (.error e) w')
    (hreturn : ∀ a w', Ended p orders calls w' → Q met (.ok a) w') :
    Weighed items p (openPayment cfg order branchId stock) Q met w := by
  have hvoid : ∀ payErr w', Ended p orders calls w' → Weighed items p (do
      let _ ← updateOrderStatus order.publicId .cancelled .trx (some .cancelledAt)
      undoStock branchId stock
      throw payErr : Svc OrderResponsePaymentInfo) Q False w' := by
    intro payErr w' h'
    apply judged_do
    apply judged_do
    apply weighed_now
    intro cancelledAt
    apply judged_do
    apply judged_unasked fun _ _ => trivial
    intro e r w₂ _ hx
    have hclosed : ∀ log, w'.store.txn p ≠ .active log := by
      intro log heq
      rw [h'.txn] at heq
      cases heq
    obtain ⟨⟨err, rfl⟩, rfl⟩ := exec_trx_closed hclosed hx
    exact hthrow err _ h'.toStockAt
  have hfind : ∀ x, (Sql.findPaymentSessionByOrderId order.id).MayWrite x → x.table ≠ .orders :=
    fun x hx => absurd hx id
  unfold openPayment
  apply judged_catch
  unfold initializePaymentSession findPaymentSessionByOrderId
  apply judged_do
  apply judged_do
  apply weighed_pool h hfind hvoid
  intro existing w₁ h₁
  cases existing with
  | some session => exact hreturn _ w₁ h₁
  | none =>
    apply judged_do
    apply judged_perform
    intro e r w₂ _ hx
    rw [machine_exec] at hx
    have h₂ : Ended p orders calls w₂ :=
      h₁.of_same (exec_outer rfl hx).1 (exec_stockCalls hx rfl)
    simp only [exec, Option.some.injEq, Prod.mk.injEq] at hx
    by_cases hfail : e.fail = true
    · have hmet : (met ∧ StepsOutsideSucceed items p (.createSession (createSessionInput order)) e
          w₁) = False := by
        simp [StepsOutsideSucceed, hfail]
      rw [if_pos hfail] at hx
      rw [hmet, ← hx.1]
      exact hvoid _ w₂ h₂
    · have hmet : (met ∧ StepsOutsideSucceed items p (.createSession (createSessionInput order)) e
          w₁) = met := by
        simp [StepsOutsideSucceed, hfail]
      rw [if_neg hfail] at hx
      rw [hmet, ← hx.1]
      unfold createPaymentSession
      apply judged_do
      apply judged_do
      apply weighed_now
      intro createdAt
      apply weighed_pool h₂ ?_ hvoid
      · exact fun session w₄ h₄ => hreturn _ w₄ h₄
      · rintro x ⟨id, rfl⟩
        simp [Write.table]

end Placement

section Outcomes
variable {w w' : World} {orders : List OrderEntity} {calls : List StockCall} {branchId : Nat}
  {stock : List ReserveStockItem} {err : Err}

theorem stockCallsSince_eq (h : StockAt orders (w.stockCalls ++ calls) w') :
    stockCallsSince w w' = calls := by
  rw [stockCallsSince, h.calls, List.drop_left]

theorem ordersSince_eq (h : StockAt (w.store.db.orders ++ orders) calls w') :
    ordersSince w w' = orders := by
  rw [ordersSince, h.orders, List.drop_left]

theorem conserved_nothing (h : StockAt w.store.db.orders w.stockCalls w') :
    StockConserved w (.threw err, w') := by
  have hcalls : stockCallsSince w w' = [] := by
    rw [stockCallsSince, h.calls, List.drop_length]
  have horders : ordersSince w w' = [] := by
    rw [ordersSince, h.orders, List.drop_length]
  rw [StockConserved, hcalls, horders]
  exact ⟨rfl, fun o ho => by cases ho⟩

/-- What was reserved and not released: nothing but an empty order is conserved. -/
theorem conserved_unopened
    (h : StockAt w.store.db.orders (w.stockCalls ++ [.reserve branchId stock]) w') :
    StockConserved w (.threw err, w') ↔ stock = [] := by
  have horders : ordersSince w w' = [] := by
    rw [ordersSince, h.orders, List.drop_length]
  rw [StockConserved, stockCallsSince_eq h, horders]
  constructor
  · intro hconserved
    have hitems : ([] : List (Nat × ReserveStockItem)) = stock.map (branchId, ·) ++ [] :=
      hconserved.1
    rw [List.append_nil] at hitems
    exact List.map_eq_nil_iff.mp hitems.symm
  · rintro rfl
    exact ⟨rfl, fun o ho => by cases ho⟩

theorem conserved_released
    (h : StockAt w.store.db.orders
      (w.stockCalls ++ [.reserve branchId stock] ++ [.undo branchId stock]) w') :
    StockConserved w (.threw err, w') := by
  have horders : ordersSince w w' = [] := by
    rw [ordersSince, h.orders, List.drop_length]
  rw [List.append_assoc] at h
  rw [StockConserved, stockCallsSince_eq h, horders]
  refine ⟨?_, fun o ho => by cases ho⟩
  simp [releasedItems, reservedItems]

/-- An order that is alive stays behind. -/
theorem not_conserved_left {o : OrderEntity} (ho : o.status = .placed ∨ o.status = .pendingPayment)
    (h : StockAt (w.store.db.orders ++ [o]) calls w') : ¬StockConserved w (.threw err, w') := by
  intro hconserved
  have hcancelled := hconserved.2 o (by rw [ordersSince_eq h]; exact List.mem_singleton_self o)
  rw [hcancelled] at ho
  rcases ho with ho | ho <;> cases ho

theorem conserved_placed {o : OrderEntity} {r : OrderResponse}
    (ho : o.status = .placed ∨ o.status = .pendingPayment) (hr : r.publicId = o.publicId)
    (h : StockAt (w.store.db.orders ++ [o]) (w.stockCalls ++ [.reserve branchId stock]) w') :
    StockConserved w (.returned r, w') := by
  rw [StockConserved, stockCallsSince_eq h, ordersSince_eq h]
  refine ⟨rfl, o, List.mem_singleton_self o, hr.symm, fun hcancelled => ?_⟩
  rw [hcancelled] at ho
  rcases ho with ho | ho <;> cases ho

end Outcomes

section Result
variable {p : Pid} {w₀ w : World} {met : Prop}

/-- The verdict on the steps is the verdict on the stock. -/
def Agrees (w₀ : World) (met : Prop) : Except Err OrderResponse → World → Prop
  | .ok r, w => met ↔ StockConserved w₀ (.returned r, w)
  | .error e, w => met ↔ StockConserved w₀ (.threw e, w)

/-- From the reservation on. -/
theorem weighed_submitOrder {cfg : Config} {actor : ActorContext} {resolvedRegion : String}
    {branch : Branch} {address : CoreCustomerAddress} {products : List CoreBranchProduct}
    {dto : CreateOrderRequest} (h : StockAt w₀.store.db.orders w₀.stockCalls w) :
    Weighed dto.items p (submitOrder cfg actor resolvedRegion branch address products dto)
      (Agrees w₀) True w := by
  unfold submitOrder
  apply judged_do
  apply weighed_plain (calls_plain rfl) h fun _ _ => StockAt.of_same
  · exact fun e w' h' => iff_of_true trivial (conserved_nothing h')
  intro publicId w₁ h₁
  dsimp only
  generalize hstock : (dto.items.map fun i => (⟨i.productId, i.quantity⟩ : ReserveStockItem)) = stock
  have hempty : stock = [] ↔ dto.items = [] := by
    rw [← hstock, List.map_eq_nil_iff]
  apply judged_do
  apply judged_unasked fun _ _ => trivial
  intro e r w₂ _ hx
  rw [machine_exec] at hx
  simp only [exec] at hx
  split_ifs at hx with hfail <;> simp only [Option.some.injEq, Prod.mk.injEq] at hx <;>
    obtain ⟨rfl, rfl⟩ := hx
  · exact iff_of_true trivial (conserved_nothing h₁)
  generalize hw₂ : ({ w₁ with stockCalls := w₁.stockCalls ++ [.reserve dto.branchId stock] } : World)
    = w₂
  have h₂ : StockAt w₀.store.db.orders (w₀.stockCalls ++ [.reserve dto.branchId stock]) w₂ := by
    rw [← hw₂]
    exact ⟨h₁.orders, congrArg (· ++ [StockCall.reserve dto.branchId stock]) h₁.calls⟩
  apply judged_do
  apply judged_perform
  intro e r w₃ _ hx
  rw [machine_exec] at hx
  have h₃ : StockAt w₀.store.db.orders (w₀.stockCalls ++ [.reserve dto.branchId stock]) w₃ :=
    h₂.quiet hx rfl rfl
  simp only [exec] at hx
  split_ifs at hx with hfail <;> simp only [Option.some.injEq, Prod.mk.injEq] at hx <;>
    obtain ⟨rfl, rfl⟩ := hx
  · -- The transaction could not be opened.
    have hmet : (True ∧ StepsOutsideSucceed dto.items p .start e w₂) ↔ dto.items = [] := by
      simp [StepsOutsideSucceed, hfail]
    exact hmet.trans (hempty.symm.trans (conserved_unopened h₃).symm)
  have hmet : (True ∧ StepsOutsideSucceed dto.items p .start e w₂) = True := by
    simp [StepsOutsideSucceed, hfail]
  rw [hmet]
  have hopen : Writing p [] w₀.store.db.orders (w₀.stockCalls ++ [.reserve dto.branchId stock])
      { w₂ with store := w₂.store.start p } := ⟨h₃, World.start_txn w₂ p⟩
  apply judged_do
  apply judged_catch
  apply weighed_insertOrder hopen
  · exact fun err w₄ h₄ => weighed_release h₄ fun w₅ h₅ =>
      iff_of_true trivial (conserved_released h₅)
  intro order rows w₄ hstatus h₄
  have halive : order.status = .placed ∨ order.status = .pendingPayment := by
    rw [hstatus]
    exact placedOrderData_status actor resolvedRegion branch address dto publicId _
  have hlate : ∀ payment w₅, Ended p (w₀.store.db.orders ++ [order])
      (w₀.stockCalls ++ [.reserve dto.branchId stock]) w₅ → Weighed dto.items p (do
        let _ ← cache (.del (.restaurantOrders resolvedRegion branch.id))
        onlyIf (dto.paymentMethod = .cod) (emit (.branch branch.id) .orderCreated order.publicId)
        pure (.ofOrder order rows payment) : Svc OrderResponse) (Agrees w₀) True w₅ := by
    intro payment w₅ h₅
    apply judged_do
    apply judged_perform
    intro e r w₆ _ hx
    rw [machine_exec] at hx
    have h₆ : StockAt (w₀.store.db.orders ++ [order])
        (w₀.stockCalls ++ [.reserve dto.branchId stock]) w₆ := h₅.toStockAt.quiet hx rfl rfl
    simp only [exec] at hx
    split_ifs at hx with hfail <;> simp only [Option.some.injEq, Prod.mk.injEq] at hx <;>
      obtain ⟨rfl, rfl⟩ := hx
    · refine iff_of_false (fun hmet => ?_) (not_conserved_left halive h₆)
      simp [StepsOutsideSucceed, hfail] at hmet
    have hmet : (True ∧ StepsOutsideSucceed dto.items p
        (.cache (.del (.restaurantOrders resolvedRegion branch.id))) e w₅) = True := by
      simp [StepsOutsideSucceed, hfail]
    rw [hmet]
    have hplaced : ∀ {w₇}, StockAt (w₀.store.db.orders ++ [order])
        (w₀.stockCalls ++ [.reserve dto.branchId stock]) w₇ →
        Agrees w₀ True (.ok (.ofOrder order rows payment)) w₇ :=
      fun h₇ => iff_of_true trivial (conserved_placed halive rfl h₇)
    apply judged_do
    unfold onlyIf
    split_ifs
    · apply judged_unasked fun _ _ => trivial
      intro e r w₇ _ hx
      rw [machine_exec] at hx
      have h₇ := h₆.quiet hx rfl rfl
      simp only [exec, Option.some.injEq, Prod.mk.injEq] at hx
      rw [← hx.1]
      exact hplaced h₇
    · exact hplaced h₆
  apply judged_do
  unfold paymentData
  split_ifs with honline
  · apply judged_do
    apply weighed_openPayment h₄
    · exact fun err w₅ h₅ => iff_of_false id (not_conserved_left halive h₅)
    · exact fun info w₅ h₅ => hlate (some info) w₅ h₅
  · exact hlate none w₄ h₄

theorem weighed_placeOrder {cfg : Config} {actor : ActorContext} {region : Option String}
    {dto : CreateOrderRequest} (h : StockAt w₀.store.db.orders w₀.stockCalls w) :
    Weighed dto.items p (placeOrder cfg actor region dto) (Agrees w₀) True w := by
  have hrefused : ∀ {e w'}, StockAt w₀.store.db.orders w₀.stockCalls w' →
      Agrees w₀ True (.error e) w' := fun h' => iff_of_true trivial (conserved_nothing h')
  unfold placeOrder
  apply judged_do
  apply weighed_plain (calls_plain rfl) h fun _ _ => StockAt.of_same
  · exact fun e w' h' => hrefused h'
  intro branch w₁ h₁
  dsimp only
  split_ifs
  · exact hrefused h₁
  apply judged_do
  apply weighed_plain (calls_plain rfl) h₁ fun _ _ => StockAt.of_same
  · exact fun e w' h' => hrefused h'
  intro flag w₂ h₂
  dsimp only
  split_ifs
  · exact hrefused h₂
  apply judged_do
  cases assertRegion cfg (region.getD branch.region) with
  | error e => exact hrefused h₂
  | ok resolvedRegion =>
  change Weighed dto.items p _ (Agrees w₀) True w₂
  split_ifs
  · exact hrefused h₂
  apply judged_do
  apply weighed_plain (calls_plain rfl) h₂ fun _ _ => StockAt.of_same
  · exact fun e w' h' => hrefused h'
  intro address w₃ h₃
  dsimp only
  split_ifs
  · exact hrefused h₃
  apply judged_do
  apply weighed_plain (calls_plain rfl) h₃ fun _ _ => StockAt.of_same
  · exact fun e w' h' => hrefused h'
  intro products w₄ h₄
  dsimp only
  split_ifs
  · exact hrefused h₄
  · exact weighed_submitOrder h₄
  · exact hrefused h₄

/-- While core performs every release: a placement conserves the stock if and only if its process
dies before it ends or all of its steps outside the transaction of the order succeed. -/
theorem stock_conserved_iff (cfg : Config) (actor : ActorContext) (region : Option String)
    (dto : CreateOrderRequest) (w : World) (p : Pid) (es : List Env)
    (hundo : RunMeets machine undoSucceeds (fun _ => True) p (placeOrder cfg actor region dto) es w) :
    StockConserved w (machine.runAlone p (placeOrder cfg actor region dto) es w) ↔
      (machine.runAlone p (placeOrder cfg actor region dto) es w).1 = .crashed ∨
        RunMeets machine (StepsOutsideSucceed dto.items) (fun _ => True) p
          (placeOrder cfg actor region dto) es w := by
  have hsound := judged_sound (weighed_placeOrder ⟨rfl, rfl⟩) hundo
  cases hrun : machine.runAlone p (placeOrder cfg actor region dto) es w with
  | mk outcome w' =>
    rw [hrun] at hsound
    cases outcome with
    | returned r =>
      rw [true_and] at hsound
      exact hsound.symm.trans (or_iff_right (by simp)).symm
    | threw e =>
      rw [true_and] at hsound
      exact hsound.symm.trans (or_iff_right (by simp)).symm
    | crashed => exact iff_of_true trivial (.inl rfl)

/-- A customer who pays for one dish online. -/
def onlineOrder : Svc OrderResponse :=
  placeOrder sampleConfig ⟨5, .other "customer", none, none, none⟩ (some "eg")
    ⟨1, 1, .online, [⟨3, 1⟩]⟩

/-- All answers are good but the one after `n` of them. -/
def failingAt (n : Nat) : List Env :=
  List.replicate n kosharyAnswers ++ [{ kosharyAnswers with fail := true }]
    ++ List.replicate 4 kosharyAnswers

/-- The insert of the items fails. -/
theorem stock_conserved_items :
    StockConserved emptyShard (machine.runAlone 0 onlineOrder (failingAt 10) emptyShard) :=
  (stock_conserved_iff sampleConfig ⟨5, .other "customer", none, none, none⟩ (some "eg")
    ⟨1, 1, .online, [⟨3, 1⟩]⟩ emptyShard 0 (failingAt 10) (by decide +kernel)).mpr
      (.inr (by decide +kernel))

/-- Kashier does not open the session: the customer is told of the error, the order stays open
and the stock reserved. -/
theorem stock_kept_session_failed :
    let run := machine.runAlone 0 onlineOrder (failingAt 13) emptyShard
    (reservedItems run.2.stockCalls, releasedItems run.2.stockCalls) = ([(1, ⟨3, 1⟩)], []) ∧
      run.2.store.db.orders.map OrderEntity.status = [.pendingPayment] ∧
      ¬StockConserved emptyShard run := by
  intro run
  have horders : run.2.store.db.orders.map OrderEntity.status = [.pendingPayment] := by
    decide +kernel
  have hthrew : run.1.isReturned = false ∧ run.1.isCrashed = false := by decide +kernel
  refine ⟨by decide +kernel, horders, fun hconserved => ?_⟩
  obtain ⟨o, ho, hstatus⟩ := List.map_eq_singleton_iff.mp horders
  obtain ⟨outcome, w'⟩ := run
  cases outcome with
  | threw e =>
    have hmem : o ∈ ordersSince emptyShard w' := by
      rw [ordersSince, ho]
      exact List.mem_singleton_self o
    have hcancelled := hconserved.2 o hmem
    rw [hstatus] at hcancelled
    cases hcancelled
  | returned r => cases hthrew.1
  | crashed => cases hthrew.2

end Result

end OrderService
