import OrderService.DeliveredSettled

/-! Placing an order only adds rows: when its payment cannot be opened, the update that should void
the order comes after the transaction and is rejected. -/
namespace OrderService
open ReadCommitted Interleaving

section Closed
variable {I : Db → List (Pid × List Write) → Prop} {ok : Pid → Op → Env → World → Prop}
  {p : Pid} {w : World} {H : Write → Prop} {α : Type}

/-- No transaction is opened, and the statements on the pool write within `H`. -/
def Op.Pooled (H : Write → Prop) : Op → Prop
  | .sql .pool q => ∀ x, q.MayWrite x → H x
  | .start => False
  | _ => True

theorem log_of_inactive (h : ∀ log, w.store.txn p ≠ .active log) : w.log p = [] := by
  rw [World.log]
  cases htxn : w.store.txn p with
  | active log => exact absurd htxn (h log)
  | _ => rfl

/-- Only `start` makes a transaction active. -/
theorem inactive_exec {o : Op} {e : Env} {w' : World} {r : Except Err o.Res} (ho : o.Pooled H)
    (hclosed : ∀ log, w.store.txn p ≠ .active log) (hx : exec p o e w = some (r, w')) :
    ∀ log, w'.store.txn p ≠ .active log := by
  have hs := exec_store hx
  have hsame : w'.store.txn p = w.store.txn p → ∀ log, w'.store.txn p ≠ .active log := by
    intro heq log
    rw [heq]
    exact hclosed log
  have hended : w'.store = w.store.rollback p → ∀ log, w'.store.txn p ≠ .active log := by
    intro heq log
    rw [heq]
    simp [Store.rollback]
  cases o with
  | sql c q =>
    cases c with
    | pool =>
      rcases hs with hs | ⟨a, hs⟩
      · exact hsame (by rw [hs])
      · obtain ⟨_, _, hs⟩ := autocommit_cases hs
        exact hsame (by rw [hs])
    | trx => exact hsame (by rw [(exec_trx_closed hclosed hx).2])
  | commit =>
    rcases hs with hs | hs | hs
    · exact hended hs
    · exact hsame (by rw [hs])
    · obtain ⟨log, hactive, _⟩ := commit_cases hs
      exact absurd hactive (hclosed log)
  | start => exact absurd ho id
  | rollback => exact hended hs
  | _ => exact hsame (by rw [hs])

/-- Outside a transaction only a statement on the pool can write. -/
theorem pooled_exec (hI : KeptBy I p H) {o : Op} {e : Env} {w' : World} {r : Except Err o.Res}
    (ho : o.Pooled H) (hclosed : ∀ log, w.store.txn p ≠ .active log)
    (hx : exec p o e w = some (r, w')) (hi : (sharedSpec I).inv w) : (sharedSpec I).inv w' := by
  by_cases htrx : ∃ q, o = .sql .trx q
  · obtain ⟨q, rfl⟩ := htrx
    rw [(exec_trx_closed hclosed hx).2]
    exact hi
  · refine inv_exec hI hx ?_ ?_ hi
    · cases o with
      | sql c q =>
        cases c with
        | pool => exact ho
        | trx => exact absurd ⟨q, rfl⟩ htrx
      | _ => trivial
    · rw [log_of_inactive hclosed]
      exact fun x hx => absurd hx List.not_mem_nil

/-- After its transaction a call writes on the pool alone. -/
theorem wp_pooled (hI : KeptBy I p H) {prog : Svc α}
    (hc : prog.Calls (Op.Pooled H) (fun _ _ => True) fun _ => True)
    (hclosed : ∀ log, w.store.txn p ≠ .active log) :
    wp machine ok (sharedSpec I) p prog (OnOk fun _ _ => True) w := by
  induction prog generalizing w with
  | pure a => trivial
  | throw e => trivial
  | op o k ih =>
    intro w₁ hr hi e r w₂ _ hx
    rw [machine_exec] at hx
    have hclosed₁ : ∀ log, w₁.store.txn p ≠ .active log := by
      intro log
      rw [hr.1.txn]
      exact hclosed log
    refine ⟨pooled_exec hI hc.1 hclosed₁ hx hi,
      (sharedSpec_isolated I p).guarantee o e w₁ r w₂ hi hx, ih r ?_ ?_⟩
    · cases r with
      | error err => exact hc.2.1 err
      | ok a => exact hc.2.2 a trivial
    · exact inactive_exec hc.1 hclosed₁ hx

/-- The update that should void the order finds the transaction completed. -/
theorem calls_openPayment (hsession : ∀ row, H (.insertSession row)) {cfg : Config}
    {order : OrderEntity} {branchId : Nat} {stock : List ReserveStockItem} :
    (openPayment cfg order branchId stock).Calls (Op.Pooled H) (fun _ _ => True)
      fun _ => True := by
  have hnow : Op.now.Pooled H := trivial
  have hfind : Op.Pooled H (.sql .pool (.findPaymentSessionByOrderId order.id)) :=
    fun x hx => absurd hx id
  refine Prog.calls_catch ?_ fun err => ?_
  · apply Prog.calls_do (Q := fun _ => True)
    · apply Prog.calls_do (calls_sql hfind fun _ _ => trivial)
      intro existing _
      cases existing with
      | some session => trivial
      | none =>
        apply Prog.calls_do (Prog.calls_perform trivial fun _ _ => trivial)
        intro result _
        apply Prog.calls_do (Q := fun _ => True)
        · apply Prog.calls_do (calls_now hnow fun _ => trivial)
          intro now _
          refine calls_sql ?_ fun _ _ => trivial
          rintro x ⟨id, rfl⟩
          exact hsession _
        · exact fun _ _ => trivial
    · exact fun _ _ => trivial
  · have htrx : ∀ q, Op.Pooled H (.sql .trx q) := fun q => trivial
    apply Prog.calls_do (Q := fun _ => True)
    · apply Prog.calls_do (calls_now hnow fun _ => trivial)
      intro now _
      apply Prog.calls_do (calls_sql (htrx _) fun _ _ => trivial)
      exact fun row _ => calls_toEntity fun _ _ => trivial
    · intro _ _
      apply Prog.calls_do (Q := fun _ => True)
      · exact Prog.calls_catch (Prog.calls_perform trivial fun _ _ => trivial) fun _ => trivial
      · exact fun _ _ => trivial

/-- What follows the transaction of a placement. -/
theorem calls_afterPlacement (hsession : ∀ row, H (.insertSession row)) {cfg : Config}
    {dto : CreateOrderRequest} {placed : OrderEntity × List OrderItemEntity}
    {stock : List ReserveStockItem} {region : String} {branchId : Nat} :
    (do
      let payment ← paymentData cfg dto placed.1 stock
      let _ ← cache (.del (.restaurantOrders region branchId))
      onlyIf (dto.paymentMethod = .cod) (emit (.branch branchId) .orderCreated placed.1.publicId)
      pure (.ofOrder placed.1 placed.2 payment) : Svc OrderResponse).Calls (Op.Pooled H)
      (fun _ _ => True) fun _ => True := by
  apply Prog.calls_do (Q := fun _ => True)
  · unfold paymentData
    split_ifs
    · exact Prog.calls_do (calls_openPayment hsession) fun _ _ => trivial
    · trivial
  · intro payment _
    apply Prog.calls_do (Prog.calls_perform trivial fun _ _ => trivial)
    intro _ _
    apply Prog.calls_do (calls_onlyIf (Prog.calls_perform trivial fun _ _ => trivial))
    exact fun _ _ => trivial

end Closed

section Placement
variable {I : Db → List (Pid × List Write) → Prop} {ok : Pid → Op → Env → World → Prop}
  {p : Pid} {w : World} {H : Write → Prop}

/-- The rows that a placement inserts. Whether an order is placed at once goes by how it is
paid. -/
structure InsertsOnly (H : Write → Prop) : Prop where
  order : ∀ (d : OrderData) id ownerId now,
    d.status = (if d.paymentMethod = .cod then .placed else .pendingPayment) →
    H (.insertOrder (d.toEntity id ownerId now))
  item : ∀ row, H (.insertOrderItem row)
  event : ∀ row, row.eventType = .orderPlaced → H (.insertOutbox row)
  session : ∀ row, H (.insertSession row)

/-- A part of the open transaction that writes within `H`. -/
theorem wp_appending {α : Type} {prog : Svc α} {log : List Write}
    (hc : prog.Calls (Op.Appends H) (fun _ _ => True) fun _ => True)
    (htxn : w.store.txn p = .active log) (hlog : ∀ x ∈ log, H x) {P : α → World → Prop}
    (hP : ∀ a log' v, (∀ x ∈ log', H x) → v.store.txn p = .active log' → P a v) :
    wp machine ok (sharedSpec I) p prog (OnOk P) w := by
  refine wp_mono ?_ (wp_appends (F := fun _ => True) (sharedSpec_isolated I p)
    (fun _ ho => ho) hc (fun _ _ _ _ => trivial)
    (fun _ _ _ _ _ _ _ _ _ _ => ⟨trivial, fun _ _ => trivial⟩) htxn trivial)
  rintro (err | a) v ⟨-, -, ws, hactive, hws⟩
  · trivial
  · refine hP a (log ++ ws) v (fun x hx => ?_) hactive
    rcases List.mem_append.mp hx with hx | hx
    · exact hlog x hx
    · exact hws x hx

/-- A placement does what its insert does: before it nothing is written, and after it only the
payment session is. -/
theorem wp_submitOrder_of (hI : KeptBy I p H) (hsession : ∀ row, H (.insertSession row))
    {cfg : Config} {actor : ActorContext} {resolvedRegion : String} {branch : Branch}
    {address : CoreCustomerAddress} {products : List CoreBranchProduct} {dto : CreateOrderRequest}
    (hinsert : ∀ publicId subtotal lines v, v.store.txn p = .active [] →
      wp machine ok (sharedSpec I) p (insertOrder (placedOrderData actor resolvedRegion branch
        address dto publicId subtotal) lines)
        (OnOk fun _ v' => ∀ log, v'.store.txn p ≠ .active log) v) :
    wp machine ok (sharedSpec I) p
      (submitOrder cfg actor resolvedRegion branch address products dto)
      (OnOk fun _ _ => True) w := by
  have hS := sharedSpec_isolated I p
  unfold submitOrder
  apply wp_seq
  apply wp_outer_ok hS rfl
  intro _ _ publicId _ _ _ _ _ _ _ _ _
  apply wp_seq
  apply wp_outer_ok hS rfl
  intro _ _ _ _ _ _ _ _ _ _ _ _
  apply wp_seq
  apply wp_start_ok hS
  intro v₁ _ _ _
  apply wp_seq
  refine wp_catch (wp_mono ?_ (hinsert publicId _ _ _ (World.start_txn v₁ p)))
  rintro (err | placed) v₂ hclosed
  · apply wp_seq
    apply wp_rollback hS
    intro v₃ _ _ _
    apply wp_seq
    apply wp_outside hS _ fun _ _ => trivial
    exact Prog.calls_catch (calls_outer rfl) fun _ => trivial
  · exact wp_pooled hI (calls_afterPlacement hsession) hclosed

theorem wp_placeOrder_of {cfg : Config} {actor : ActorContext} {region : Option String}
    {dto : CreateOrderRequest} (hsubmit : ∀ resolvedRegion branch address products v,
      wp machine ok (sharedSpec I) p
        (submitOrder cfg actor resolvedRegion branch address products dto)
        (OnOk fun _ _ => True) v) :
    wp machine ok (sharedSpec I) p (placeOrder cfg actor region dto) (OnOk fun _ _ => True) w := by
  have hS := sharedSpec_isolated I p
  unfold placeOrder
  apply wp_seq
  apply wp_outside hS (calls_outer rfl)
  intro branch v₁
  split_ifs
  · trivial
  apply wp_seq
  apply wp_outside hS (calls_outer rfl)
  intro flag v₂
  split_ifs
  · trivial
  apply wp_seq
  apply wp_fromExcept
  intro resolved _
  split_ifs
  · trivial
  apply wp_seq
  apply wp_outside hS (calls_outer rfl)
  intro address v₃
  split_ifs
  · trivial
  apply wp_seq
  apply wp_outside hS (calls_outer rfl)
  intro products v₄
  split_ifs
  · trivial
  · exact hsubmit _ _ _ _ _
  · trivial

variable (hH : InsertsOnly H) (hI : KeptBy I p H)
include hH hI

theorem wp_insertOrder {data : OrderData} {lines : Nat → List OrderItemData}
    (hdata : data.status = (if data.paymentMethod = .cod then .placed else .pendingPayment))
    (htxn : w.store.txn p = .active []) {P : OrderEntity × List OrderItemEntity → World → Prop}
    (hP : ∀ a v, (∀ log, v.store.txn p ≠ .active log) → P a v) :
    wp machine ok (sharedSpec I) p (insertOrder data lines) (OnOk P) w := by
  have hnow : Op.now.Appends H := rfl
  have hcreate : (createOrder data .trx).Calls (Op.Appends H) (fun _ _ => True) fun _ => True := by
    apply Prog.calls_do (calls_now hnow fun _ => trivial)
    intro now _
    refine calls_sql ?_ fun _ _ => trivial
    rintro x ⟨id, ownerId, _, rfl⟩
    exact hH.order data id ownerId now hdata
  have hitems : ∀ lines, (bulkInsertItems lines .trx).Calls (Op.Appends H) (fun _ _ => True)
      fun _ => True := by
    intro lines
    apply Prog.calls_do (calls_now hnow fun _ => trivial)
    intro now _
    refine calls_sql ?_ fun _ _ => trivial
    rintro x ⟨row, rfl⟩
    exact hH.item row
  have hevent : ∀ order items, (onlyIf (order.status = .placed)
      (insertOutboxEvent .trx (orderPlacedEvent order items))).Calls (Op.Appends H)
        (fun _ _ => True) fun _ => True := by
    intro order items
    apply calls_onlyIf
    refine calls_sql ?_ fun _ _ => trivial
    rintro x ⟨id, clock, rfl⟩
    exact hH.event _ rfl
  unfold insertOrder
  apply wp_seq
  apply wp_appending hcreate htxn fun x hx => absurd hx List.not_mem_nil
  intro order log₁ v₁ hlog₁ htxn₁
  apply wp_seq
  apply wp_appending (hitems _) htxn₁ hlog₁
  intro items log₂ v₂ hlog₂ htxn₂
  apply wp_seq
  apply wp_appending (hevent order items) htxn₂ hlog₂
  intro _ log₃ v₃ hlog₃ htxn₃
  apply wp_seq
  apply wp_commit_shared htxn₃
  intro v₄ _ hi₄ _
  refine ⟨hI _ _ _ hi₄.2 hlog₃, hP _ _ fun log => ?_⟩
  simp [World.committed]

/-- Whatever it is told and whenever it fails, a placement commits inserts alone. -/
theorem wp_placeOrder {cfg : Config} {actor : ActorContext} {region : Option String}
    {dto : CreateOrderRequest} :
    wp machine ok (sharedSpec I) p (placeOrder cfg actor region dto) (OnOk fun _ _ => True) w :=
  wp_placeOrder_of fun _ _ _ _ _ => wp_submitOrder_of hI hH.session fun _ _ _ _ htxn =>
    wp_insertOrder hH hI rfl htxn fun _ _ hclosed => hclosed

end Placement

end OrderService
