import OrderService.Effects
import OrderService.Services.DeliveryLifecycle

/-! What a delivery can write and what it takes from its environment. -/
namespace OrderService
open ReadCommitted Interleaving

section Calls
variable {P : Op → Prop} {R : (o : Op) → o.Res → Prop}

theorem calls_any {o : Op} (hP : P o) :
    (Prog.perform o : Svc o.Res).Calls P R fun _ => True :=
  Prog.calls_perform hP fun _ _ => trivial

theorem calls_sql {c : Conn} {q : Sql} {Q : q.Res → Prop} (hq : P (.sql c q))
    (hQ : ∀ r, R (.sql c q) r → Q r) : (sql c q).Calls P R Q :=
  Prog.calls_perform hq hQ

theorem calls_now {Q : Time → Prop} (ho : P .now) (hQ : ∀ t, Q t) : now.Calls P R Q :=
  Prog.calls_perform ho fun t _ => hQ t

theorem calls_toEntity {α : Type} {row : Option α} {Q : α → Prop} (h : ∀ a, row = some a → Q a) :
    (toEntity row).Calls P R Q := by
  cases row with
  | none => trivial
  | some a => exact h a rfl

theorem calls_emitDeliveryStatus {order : OrderEntity} (hP : ∀ m, P (.emit m)) :
    (emitDeliveryStatus order).Calls P R fun _ => True :=
  Prog.calls_do (calls_any (hP _)) fun _ _ => calls_any (hP _)

end Calls

/-- The writes of a settlement of `order`, delivered by `agentId`, when the commission rate that
core answered satisfies `rate`. -/
inductive SettlementWrite (order : OrderEntity) (agentId : Nat) (rate : Int → Prop) :
    Write → Prop
  | cod (id : Nat) (now : Time) :
      SettlementWrite order agentId rate (.insertTransaction ((codCollection order).toEntity id now))
  | codPaid (id : Nat) (now : Time) :
      SettlementWrite order agentId rate (.setTransactionStatus id .succeeded now)
  | commission (bps : Int) (id : Nat) (now : Time) : rate bps →
      SettlementWrite order agentId rate (.insertTransaction
        ((commissionTransfer order (bpsOf order.subtotal bps)).toEntity id now))
  | serviceFee (id : Nat) (now : Time) :
      SettlementWrite order agentId rate
        (.insertTransaction ((serviceFeeTransfer order).toEntity id now))
  | deliveryFee (id : Nat) (now : Time) :
      SettlementWrite order agentId rate
        (.insertTransaction ((deliveryFeeTransfer order).toEntity id now))
  | credit (bps : Int) : rate bps → SettlementWrite order agentId rate
      (.addBalance order.restaurantId order.region order.currency
        (order.subtotal - bpsOf order.subtotal bps))
  | earning (row : AgentEarningEntity) : row.orderId = order.id → row.agentId = agentId →
      SettlementWrite order agentId rate (.insertEarning row)
  | event (row : OutboxRow) : row.aggregateId = order.publicId →
      SettlementWrite order agentId rate (.insertOutbox row)

section Settlement
variable {P : Op → Prop} {R : (o : Op) → o.Res → Prop} {order : OrderEntity} {agentId : Nat}
  {rate : Int → Prop} {c : Conn}

theorem calls_fetchCommissionBps {branchId : Nat} (hP : P (.getBranch branchId))
    (hR : ∀ branch, R (.getBranch branchId) branch → rate (branch.commissionBps.getD 0))
    (hzero : rate 0) : (fetchCommissionBps branchId).Calls P R rate := by
  apply Prog.calls_catch
  · exact Prog.calls_do (Prog.calls_perform hP fun branch hb => hR branch hb) fun branch hb => hb
  · exact fun _ => hzero

theorem calls_createTransaction {data : TransactionData} (hnow : P .now)
    (hsql : ∀ now, P (.sql c (.createTransaction data now))) :
    (createTransaction data c).Calls P R fun _ => True := by
  apply Prog.calls_do (calls_now hnow fun _ => trivial)
  intro now _
  apply Prog.calls_do (calls_sql (hsql now) fun _ _ => trivial)
  exact fun row _ => calls_toEntity fun _ _ => trivial

theorem calls_onlyIf {cond : Prop} [Decidable cond] {body : Svc Unit}
    (h : body.Calls P R fun _ => True) : (onlyIf cond body).Calls P R fun _ => True := by
  unfold onlyIf
  split_ifs
  · exact h
  · trivial

variable (hsql : ∀ q : Sql, (∀ x, q.MayWrite x → SettlementWrite order agentId rate x) →
  P (.sql c q))
include hsql

theorem calls_creditRestaurant {bps : Int} (hbps : rate bps) :
    (creditRestaurant order (order.subtotal - bpsOf order.subtotal bps) c).Calls P R
      fun _ => True := by
  apply Prog.calls_do (calls_sql (hsql _ fun x hx => absurd hx id) fun _ _ => trivial)
  intro balance _
  apply calls_sql (hsql _ ?_) fun _ _ => trivial
  rintro x rfl
  exact .credit bps hbps

theorem calls_recordEarning {amount : Int} :
    (recordEarning order agentId amount c).Calls P R fun _ => True := by
  apply Prog.calls_discard _ trivial
  · exact fun _ => True
  apply Prog.calls_do (calls_sql (hsql _ ?_) fun _ _ => trivial)
  · intro row _
    cases row with
    | some e => trivial
    | none =>
      apply Prog.calls_do (calls_sql (hsql _ fun x hx => absurd hx id) fun _ _ => trivial)
      intro existing _
      cases existing <;> trivial
  · rintro x ⟨id, clock, rfl⟩
    exact .earning _ rfl rfl

variable (hnow : P .now)
include hnow

theorem calls_collectCod : (collectCod order c).Calls P R fun _ => True := by
  apply Prog.calls_do (calls_sql (hsql _ fun x hx => absurd hx id) fun _ _ => trivial)
  intro existing _
  cases existing with
  | none =>
    refine Prog.calls_discard (calls_createTransaction hnow fun now => hsql _ ?_) trivial
    rintro x ⟨id, rfl⟩
    exact .cod id now
  | some t =>
    dsimp only
    split_ifs
    · refine Prog.calls_discard (Q := fun _ => True) ?_ trivial
      apply Prog.calls_do (calls_now hnow fun _ => trivial)
      intro now _
      apply Prog.calls_do (calls_sql (hsql _ ?_) fun _ _ => trivial)
      · exact fun row _ => calls_toEntity fun _ _ => trivial
      · rintro x rfl
        exact .codPaid t.id now
    · trivial

theorem calls_bookTransfer {transfer : TransactionData}
    (hwrite : ∀ id now, SettlementWrite order agentId rate
      (.insertTransaction (transfer.toEntity id now))) :
    (bookTransfer order transfer c).Calls P R fun _ => True := by
  apply Prog.calls_do (calls_sql (hsql _ fun x hx => absurd hx id) fun _ _ => trivial)
  intro existing _
  cases existing with
  | none =>
    refine Prog.calls_discard (calls_createTransaction hnow fun now => hsql _ ?_) trivial
    rintro x ⟨id, rfl⟩
    exact hwrite id now
  | some t => trivial

omit hsql hnow in
/-- A settlement performs nothing but its own writes, the lookups before them, one request to
core and one look at the clock for each row. -/
theorem calls_settleDeliveredOrder (rate : Int → Prop)
    (hsql : ∀ q : Sql, (∀ x, q.MayWrite x → SettlementWrite order agentId rate x) → P (.sql c q))
    (cfg : Config) (hnow : P .now) (hbranch : P (.getBranch order.branchId))
    (hR : ∀ branch, R (.getBranch order.branchId) branch → rate (branch.commissionBps.getD 0))
    (hzero : rate 0) : (settleDeliveredOrder cfg order agentId c).Calls P R fun _ => True := by
  apply Prog.calls_do (calls_fetchCommissionBps hbranch hR hzero)
  intro bps hbps
  apply Prog.calls_do (calls_onlyIf (calls_collectCod hsql hnow))
  intro _ _
  apply Prog.calls_do
    (calls_onlyIf (calls_bookTransfer hsql hnow fun id now => .commission bps id now hbps))
  intro _ _
  apply Prog.calls_do
    (calls_onlyIf (calls_bookTransfer hsql hnow fun id now => .serviceFee id now))
  intro _ _
  apply Prog.calls_do
    (calls_onlyIf (calls_bookTransfer hsql hnow fun id now => .deliveryFee id now))
  intro _ _
  apply Prog.calls_do (calls_onlyIf (calls_creditRestaurant hsql hbps))
  intro _ _
  apply Prog.calls_do (calls_onlyIf (calls_recordEarning hsql))
  intro _ _
  apply Prog.calls_do (calls_now hnow fun _ => trivial)
  intro now _
  refine Prog.calls_discard (calls_sql (hsql _ ?_) fun _ _ => trivial) trivial
  rintro x ⟨id, clock, rfl⟩
  exact .event _ rfl

end Settlement

section Delivery
variable {H : Write → Prop} {R : (o : Op) → o.Res → Prop} (good : OrderEntity → Prop)
  (rate : Int → Prop) {agentId : Nat} {order : OrderEntity}
  -- what a delivery of an order that satisfies `good` may write
  (hstatus : ∀ publicId status stamp now, H (.setOrderStatus publicId status stamp now))
  (hrow : ∀ c publicId status stamp now row, R (.sql c (.updateOrderStatus publicId status stamp
    now)) row → ∀ o, row = some o → good o)
  (hsettle : ∀ o x, good o → SettlementWrite o agentId rate x → H x)
  (hbranch : ∀ b branch, R (.getBranch b) branch → rate (branch.commissionBps.getD 0))
  (hzero : rate 0)
include hstatus

theorem calls_updateOrderStatus {publicId : String} {status : OrderStatus} {c : Conn}
    {stamp : Option Stamp} (hrow : ∀ now row, R (.sql c (.updateOrderStatus publicId status stamp
      now)) row → ∀ o, row = some o → good o) :
    (updateOrderStatus publicId status c stamp).Calls (Op.Harmless H) R good := by
  apply Prog.calls_do (calls_now trivial fun _ => trivial)
  intro now _
  apply Prog.calls_do (calls_sql (fun x hx => by rw [hx]; exact hstatus _ _ _ _) fun row hr => hr)
  exact fun row hr => calls_toEntity (hrow now row hr)

theorem calls_pickup : (pickup order).Calls (Op.Harmless H) R fun _ => True := by
  unfold pickup
  split_ifs
  · trivial
  apply Prog.calls_do (calls_updateOrderStatus (fun _ => True) hstatus
    fun _ _ _ _ _ => trivial)
  intro updated _
  exact Prog.calls_discard (calls_emitDeliveryStatus fun _ => trivial) trivial

include hrow hsettle hbranch hzero

theorem calls_deliver (cfg : Config) (region : String) :
    (deliver cfg order agentId region).Calls (Op.Harmless H) R fun _ => True := by
  unfold deliver
  split_ifs
  · trivial
  apply Prog.calls_do (calls_any trivial)
  intro _ _
  apply Prog.calls_catch
  · apply Prog.calls_do (calls_updateOrderStatus good hstatus (hrow _ _ _ _))
    intro updated hgood
    apply Prog.calls_do (calls_settleDeliveredOrder rate
      (fun q hq x hx => hsettle updated x hgood (hq x hx)) cfg trivial trivial
      (fun branch hb => hbranch _ branch hb) hzero)
    intro _ _
    apply Prog.calls_do (calls_any trivial)
    intro _ _
    apply Prog.calls_do (calls_any trivial)
    intro _ _
    apply Prog.calls_do (calls_emitDeliveryStatus fun _ => trivial)
    intro _ _
    exact Prog.calls_discard (calls_any trivial) trivial
  · exact fun _ => Prog.calls_do (calls_any trivial) fun _ _ => trivial

/-- An agent writes statuses, and settles what is delivered. -/
theorem calls_agentUpdateStatus (cfg : Config) (publicId region : String)
    (action : DeliveryAction) : (agentUpdateStatus cfg publicId agentId region action).Calls
      (Op.Harmless H) R fun _ => True := by
  apply Prog.calls_do (calls_sql (fun x hx => absurd hx id) fun _ _ => trivial)
  intro found _
  cases found with
  | none => trivial
  | some order =>
    dsimp only
    split_ifs
    · trivial
    cases action with
    | picked => exact calls_pickup hstatus
    | delivered => exact calls_deliver good rate hstatus hrow hsettle hbranch hzero cfg region
    | _ => trivial

end Delivery

end OrderService
