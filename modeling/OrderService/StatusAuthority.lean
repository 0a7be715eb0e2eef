import OrderService.OutboxLoss

/-! Who can change an order through `OrderService.updateStatus`. -/
namespace OrderService
open ReadCommitted Interleaving

section Statement

/-- The actor is an administrator, the agent or the customer of the order, or a member of its
restaurant, as the owner or with the branch of the order among his own. -/
def Authorised (actor : ActorContext) (order : OrderEntity) : Prop :=
  actor.role = .systemAdmin ∨
    actor.role = .deliveryAgent ∧ order.deliveryAgentId = some actor.userId ∨
    actor.userId = order.customerId ∨
    actor.role = .restaurantUser ∧ actor.restaurantId = some order.restaurantId ∧
      (actor.restaurantRole = some "owner" ∨ order.branchId ∈ actor.branchIds.getD [])

/-- The actor may move the order to `status`: he has to do with the order, and the transition
table lists what he counts as. -/
structure MayChange (actor : ActorContext) (status : OrderStatus) (order : OrderEntity) :
    Prop where
  authorised : Authorised actor order
  listed : ∃ statusActor rule, resolveStatusActor actor order = .ok statusActor ∧
    transitions order.status status = some rule ∧ statusActor ∈ rule.actors

/-- The row is untouched, or it is of this order and has got the status. -/
def RowMoved (publicId : String) (status : OrderStatus) (old new : OrderEntity) : Prop :=
  new = old ∨ old.publicId = publicId ∧ new.publicId = publicId ∧ new.status = status

end Statement

section Checks
variable {actor : ActorContext} {dto : UpdateOrderStatusRequest} {order : OrderEntity}
  {statusActor : StatusActor}

/-- An order without an agent compares as zero, which is no user. -/
theorem authorised_of_resolve (hpos : 0 < actor.userId)
    (h : resolveStatusActor actor order = .ok statusActor) : Authorised actor order := by
  unfold resolveStatusActor at h
  by_cases hadmin : actor.role = .systemAdmin
  · exact .inl hadmin
  rw [if_neg hadmin] at h
  by_cases hagent : actor.role = .deliveryAgent ∧ actor.userId = order.deliveryAgentId.getD 0
  · refine .inr (.inl ⟨hagent.1, ?_⟩)
    cases hid : order.deliveryAgentId with
    | none =>
      have hzero : actor.userId = 0 := by simpa [hid] using hagent.2
      omega
    | some id =>
      have heq : actor.userId = id := by simpa [hid] using hagent.2
      rw [heq]
  rw [if_neg hagent] at h
  by_cases hmember : actor.role = .restaurantUser
  · rw [if_pos hmember] at h
    by_cases hrestaurant : actor.restaurantId ≠ some order.restaurantId
    · rw [if_pos hrestaurant] at h
      cases h
    rw [if_neg hrestaurant] at h
    by_cases hbranch : actor.restaurantRole ≠ some "owner" ∧
        order.branchId ∉ actor.branchIds.getD []
    · rw [if_pos hbranch] at h
      cases h
    have hplace : actor.restaurantRole = some "owner" ∨
        order.branchId ∈ actor.branchIds.getD [] := by
      by_contra hno
      exact hbranch ⟨fun howner => hno (.inl howner), fun hmem => hno (.inr hmem)⟩
    exact .inr (.inr (.inr ⟨hmember, not_not.mp hrestaurant, hplace⟩))
  rw [if_neg hmember] at h
  by_cases hcustomer : actor.userId = order.customerId
  · exact .inr (.inr (.inl hcustomer))
  rw [if_neg hcustomer] at h
  cases h

/-- Whom the checks let through has the authority. -/
theorem mayChange_of_mayMove (hpos : 0 < actor.userId) (h : mayMove actor dto order = true) :
    MayChange actor dto.status order := by
  unfold mayMove at h
  cases hactor : resolveStatusActor actor order with
  | error e =>
    rw [hactor] at h
    cases h
  | ok statusActor =>
    rw [hactor] at h
    dsimp only at h
    cases hcheck : checkTransition order.status dto.status
        ⟨statusActor, dto.reason, some order.createdAt, order.acceptedAt⟩ with
    | error e =>
      rw [hcheck] at h
      cases h
    | ok stamp =>
      obtain ⟨rule, hrule, hlisted, -⟩ := checkTransition_ok hcheck
      exact ⟨authorised_of_resolve hpos hactor, statusActor, rule, hactor, hrule, hlisted⟩

end Checks

section Moves
variable {publicId : String} {status : OrderStatus}

/-- The writes of a move: the status of this order, and an event. -/
def Write.Moves (publicId : String) (status : OrderStatus) : Write → Prop
  | .setOrderStatus id new _ _ => id = publicId ∧ new = status
  | .insertOutbox _ => True
  | _ => False

theorem RowMoved.withStatus {old new : OrderEntity} (h : RowMoved publicId status old new)
    (stamp : Option Stamp) (now : Time) :
    RowMoved publicId status old
      (if new.publicId = publicId then new.withStatus status stamp now else new) := by
  by_cases hid : new.publicId = publicId
  · rw [if_pos hid]
    refine .inr ⟨?_, by rw [withStatus_publicId, hid], withStatus_status new status stamp now⟩
    rcases h with rfl | ⟨hold, -, -⟩
    · exact hid
    · exact hold
  · rw [if_neg hid]
    exact h

theorem rowMoved_apply {before : List OrderEntity} {x : Write} (hx : x.Moves publicId status)
    {db : Db} (h : List.Forall₂ (RowMoved publicId status) before db.orders) :
    List.Forall₂ (RowMoved publicId status) before (engine.apply x db).orders := by
  cases x with
  | setOrderStatus id new stamp now =>
    obtain ⟨rfl, rfl⟩ := hx
    refine List.forall₂_map_right_iff.mpr (h.imp fun old new hrow => ?_)
    exact hrow.withStatus stamp now
  | insertOutbox row => exact h
  | _ => exact absurd hx id

theorem rowsMoved_keptBy (before : List OrderEntity) (p : Pid) :
    KeptBy (fun db _ => List.Forall₂ (RowMoved publicId status) before db.orders) p
      (Write.Moves publicId status) := by
  intro db history log h hlog
  induction log generalizing db with
  | nil => exact h
  | cons x log ih =>
    rw [applyAll_cons]
    exact ih _ (rowMoved_apply (hlog x List.mem_cons_self) h)
      fun y hy => hlog y (List.mem_cons_of_mem x hy)

theorem within_moveOrder {H : Write → Prop} {dto : UpdateOrderStatusRequest} {region : String}
    {order : OrderEntity} {stamp : Option Stamp} {ctx : AssertTransitionContext}
    (hstatus : ∀ now, H (.setOrderStatus order.publicId dto.status stamp now))
    (hevent : ∀ row, H (.insertOutbox row)) : Within H (moveOrder dto region order stamp ctx) := by
  refine within_do (within_any trivial) fun _ => ?_
  refine within_do (within_catch ?_ fun err => within_do (within_any trivial) fun _ => trivial)
    fun updated => ?_
  · refine within_do (within_updateOrderStatus hstatus) fun updated => ?_
    refine within_do ?_ fun _ => within_do (within_any trivial) fun _ => trivial
    unfold emitTransition
    split
    · trivial
    · exact within_insertOutboxEvent fun _ _ => hevent _
  · exact within_do (within_any trivial) fun _ => within_do (within_any trivial) fun _ =>
      within_do (within_any trivial) fun _ => trivial

end Moves

section Result
variable {p : Pid} {w : World} {α : Type}

/-- A program that begins with an empty transaction keeps what its writes keep. -/
theorem HasWritten.kept {ws : List Write} (h : HasWritten p ws w)
    {I : Db → List (Pid × List Write) → Prop} {H : Write → Prop} (hI : KeptBy I p H)
    {prog : Svc α} (hprog : Within H prog) (es : List Env)
    (hi : I w.store.db w.store.history) :
    I (machine.runAlone p prog es w).2.store.db (machine.runAlone p prog es w).2.store.history :=
  runAlone_shared ⟨h.locked, hi⟩ (wp_harmless hprog hI (fun _ _ _ _ _ _ _ _ _ => trivial)
    fun x hx => by rw [h.log] at hx; cases hx)

theorem HasWritten.orders {ws : List Write} (h : HasWritten p ws w) {prog : Svc α}
    (hprog : Within (fun _ => False) prog) (es : List Env) :
    (machine.runAlone p prog es w).2.store.db.orders = w.store.db.orders := by
  refine h.kept (I := fun db _ => db.orders = w.store.db.orders) ?_ hprog es rfl
  intro db history log heq hlog
  have hempty : log = [] := List.eq_nil_iff_forall_not_mem.mpr hlog
  rw [hempty]
  exact heq

/-- A call that is refused, or that ends before its checks, leaves the orders alone. -/
theorem updateStatus_moves (actor : ActorContext) (dto : UpdateOrderStatusRequest)
    (region orderId : String) (h : HasWritten p [] w) (es : List Env) :
    (machine.runAlone p (updateStatus actor dto region orderId) es w).2.store.db.orders
        = w.store.db.orders ∨
      ∃ order, w.store.db.order orderId = some order ∧ mayMove actor dto order = true ∧
        List.Forall₂ (RowMoved orderId dto.status) w.store.db.orders
          (machine.runAlone p (updateStatus actor dto region orderId) es w).2.store.db.orders := by
  have hthrown : ∀ e, Within (fun _ => False) (.throw e : Svc OrderStatusResponse) :=
    fun e => trivial
  cases es with
  | nil => exact .inl rfl
  | cons find es =>
    cases hfind : find.fail with
    | true =>
      refine .inl ?_
      have hx : exec p (.sql .pool (.findOrderByPublicId orderId)) find w
          = some (.error .failed, w) := exec_pool_fails hfind
      have hrest : machine.runAlone p (updateStatus actor dto region orderId) (find :: es) w
          = machine.runAlone p (.throw .failed) es w := runAlone_next hx
      rw [hrest]
      exact h.orders (hthrown _) es
    | false =>
      have hx : exec p (.sql .pool (.findOrderByPublicId orderId)) find w
          = some (.ok (w.store.db.order orderId), w.pooled p (.findOrderByPublicId orderId)) :=
        h.exec_pool hfind
      have hread : HasWritten p [] (w.pooled p (.findOrderByPublicId orderId)) :=
        h.pooled (.findOrderByPublicId orderId)
      cases hfound : w.store.db.order orderId with
      | none =>
        rw [hfound] at hx
        have hrest : machine.runAlone p (updateStatus actor dto region orderId) (find :: es) w
            = machine.runAlone p (throwApp orderNotFoundError.message orderNotFoundError.statusCode)
              es (w.pooled p (.findOrderByPublicId orderId)) := runAlone_next hx
        refine .inl ?_
        rw [hrest]
        exact hread.orders (hthrown _) es
      | some order =>
        rw [hfound] at hx
        have hrest : machine.runAlone p (updateStatus actor dto region orderId) (find :: es) w
            = machine.runAlone p (checkAndMove actor dto region order) es
              (w.pooled p (.findOrderByPublicId orderId)) := runAlone_next hx
        rw [hrest]
        rcases checkAndMove_cases actor dto region order with
          ⟨⟨e, hthrow⟩, -⟩ | ⟨⟨stamp, ctx, hmove⟩, hmay⟩
        · refine .inl ?_
          rw [hthrow]
          exact hread.orders (hthrown _) es
        · have hpid : order.publicId = orderId := by simpa using List.find?_some hfound
          refine .inr ⟨order, rfl, hmay, ?_⟩
          rw [hmove]
          -- Each row starts as itself, and the writes of the move keep it moved or untouched.
          refine hread.kept (rowsMoved_keptBy w.store.db.orders p) (within_moveOrder ?_ ?_) es ?_
          · exact fun now => ⟨hpid, rfl⟩
          · exact fun row => trivial
          · exact List.forall₂_same.mpr fun old _ => .inl rfl

/-- Whatever fails, and whenever the process dies: a call of `OrderService.updateStatus` that
changes an order row is one of an actor with authority over that order, and it changes no row of
another order. -/
theorem updateStatus_authority (actor : ActorContext) (hpos : 0 < actor.userId)
    (dto : UpdateOrderStatusRequest) (region orderId : String) (w : World) (hw : w.AtRest)
    (p : Pid) (es : List Env)
    (hchanged : (machine.runAlone p (updateStatus actor dto region orderId) es w).2.store.db.orders
      ≠ w.store.db.orders) :
    ∃ order, w.store.db.order orderId = some order ∧ MayChange actor dto.status order ∧
      List.Forall₂ (RowMoved orderId dto.status) w.store.db.orders
        (machine.runAlone p (updateStatus actor dto region orderId) es w).2.store.db.orders := by
  rcases updateStatus_moves actor dto region orderId (hasWritten_atRest hw p) es with
    hsame | ⟨order, horder, hmay, hrows⟩
  · exact absurd hsame hchanged
  · exact ⟨order, horder, mayChange_of_mayMove hpos hmay, hrows⟩

/-- The owner of the restaurant accepts. -/
theorem updateStatus_authority_accepted :
    (machine.runAlone 0 (updateStatus restaurantOwner ⟨.accepted, none⟩ "eg" "order-1")
        (List.replicate 9 {}) unacceptedOrder).2.store.db.orders.map OrderEntity.status
      = [.accepted] ∧
    ∃ order, unacceptedOrder.store.db.order "order-1" = some order ∧
      MayChange restaurantOwner .accepted order ∧
      List.Forall₂ (RowMoved "order-1" .accepted) unacceptedOrder.store.db.orders
        (machine.runAlone 0 (updateStatus restaurantOwner ⟨.accepted, none⟩ "eg" "order-1")
          (List.replicate 9 {}) unacceptedOrder).2.store.db.orders := by
  have hstatus : (machine.runAlone 0 (updateStatus restaurantOwner ⟨.accepted, none⟩ "eg" "order-1")
      (List.replicate 9 {}) unacceptedOrder).2.store.db.orders.map OrderEntity.status
        = [.accepted] := by decide +kernel
  refine ⟨hstatus, updateStatus_authority restaurantOwner (by decide) ⟨.accepted, none⟩ "eg"
    "order-1" unacceptedOrder ⟨rfl, fun _ => rfl, rfl⟩ 0 (List.replicate 9 {}) fun hsame => ?_⟩
  rw [hsame] at hstatus
  exact absurd hstatus (by decide)

end Result

end OrderService
