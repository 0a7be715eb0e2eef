import OrderService.TenantWrites
import OrderService.Services.OrderDetails

/-! Who is shown an order: the service knows three ways, and the controller closes one of them. -/
namespace OrderService

section Statement

/-- The policy: an administrator, the customer, or a member of the restaurant who owns it or has
the branch of the order. -/
def MayRead (user : ActorContext) (order : OrderEntity) : Prop :=
  user.role = .systemAdmin ∨ user.userId = order.customerId ∨
    user.role = .restaurantUser ∧ user.restaurantId = some order.restaurantId ∧
      (user.restaurantRole = some "owner" ∨ order.branchId ∈ user.branchIds.getD [])

/-- The user's request under the order's id is answered with the order exactly if he may read it,
and otherwise with a refusal in which nothing is from the order. -/
def ReadByPolicy (v : Visit) (user : ActorContext) (order : OrderEntity) (db : Db) : Prop :=
  (serveGetOrder v order.publicId db = .ok (.ofOrder order
      (db.orderItems.filter fun i => [order.id].contains i.orderId)) ↔ MayRead user order) ∧
    (¬MayRead user order →
      serveGetOrder v order.publicId db = .error ⟨403, errorBody "User not authorised"⟩)

/-- Of the ways to an order the user has only his branch. -/
def ReadsByBranch (user : ActorContext) (order : OrderEntity) : Prop :=
  user.role = .restaurantUser ∧ user.restaurantId = some order.restaurantId ∧
    order.branchId ∈ user.branchIds.getD [] ∧ user.restaurantRole ≠ some "owner" ∧
      user.userId ≠ order.customerId

end Statement

section Service
variable {actor : ActorContext} {order : OrderEntity}

theorem assertReadAccess_ok_or (actor : ActorContext) (order : OrderEntity) :
    assertReadAccess actor order = .ok () ∨
      assertReadAccess actor order = .error (.app unAuthorisedError) := by
  unfold assertReadAccess
  split_ifs
  all_goals first | exact .inl rfl | exact .inr rfl

/-- The service lets through whom the policy names. -/
theorem assertReadAccess_iff : assertReadAccess actor order = .ok () ↔ MayRead actor order := by
  unfold assertReadAccess MayRead
  by_cases hadmin : actor.role = .systemAdmin
  · rw [if_pos hadmin]
    exact ⟨fun _ => .inl hadmin, fun _ => rfl⟩
  rw [if_neg hadmin]
  by_cases hcustomer : actor.userId = order.customerId
  · rw [if_pos hcustomer]
    exact ⟨fun _ => .inr (.inl hcustomer), fun _ => rfl⟩
  rw [if_neg hcustomer]
  by_cases hmember : actor.role = .restaurantUser
  · rw [if_pos hmember]
    by_cases hrestaurant : actor.restaurantId = some order.restaurantId
    · rw [if_neg (not_not.mpr hrestaurant)]
      by_cases howner : actor.restaurantRole = some "owner"
      · simp [hmember, hrestaurant, howner]
      · by_cases hbranch : order.branchId ∈ actor.branchIds.getD []
        · simp [hmember, hrestaurant, hbranch]
        · simp [hcustomer, hmember, hrestaurant, howner, hbranch]
    · simp [hcustomer, hmember, hrestaurant]
  · simp [hadmin, hcustomer, hmember]

/-- Without its branches a token gives what it gives by itself, unless its branch alone counts. -/
theorem mayRead_readActor :
    MayRead (readActor actor) order ↔ MayRead actor order ∧ ¬ReadsByBranch actor order := by
  unfold MayRead ReadsByBranch readActor
  constructor
  · intro h
    rcases h with hadmin | hcustomer | ⟨hmember, hrestaurant, howner | hbranch⟩
    · exact ⟨.inl hadmin, fun hby => by rw [hadmin] at hby; cases hby.1⟩
    · exact ⟨.inr (.inl hcustomer), fun hby => hby.2.2.2.2 hcustomer⟩
    · exact ⟨.inr (.inr ⟨hmember, hrestaurant, .inl howner⟩), fun hby => hby.2.2.2.1 howner⟩
    · exact absurd hbranch List.not_mem_nil
  · intro h
    obtain ⟨hmay, hby⟩ := h
    rcases hmay with hadmin | hcustomer | ⟨hmember, hrestaurant, howner | hbranch⟩
    · exact .inl hadmin
    · exact .inr (.inl hcustomer)
    · exact .inr (.inr ⟨hmember, hrestaurant, .inl howner⟩)
    · -- The branch counts only next to another way.
      by_cases howner : actor.restaurantRole = some "owner"
      · exact .inr (.inr ⟨hmember, hrestaurant, .inl howner⟩)
      by_cases hcustomer : actor.userId = order.customerId
      · exact .inr (.inl hcustomer)
      exact absurd ⟨hmember, hrestaurant, hbranch, howner, hcustomer⟩ hby

end Service

section Result
variable {v : Visit} {user : ActorContext} {region : String} {order : OrderEntity} {db : Db}

/-- Past the guards the answer is the service's decision on the actor of the controller. -/
theorem serveGetOrder_eq (huser : v.user = some user) (hregion : v.region = some region)
    (hone : region ≠ "all") (hfound : db.order order.publicId = some order) :
    serveGetOrder v order.publicId db =
      match assertReadAccess (readActor user) order with
      | .error err => failWith err
      | .ok () => .ok (.ofOrder order
          (db.orderItems.filter fun i => [order.id].contains i.orderId)) := by
  have hauth : authenticate v = .ok user := by rw [authenticate, huser]
  have hreq : requireRegion v = .ok region := by rw [requireRegion, hregion]
  have hshard : shard region = .ok () := by rw [shard, if_neg hone]
  simp only [serveGetOrder, hauth, hreq, hshard, getOrder, hfound, guarded_bind]
  cases assertReadAccess (readActor user) order with
  | error err => rfl
  | ok _ => rfl

/-- The policy holds of a request exactly if the user does not read by his branch alone. -/
theorem order_read_policy (v : Visit) (user : ActorContext) (region : String)
    (order : OrderEntity) (db : Db) (huser : v.user = some user)
    (hregion : v.region = some region) (hone : region ≠ "all")
    (hfound : db.order order.publicId = some order) :
    ReadByPolicy v user order db ↔ ¬ReadsByBranch user order := by
  have hanswer := serveGetOrder_eq huser hregion hone hfound
  by_cases hread : MayRead (readActor user) order
  · obtain ⟨hmay, hby⟩ := mayRead_readActor.mp hread
    rw [assertReadAccess_iff.mpr hread] at hanswer
    exact ⟨fun _ => hby, fun _ => ⟨⟨fun _ => hmay, fun _ => hanswer⟩, fun hno => absurd hmay hno⟩⟩
  · have hrefused : assertReadAccess (readActor user) order = .error (.app unAuthorisedError) := by
      rcases assertReadAccess_ok_or (readActor user) order with hok | hrefused
      · exact absurd (assertReadAccess_iff.mp hok) hread
      · exact hrefused
    rw [hrefused] at hanswer
    constructor
    · intro hpolicy hby
      -- Who reads by his branch may read the order, and is refused.
      have hmay : MayRead user order := .inr (.inr ⟨hby.1, hby.2.1, .inr hby.2.2.1⟩)
      have hshown := hpolicy.1.mpr hmay
      rw [hanswer] at hshown
      cases hshown
    · intro hby
      have hno : ¬MayRead user order := fun hmay => hread (mayRead_readActor.mpr ⟨hmay, hby⟩)
      refine ⟨⟨fun hshown => ?_, fun hmay => absurd hmay hno⟩, fun _ => hanswer⟩
      rw [hanswer] at hshown
      cases hshown

theorem order_read_policy_owner :
    ReadByPolicy (visitOf restaurantOwner []) restaurantOwner (OrderEntity.sample "order-1" .placed)
      { orders := [OrderEntity.sample "order-1" .placed] } := by
  refine (order_read_policy (visitOf restaurantOwner []) restaurantOwner "eg"
    (OrderEntity.sample "order-1" .placed) { orders := [OrderEntity.sample "order-1" .placed] }
    rfl rfl (by decide) rfl).mpr ?_
  intro hby
  exact hby.2.2.2.1 rfl

/-- A member of the staff of the order's branch is refused. -/
theorem branch_member_refused :
    ¬ReadByPolicy (visitOf staffMember []) staffMember (OrderEntity.sample "order-1" .placed)
      { orders := [OrderEntity.sample "order-1" .placed] } := by
  intro hpolicy
  have hmay : MayRead staffMember (OrderEntity.sample "order-1" .placed) :=
    .inr (.inr ⟨rfl, rfl, .inr (List.mem_singleton.mpr rfl)⟩)
  have hshown := hpolicy.1.mpr hmay
  cases hshown

end Result

end OrderService
