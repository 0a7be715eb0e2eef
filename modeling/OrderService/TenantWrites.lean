import OrderService.RoutePermissions

/-! The routes for administrators take their target from the path, and `rbac` opens them to every
restaurant user whose role holds the permission. -/
namespace OrderService
open ReadCommitted Interleaving

section Statement

/-- The refund, the payout and the assignment by an administrator. -/
inductive Privilege where
  | refund
  | payout
  | assign
  deriving DecidableEq

def Privilege.permission : Privilege → String
  | .refund => "payments:refund"
  | .payout => "finance:payout_create"
  | .assign => "deliveries:assign"

def RouteRequest.privilege? : RouteRequest → Option Privilege
  | .refund .. => some .refund
  | .recordPayout .. => some .payout
  | .assign .. => some .assign
  | _ => none

/-- The rows of the other restaurants are there as they were: their orders, their balances and the
transactions of their orders. -/
structure OthersUntouched (restaurantId : Nat) (before after : Db) : Prop where
  orders : ∀ o ∈ before.orders, o.restaurantId ≠ restaurantId → o ∈ after.orders
  balances : ∀ b ∈ before.restaurantBalances, b.restaurantId ≠ restaurantId →
    b ∈ after.restaurantBalances
  transactions : ∀ t ∈ before.transactions,
    (∃ o ∈ before.orders, o.restaurantId ≠ restaurantId ∧ t.orderId = some o.id) →
      t ∈ after.transactions

/-- No request of the user to this route touches another restaurant than his own. -/
def StaysWithin (user : ActorContext) (permissions : List String) (restaurantId : Nat)
    (kind : Privilege) : Prop :=
  ∀ (hmacSha256 : String → String → String) (cfg : Config) (v : Visit), v.By user permissions →
    ∀ request : RouteRequest, request.privilege? = some kind → ∀ w : World, w.AtRest →
      ∀ (p : Pid) (es : List Env), OthersUntouched restaurantId w.store.db
        (request.after hmacSha256 cfg p v es w).store.db

end Statement

section Guards
variable {v : Visit} {user : ActorContext} {permissions : List String}

/-- The permission of the route is in the list of whoever comes to its call. -/
theorem permission_of_call? (hv : v.By user permissions) {request : RouteRequest} {c : Call}
    (hcall : request.call? v = some c) {kind : Privilege}
    (hkind : request.privilege? = some kind) : kind.permission ∈ permissions := by
  cases reaches_of_call? hv hcall with
  | refund transactionId body input has =>
    obtain rfl := Option.some.inj hkind
    exact has
  | assign publicId body agentId region has =>
    obtain rfl := Option.some.inj hkind
    exact has
  | recordPayout key body input has =>
    obtain rfl := Option.some.inj hkind
    exact has
  | _ => cases hkind

/-- `rbac` asks for nothing else. -/
theorem rbac_granted (hrole : user.role = .restaurantUser) (resource action : String)
    (has : resource ++ ":" ++ action ∈ permissions) :
    rbac ⟨resource, action, true⟩ (visitOf user permissions) user = .ok () := by
  have hhas : hasPermission permissions resource action = true := List.contains_iff_mem.mpr has
  simp only [rbac, if_pos hrole, visitOf, hhas, if_true]
  split_ifs <;> rfl

theorem guarded_bind {α β : Type} (x : α) (f : α → Guarded β) : (Except.ok x >>= f) = f x := rfl

end Guards

section Neighbours

/-- A restaurant with a balance, an order that waits for an agent and the charge for it. -/
def neighbour (restaurantId : Nat) : World where
  store := Store.ofDb
    { orders := [{ OrderEntity.sample "order-1" .ready with
        restaurantId := restaurantId, deliveryAgentId := none }]
      restaurantBalances := [⟨restaurantId, "eg", "EGP", 10000⟩]
      transactions := [{
        region := "eg", orderId := some 1, transactionType := .charge, method := .online,
        providerId := some 0, providerReferenceId := some "ref-1", status := .succeeded,
        amount := 13000, currency := "EGP", srcAccId := some 3, dstAccId := some 9,
        idempotencyKey := none, id := 1, createdAt := 0, updatedAt := 0 }] }
  seqs := { transactions := 2 }

theorem neighbour_atRest (restaurantId : Nat) : (neighbour restaurantId).AtRest :=
  ⟨rfl, fun _ => rfl, rfl⟩

def refundOne : RouteRequest := .refund 1 (.ok ⟨13000, by decide⟩)

def payOutHundred (restaurantId : Nat) : RouteRequest :=
  .recordPayout "key-1" (.ok ⟨restaurantId, 100, "EGP", "bank-1", by decide⟩)

def assignSeven : RouteRequest := .assign "order-1" (.ok (some 7))

/-- The world after a call on the neighbour, with nothing failing. -/
def neighbourAfter (c : Call) (restaurantId : Nat) : Db :=
  (machine.runAlone 0 (c.prog (fun _ _ => "") sampleConfig) (List.replicate 20 {})
    (neighbour restaurantId)).2.store.db

/-- One of two restaurants is not the user's own. -/
theorem exists_neighbour (restaurantId : Nat) : ∃ other ∈ [1, 2], other ≠ restaurantId := by
  by_cases hone : restaurantId = 1
  · exact ⟨2, by simp, by omega⟩
  · exact ⟨1, by simp, by omega⟩

/-- The refund marks the charge, the payout debits the balance and the order gets its agent. -/
theorem neighbour_changes : ∀ other ∈ [1, 2],
    (neighbourAfter (.refundPayment ⟨1, 13000, "eg", by decide⟩) other).transactions.map
        (fun t => (t.id, t.isRefunded)) = [(1, true), (2, false)] ∧
    (neighbourAfter (.recordPayout ⟨other, 100, "EGP", "eg", "bank-1", "key-1", by decide,
      by decide⟩) other).restaurantBalances.map RestaurantBalanceEntity.balance = [9900] ∧
    (neighbourAfter (.adminAssign "order-1" 7 "eg") other).orders.map OrderEntity.status
      = [.assigned] := by
  decide +kernel

theorem call?_of_serve {v : Visit} {request : RouteRequest} {c : Call}
    (h : request.serve v = .ok (.call c)) : request.call? v = some c := by
  rw [RouteRequest.call?, h]

variable {user : ActorContext} {permissions : List String} {restaurantId : Nat}

theorem refund_leaves_home (hrole : user.role = .restaurantUser)
    (has : "payments:refund" ∈ permissions) :
    ¬StaysWithin user permissions restaurantId .refund := by
  intro hstays
  obtain ⟨other, hmem, hother⟩ := exists_neighbour restaurantId
  have hcall : refundOne.call? (visitOf user permissions)
      = some (.refundPayment ⟨1, 13000, "eg", by decide⟩) := by
    have hserve : refundOne.serve (visitOf user permissions)
        = (rbac ⟨"payments", "refund", true⟩ (visitOf user permissions) user >>= fun _ =>
          .ok (.call (.refundPayment ⟨1, 13000, "eg", by decide⟩))) := rfl
    rw [rbac_granted hrole "payments" "refund" has, guarded_bind] at hserve
    exact call?_of_serve hserve
  have hkept := (hstays (fun _ _ => "") sampleConfig _ (visitOf_by hrole permissions) refundOne
    rfl (neighbour other) (neighbour_atRest other) 0 (List.replicate 20 {})).transactions _
      List.mem_cons_self ⟨_, List.mem_cons_self, hother, rfl⟩
  rw [RouteRequest.after, hcall] at hkept
  have hpair := List.mem_map_of_mem (f := fun t => (t.id, t.isRefunded)) hkept
  have hafter := (neighbour_changes other hmem).1
  rw [neighbourAfter] at hafter
  dsimp only at hpair
  rw [hafter] at hpair
  revert hpair
  decide

theorem payout_leaves_home (hrole : user.role = .restaurantUser)
    (has : "finance:payout_create" ∈ permissions) :
    ¬StaysWithin user permissions restaurantId .payout := by
  intro hstays
  obtain ⟨other, hmem, hother⟩ := exists_neighbour restaurantId
  have hcall : (payOutHundred other).call? (visitOf user permissions)
      = some (.recordPayout ⟨other, 100, "EGP", "eg", "bank-1", "key-1", by decide,
          by decide⟩) := by
    have hserve : (payOutHundred other).serve (visitOf user permissions)
        = (rbac ⟨"finance", "payout_create", true⟩ (visitOf user permissions) user >>= fun _ =>
          .ok (.call (.recordPayout ⟨other, 100, "EGP", "eg", "bank-1", "key-1", by decide,
            by decide⟩))) := rfl
    rw [rbac_granted hrole "finance" "payout_create" has, guarded_bind] at hserve
    exact call?_of_serve hserve
  have hkept := (hstays (fun _ _ => "") sampleConfig _ (visitOf_by hrole permissions)
    (payOutHundred other) rfl (neighbour other) (neighbour_atRest other) 0
      (List.replicate 20 {})).balances _ List.mem_cons_self hother
  rw [RouteRequest.after, hcall] at hkept
  have hbalance := List.mem_map_of_mem (f := RestaurantBalanceEntity.balance) hkept
  have hafter := (neighbour_changes other hmem).2.1
  rw [neighbourAfter] at hafter
  dsimp only at hbalance
  rw [hafter] at hbalance
  revert hbalance
  decide

theorem assign_leaves_home (hrole : user.role = .restaurantUser)
    (has : "deliveries:assign" ∈ permissions) :
    ¬StaysWithin user permissions restaurantId .assign := by
  intro hstays
  obtain ⟨other, hmem, hother⟩ := exists_neighbour restaurantId
  have hcall : assignSeven.call? (visitOf user permissions)
      = some (.adminAssign "order-1" 7 "eg") := by
    have hserve : assignSeven.serve (visitOf user permissions)
        = (rbac ⟨"deliveries", "assign", true⟩ (visitOf user permissions) user >>= fun _ =>
          .ok (.call (.adminAssign "order-1" 7 "eg"))) := rfl
    rw [rbac_granted hrole "deliveries" "assign" has, guarded_bind] at hserve
    exact call?_of_serve hserve
  have hkept := (hstays (fun _ _ => "") sampleConfig _ (visitOf_by hrole permissions) assignSeven
    rfl (neighbour other) (neighbour_atRest other) 0 (List.replicate 20 {})).orders _
      List.mem_cons_self hother
  rw [RouteRequest.after, hcall] at hkept
  have hstatus := List.mem_map_of_mem (f := OrderEntity.status) hkept
  have hafter := (neighbour_changes other hmem).2.2
  rw [neighbourAfter] at hafter
  dsimp only at hstatus
  rw [hafter] at hstatus
  revert hstatus
  decide

end Neighbours

section Result

/-- A restaurant user of any restaurant, with any role in it and any permissions, stays within his
restaurant on such a route exactly if his permissions do not open it: the route checks nothing
else. -/
theorem tenant_writes_iff (user : ActorContext) (hrole : user.role = .restaurantUser)
    (restaurantId : Nat) (permissions : List String) (kind : Privilege) :
    StaysWithin user permissions restaurantId kind ↔ kind.permission ∉ permissions := by
  constructor
  · intro hstays has
    cases kind with
    | refund => exact refund_leaves_home hrole has hstays
    | payout => exact payout_leaves_home hrole has hstays
    | assign => exact assign_leaves_home hrole has hstays
  · intro hnot hmacSha256 cfg v hv request hkind w hw p es
    have hrefused : request.after hmacSha256 cfg p v es w = w := by
      unfold RouteRequest.after
      cases hcall : request.call? v with
      | none => rfl
      | some c => exact absurd (permission_of_call? hv hcall hkind) hnot
    rw [hrefused]
    exact ⟨fun o ho _ => ho, fun b hb _ => hb, fun t ht _ => ht⟩

/-- What `owner` is given by the seed. -/
def ownerPermissions : List String :=
  ["orders:read", "orders:accept", "orders:update", "orders:cancel", "payments:read",
    "payments:refund", "deliveries:assign", "finance:read", "finance:payout_create"]

theorem tenant_writes_manager :
    StaysWithin staffMember ["orders:read", "orders:update", "finance:read"] 1 .refund :=
  (tenant_writes_iff staffMember rfl 1 ["orders:read", "orders:update", "finance:read"]
    .refund).mpr (by decide)

/-- The owner of restaurant 1 refunds a charge, pays out and assigns an order of restaurant 2. -/
theorem owner_writes_elsewhere :
    (¬StaysWithin restaurantOwner ownerPermissions 1 .refund) ∧
      (¬StaysWithin restaurantOwner ownerPermissions 1 .payout) ∧
        ¬StaysWithin restaurantOwner ownerPermissions 1 .assign := by
  refine ⟨?_, ?_, ?_⟩
  · exact refund_leaves_home rfl (by decide)
  · exact payout_leaves_home rfl (by decide)
  · exact assign_leaves_home rfl (by decide)

end Result

end OrderService
