import OrderService.Repositories

/-! `OrderStatusService`: the transition table and its check. -/
namespace OrderService

structure TransitionRule where
  actors : List StatusActor
  stamp : Option Stamp
  requiresReason : Bool := false

/-- `TRANSITIONS[current]?.[next]`. -/
def transitions : OrderStatus → OrderStatus → Option TransitionRule
  | .pendingPayment, .placed => some ⟨[.system], none, false⟩
  | .pendingPayment, .cancelled => some ⟨[.customer, .system], some .cancelledAt, false⟩
  | .placed, .accepted => some ⟨[.restaurantMember], some .acceptedAt, false⟩
  | .placed, .rejected => some ⟨[.restaurantMember], some .rejectedAt, true⟩
  | .placed, .cancelled =>
    some ⟨[.customer, .restaurantMember, .system, .admin], some .cancelledAt, true⟩
  | .accepted, .preparing => some ⟨[.restaurantMember], none, false⟩
  | .accepted, .cancelled => some ⟨[.restaurantMember, .admin], some .cancelledAt, true⟩
  | .preparing, .ready => some ⟨[.restaurantMember], some .readyAt, false⟩
  | .preparing, .cancelled => some ⟨[.restaurantMember, .admin], some .cancelledAt, true⟩
  | .ready, .assigned => some ⟨[.system], some .assignedAt, false⟩
  | .ready, .cancelled => some ⟨[.restaurantMember, .admin], some .cancelledAt, true⟩
  | .assigned, .picked => some ⟨[.agent], some .pickedAt, false⟩
  | .assigned, .cancelled => some ⟨[.admin], some .cancelledAt, true⟩
  | .picked, .delivered => some ⟨[.agent], some .deliveredAt, false⟩
  | _, _ => none

/-- An edge of the transition graph. -/
def Edge (current next : OrderStatus) : Prop := (transitions current next).isSome

instance (current next : OrderStatus) : Decidable (Edge current next) :=
  inferInstanceAs (Decidable (_ = true))

/-- The characters that `String.prototype.trim` removes. -/
def trimmed (c : Char) : Bool :=
  c.toNat ∈ [9, 10, 11, 12, 13, 32, 0xA0, 0x1680, 0x2028, 0x2029, 0x202F, 0x205F, 0x3000, 0xFEFF] ||
    (0x2000 ≤ c.toNat && c.toNat ≤ 0x200A)

/-- `!reason || reason.trim().length === 0`. -/
def blankReason : Option String → Bool
  | none => true
  | some s => s.toList.all trimmed

structure AssertTransitionContext where
  actor : StatusActor
  reason : Option String
  placedAt : Option Time
  acceptedAt : Option Time

def customerCancelWindowMs : Nat := 60 * 1000

def cancellationWindowExpiredError : AppError := ⟨"Cancellation Window Exceeded", 409⟩

def reasonRequiredError : AppError := ⟨"Reason required for this transition", 400⟩

def invalidStatusTransitionError (source target : OrderStatus) : AppError :=
  ⟨"Invalid status transition from " ++ source.text ++ " to " ++ target.text, 409⟩

def assertTransition (current next : OrderStatus) (ctx : AssertTransitionContext) :
    Svc (Option Stamp) :=
  match transitions current next with
  | none => throw (.app (invalidStatusTransitionError current next))
  | some allowed =>
    if ctx.actor ∉ allowed.actors then
      throw (.app (invalidStatusTransitionError current next))
    else if allowed.requiresReason && blankReason ctx.reason then
      throw (.app reasonRequiredError)
    else if ctx.actor = .customer ∧ current = .cancelled ∧ next = .placed then
      -- The statuses stand the wrong way round here: no rule leads out of `cancelled`.
      match ctx.acceptedAt, ctx.placedAt with
      | some _, _ => throw (.app cancellationWindowExpiredError)
      | none, none => pure allowed.stamp
      | none, some placedAt => do
        let dateNow ← now
        if dateNow - placedAt > customerCancelWindowMs then
          throw (.app cancellationWindowExpiredError)
        else pure allowed.stamp
    else pure allowed.stamp

/-- The check as a function of its arguments. -/
def checkTransition (current next : OrderStatus) (ctx : AssertTransitionContext) :
    Except Err (Option Stamp) :=
  match transitions current next with
  | none => .error (.app (invalidStatusTransitionError current next))
  | some allowed =>
    if ctx.actor ∉ allowed.actors then .error (.app (invalidStatusTransitionError current next))
    else if allowed.requiresReason && blankReason ctx.reason then
      .error (.app reasonRequiredError)
    else .ok allowed.stamp

/-- The cancellation window is never consulted, so the check asks nothing of the world. -/
theorem assertTransition_eq (current next : OrderStatus) (ctx : AssertTransitionContext) :
    assertTransition current next ctx = .ofExcept (checkTransition current next ctx) := by
  unfold assertTransition checkTransition
  cases hrule : transitions current next with
  | none => rfl
  | some allowed =>
    by_cases hactor : ctx.actor ∉ allowed.actors
    · simp only [hactor]
      rfl
    by_cases hreason : (allowed.requiresReason && blankReason ctx.reason) = true
    · simp only [hactor, hreason]
      rfl
    have hwindow : ¬(ctx.actor = .customer ∧ current = .cancelled ∧ next = .placed) := by
      rintro ⟨_, rfl, rfl⟩
      simp [transitions] at hrule
    simp only [hactor, hreason, hwindow]
    rfl

/-- What passes the check is an edge, and the actor is one that the rule names. -/
theorem checkTransition_ok {current next : OrderStatus} {ctx : AssertTransitionContext}
    {stamp : Option Stamp} (h : checkTransition current next ctx = .ok stamp) :
    ∃ rule, transitions current next = some rule ∧ ctx.actor ∈ rule.actors ∧
      rule.stamp = stamp := by
  unfold checkTransition at h
  cases hrule : transitions current next with
  | none => simp [hrule] at h
  | some allowed =>
    simp only [hrule] at h
    split_ifs at h with hactor hreason
    simp only [Except.ok.injEq] at h
    exact ⟨allowed, rfl, hactor, h⟩

theorem edge_of_checkTransition {current next : OrderStatus} {ctx : AssertTransitionContext}
    {stamp : Option Stamp} (h : checkTransition current next ctx = .ok stamp) :
    Edge current next := by
  obtain ⟨rule, hrule, _⟩ := checkTransition_ok h
  simp [Edge, hrule]

/-- Rejected, cancelled and delivered orders have no way out. -/
theorem not_edge_of_final {current next : OrderStatus}
    (h : current = .rejected ∨ current = .cancelled ∨ current = .delivered) :
    ¬Edge current next := by
  rcases h with rfl | rfl | rfl <;> cases next <;> decide

/-- How far along an order is; every edge goes up. -/
def OrderStatus.rank : OrderStatus → Nat
  | .pendingPayment => 0
  | .placed => 1
  | .accepted => 2
  | .preparing => 3
  | .ready => 4
  | .assigned => 5
  | .picked => 6
  | .delivered => 7
  | .rejected => 7
  | .cancelled => 7

theorem rank_lt_of_edge {current next : OrderStatus} (h : Edge current next) :
    current.rank < next.rank := by
  revert h
  cases current <;> cases next <;> decide

end OrderService
