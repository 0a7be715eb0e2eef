import OrderService.PlacementEffects
import OrderService.Services.Routes
import OrderService.StatusAuthority

/-! What a restaurant user can reach through the mounted routes, by the permissions of his role. -/
namespace OrderService
open ReadCommitted Interleaving

section Guards
variable {v : Visit} {user : ActorContext} {permissions : List String} {α β : Type}

/-- A restaurant user with these permissions sends the request. -/
structure Visit.By (v : Visit) (user : ActorContext) (permissions : List String) : Prop where
  sender : v.user = some user
  member : user.role = .restaurantUser
  granted : v.permissions (permissionRole user) = .ok permissions

theorem guarded_ok {a : Guarded α} {f : α → Guarded β} {b : β} (h : (a >>= f) = .ok b) :
    ∃ x, a = .ok x ∧ f x = .ok b := by
  cases a with
  | error reply => cases h
  | ok x => exact ⟨x, rfl, h⟩

theorem authenticate_ok (hv : v.By user permissions) {u : ActorContext}
    (h : authenticate v = .ok u) : u = user := by
  rw [authenticate, hv.sender] at h
  exact (Except.ok.inj h).symm

/-- `rbac` lets a restaurant user through with the permission alone. -/
theorem rbac_ok (hv : v.By user permissions) {resource action : String} {allow : Bool}
    (h : rbac ⟨resource, action, allow⟩ v user = .ok ()) :
    resource ++ ":" ++ action ∈ permissions := by
  have hadmin : ¬(allow = true ∧ user.role = .systemAdmin) := by
    rintro ⟨-, hadmin⟩
    rw [hv.member] at hadmin
    cases hadmin
  simp only [rbac, if_neg hadmin, if_pos hv.member, hv.granted] at h
  by_cases hhas : hasPermission permissions resource action = true
  · exact List.contains_iff_mem.mp hhas
  · rw [if_neg hhas] at h
    cases h

theorem not_requireAgent (hv : v.By user permissions) : requireAgent user ≠ .ok () := by
  have hrole : user.role ≠ .deliveryAgent := by
    rw [hv.member]
    decide
  rw [requireAgent, if_pos hrole]
  exact fun h => by cases h

/-- The routes of the agents answer nobody else. -/
theorem not_agentOnly (hv : v.By user permissions) {α : Type} {rest : ActorContext → Guarded α}
    {a : α} :
    (do
      let user ← authenticate v
      requireAgent user
      rest user : Guarded α) ≠ .ok a := by
  intro h
  obtain ⟨u, hu, h⟩ := guarded_ok h
  obtain rfl := authenticate_ok hv hu
  obtain ⟨_, hagent, _⟩ := guarded_ok h
  exact not_requireAgent hv hagent

theorem serve_of_call? {request : RouteRequest} {c : Call} (h : request.call? v = some c) :
    request.serve v = .ok (.call c) := by
  unfold RouteRequest.call? at h
  split at h
  · next c' hserve =>
    rw [hserve, Option.some.inj h]
  · cases h

theorem oneRegion_ok {region : String} {handler handler' : Handler}
    (h : oneRegion region handler = .ok handler') : handler' = handler := by
  unfold oneRegion at h
  split_ifs at h
  · cases h
  · exact (Except.ok.inj h).symm

/-- What a restaurant user's request comes to, with the permission that its route asks for. -/
inductive Reaches (user : ActorContext) (permissions : List String) : RouteRequest → Call → Prop
  | placeOrder body dto region :
    Reaches user permissions (.placeOrder body) (.placeOrder user (some region) dto)
  | restaurantStatus publicId body dto region (has : "orders:update" ∈ permissions) :
    Reaches user permissions (.restaurantStatus publicId body)
      (.updateStatus user dto region publicId)
  | customerStatus publicId body dto region :
    Reaches user permissions (.customerStatus publicId body)
      (.updateStatus user dto region publicId)
  | adminStatus publicId body dto region (has : "orders:cancel" ∈ permissions) :
    Reaches user permissions (.adminStatus publicId body)
      (.updateStatus user dto region publicId)
  | kashierWebhook rawBody signature region :
    Reaches user permissions (.kashierWebhook rawBody signature)
      (.webhook rawBody (signature.getD "") region)
  | refund transactionId body input (has : "payments:refund" ∈ permissions) :
    Reaches user permissions (.refund transactionId body) (.refundPayment input)
  | assign publicId body agentId region (has : "deliveries:assign" ∈ permissions) :
    Reaches user permissions (.assign publicId body) (.adminAssign publicId agentId region)
  | recordPayout key body input (has : "finance:payout_create" ∈ permissions) :
    Reaches user permissions (.recordPayout key body) (.recordPayout input)

theorem updateStatusHandler_ok {region publicId : String}
    {body : Except AppError UpdateOrderStatusRequest} {c : Call}
    (h : updateStatusHandler user region publicId body = .ok (.call c)) :
    ∃ dto, c = .updateStatus user dto region publicId := by
  obtain ⟨dto, -, h⟩ := guarded_ok h
  obtain ⟨-, -, h⟩ := guarded_ok h
  exact ⟨dto, (Handler.call.inj (Except.ok.inj h)).symm⟩

/-- The middleware lets a restaurant user through to these calls alone. -/
theorem reaches_of_call? (hv : v.By user permissions) {request : RouteRequest} {c : Call}
    (hcall : request.call? v = some c) : Reaches user permissions request c := by
  have h := serve_of_call? hcall
  cases request with
  | placeOrder body =>
    obtain ⟨u, hu, h⟩ := guarded_ok h
    obtain ⟨region, -, h⟩ := guarded_ok h
    obtain ⟨-, -, h⟩ := guarded_ok h
    obtain ⟨dto, -, h⟩ := guarded_ok h
    obtain rfl := authenticate_ok hv hu
    rw [← Handler.call.inj (Except.ok.inj h)]
    exact .placeOrder body dto region
  | restaurantStatus publicId body =>
    obtain ⟨u, hu, h⟩ := guarded_ok h
    obtain ⟨region, -, h⟩ := guarded_ok h
    obtain rfl := authenticate_ok hv hu
    obtain ⟨_, hrbac, h⟩ := guarded_ok h
    obtain ⟨-, -, h⟩ := guarded_ok h
    obtain ⟨dto, rfl⟩ := updateStatusHandler_ok h
    exact .restaurantStatus publicId body dto region (rbac_ok hv hrbac)
  | customerStatus publicId body =>
    obtain ⟨u, hu, h⟩ := guarded_ok h
    obtain ⟨region, -, h⟩ := guarded_ok h
    obtain rfl := authenticate_ok hv hu
    obtain ⟨-, -, h⟩ := guarded_ok h
    obtain ⟨dto, rfl⟩ := updateStatusHandler_ok h
    exact .customerStatus publicId body dto region
  | adminStatus publicId body =>
    obtain ⟨u, hu, h⟩ := guarded_ok h
    obtain ⟨region, -, h⟩ := guarded_ok h
    obtain rfl := authenticate_ok hv hu
    obtain ⟨_, hrbac, h⟩ := guarded_ok h
    obtain ⟨-, -, h⟩ := guarded_ok h
    obtain ⟨dto, rfl⟩ := updateStatusHandler_ok h
    exact .adminStatus publicId body dto region (rbac_ok hv hrbac)
  | kashierWebhook rawBody signature =>
    obtain ⟨region, -, h⟩ := guarded_ok h
    split_ifs at h
    · cases h
    · cases h
    · rw [← Handler.call.inj (Except.ok.inj h)]
      exact .kashierWebhook rawBody signature region
  | refund transactionId body =>
    obtain ⟨u, hu, h⟩ := guarded_ok h
    obtain ⟨region, -, h⟩ := guarded_ok h
    obtain rfl := authenticate_ok hv hu
    obtain ⟨_, hrbac, h⟩ := guarded_ok h
    obtain ⟨dto, -, h⟩ := guarded_ok h
    rw [← Handler.call.inj (Except.ok.inj h)]
    exact .refund transactionId body _ (rbac_ok hv hrbac)
  | assign publicId body =>
    obtain ⟨u, hu, h⟩ := guarded_ok h
    obtain ⟨region, -, h⟩ := guarded_ok h
    obtain rfl := authenticate_ok hv hu
    obtain ⟨_, hrbac, h⟩ := guarded_ok h
    obtain ⟨-, -, h⟩ := guarded_ok h
    split_ifs at h
    · cases h
    · obtain ⟨agentId, -, h⟩ := guarded_ok h
      cases agentId with
      | none => cases h
      | some agentId =>
        rw [← Handler.call.inj (Except.ok.inj h)]
        exact .assign publicId body agentId region (rbac_ok hv hrbac)
  | recordPayout key body =>
    obtain ⟨u, hu, h⟩ := guarded_ok h
    obtain ⟨region, -, h⟩ := guarded_ok h
    obtain rfl := authenticate_ok hv hu
    obtain ⟨_, hrbac, h⟩ := guarded_ok h
    obtain ⟨-, -, h⟩ := guarded_ok h
    obtain ⟨dto, -, h⟩ := guarded_ok h
    split_ifs at h
    · cases h
    · obtain ⟨-, -, h⟩ := guarded_ok h
      rw [← Handler.call.inj (Except.ok.inj h)]
      exact .recordPayout key body _ (rbac_ok hv hrbac)
  | agentStatus publicId body => exact absurd h (not_agentOnly hv)
  | acceptOrder publicId => exact absurd h (not_agentOnly hv)
  | rejectOrder publicId => exact absurd h (not_agentOnly hv)
  | presence => exact absurd h (not_agentOnly hv)
  | agentReads => exact absurd h (not_agentOnly hv)
  | health => cases h
  | getOrder publicId =>
    obtain ⟨_, -, h⟩ := guarded_ok h
    obtain ⟨_, -, h⟩ := guarded_ok h
    cases h
  | listMyOrders =>
    obtain ⟨_, -, h⟩ := guarded_ok h
    obtain ⟨_, -, h⟩ := guarded_ok h
    cases oneRegion_ok h
  | listRestaurantOrders r b q =>
    obtain ⟨_, -, h⟩ := guarded_ok h
    obtain ⟨_, -, h⟩ := guarded_ok h
    obtain ⟨_, -, h⟩ := guarded_ok h
    obtain ⟨_, -, h⟩ := guarded_ok h
    obtain ⟨_, -, h⟩ := guarded_ok h
    cases oneRegion_ok h
  | getPayment r paymentId =>
    obtain ⟨_, -, h⟩ := guarded_ok h
    obtain ⟨_, -, h⟩ := guarded_ok h
    obtain ⟨_, -, h⟩ := guarded_ok h
    obtain ⟨_, -, h⟩ := guarded_ok h
    cases h
  | getBalance r =>
    obtain ⟨_, -, h⟩ := guarded_ok h
    obtain ⟨_, -, h⟩ := guarded_ok h
    obtain ⟨_, -, h⟩ := guarded_ok h
    obtain ⟨_, -, h⟩ := guarded_ok h
    cases oneRegion_ok h
  | listPayouts r =>
    obtain ⟨_, -, h⟩ := guarded_ok h
    obtain ⟨_, -, h⟩ := guarded_ok h
    obtain ⟨_, -, h⟩ := guarded_ok h
    obtain ⟨_, -, h⟩ := guarded_ok h
    cases oneRegion_ok h

end Guards

section Statement

/-- The orders that were there have the status that they had. -/
def StatusesKept (before after : Db) : Prop :=
  ∀ publicId o, before.order publicId = some o →
    ∃ o', after.order publicId = some o' ∧ o'.status = o.status

/-- The customer's route, used on an order of the user's own restaurant. -/
def RouteRequest.actsForCustomer (request : RouteRequest) (user : ActorContext) (db : Db) : Prop :=
  ∃ publicId body order, request = .customerStatus publicId body ∧
    db.order publicId = some order ∧ resolveStatusActor user order = .ok .restaurantMember

/-- A webhook with the signature of the provider. -/
def RouteRequest.signed (hmacSha256 : String → String → String) (cfg : Config)
    (request : RouteRequest) : Prop :=
  ∃ rawBody signature envelope, request = .kashierWebhook rawBody signature ∧
    parseEnvelope rawBody = .ok envelope ∧
    verifyKashierWebhookSignature hmacSha256 envelope.data (signature.getD "")
      (signatureKeysOf envelope.data) cfg.kashierApiKey = .ok true

end Statement

section Keeping
variable {before db : Db} {p : Pid} {w : World} {α : Type}

/-- The writes that leave the rows of orders alone. -/
def Write.Additive : Write → Prop
  | .setOrderStatus .. => False
  | .assignOrder .. => False
  | _ => True

/-- The orders are found as they were before. -/
def OrdersFound (before : Db) (db : Db) : Prop :=
  ∀ publicId o, before.order publicId = some o → db.order publicId = some o

theorem OrdersFound.statuses (h : OrdersFound before db) : StatusesKept before db :=
  fun publicId o ho => ⟨o, h publicId o ho, rfl⟩

theorem ordersFound_apply {x : Write} (hx : x.Additive) (h : OrdersFound before db) :
    OrdersFound before (engine.apply x db) := by
  intro publicId o ho
  have hfound := h publicId o ho
  cases x with
  | insertOrder row =>
    change (db.orders ++ [row]).find? _ = some o
    have hrow : db.orders.find? (fun o => o.publicId = publicId) = some o := hfound
    rw [List.find?_append, hrow]
    rfl
  | setOrderStatus => exact absurd hx id
  | assignOrder => exact absurd hx id
  | _ => exact hfound

theorem ordersFound_keptBy (before : Db) (p : Pid) :
    KeptBy (fun db _ => OrdersFound before db) p Write.Additive := by
  intro db history log h hlog
  induction log generalizing db with
  | nil => exact h
  | cons x log ih =>
    rw [applyAll_cons]
    exact ih _ (ordersFound_apply (hlog x List.mem_cons_self) h)
      fun y hy => hlog y (List.mem_cons_of_mem x hy)

theorem inserts_additive : InsertsOnly Write.Additive where
  order _ _ _ _ _ := trivial
  item _ := trivial
  event _ _ := trivial
  session _ := trivial

/-- A program that leaves the rows of orders alone. -/
theorem additive_statuses (hw : w.AtRest) {prog : Svc α} (hprog : Within Write.Additive prog)
    (es : List Env) :
    StatusesKept w.store.db (machine.runAlone p prog es w).2.store.db := by
  have hkept := (hasWritten_atRest hw p).kept (ordersFound_keptBy w.store.db p) hprog es
    fun _ _ ho => ho
  exact OrdersFound.statuses hkept

variable (hmacSha256 : String → String → String) (cfg : Config)

/-- Without the signature nothing is written. -/
theorem within_unsigned {rawBody : Option Json} {signature region : String}
    (hunsigned : ¬∃ envelope, parseEnvelope rawBody = .ok envelope ∧
      verifyKashierWebhookSignature hmacSha256 envelope.data signature
        (signatureKeysOf envelope.data) cfg.kashierApiKey = .ok true) :
    Within Write.Additive
      (verifyAndProcessWebhook hmacSha256 cfg rawBody signature region) := by
  unfold verifyAndProcessWebhook
  split
  · trivial
  next envelope hparse =>
  split_ifs
  · trivial
  · trivial
  refine within_do (within_read fun x hx => hx) fun provider => ?_
  cases provider with
  | none => trivial
  | some provider =>
    dsimp only
    split_ifs
    · trivial
    cases hvalid : verifyKashierWebhookSignature hmacSha256 envelope.data signature
        (signatureKeysOf envelope.data) cfg.kashierApiKey with
    | error e => trivial
    | ok isValid =>
      cases isValid with
      | true => exact absurd ⟨envelope, hparse, hvalid⟩ hunsigned
      | false => trivial

/-- An actor whom the checks refuse changes nothing. -/
theorem updateStatus_refused {actor : ActorContext} {dto : UpdateOrderStatusRequest}
    {region orderId : String} (hw : w.AtRest) (es : List Env)
    (hrefused : ∀ order, w.store.db.order orderId = some order →
      mayMove actor dto order = false) :
    (machine.runAlone p (updateStatus actor dto region orderId) es w).2.store.db.orders
      = w.store.db.orders := by
  rcases updateStatus_moves actor dto region orderId (hasWritten_atRest hw p) es with
    hsame | ⟨order, horder, hmay, -⟩
  · exact hsame
  · rw [hrefused order horder] at hmay
    cases hmay

/-- A member of the restaurant is what a restaurant user counts as, if as anything. -/
theorem resolve_restaurantUser {user : ActorContext} {order : OrderEntity}
    {statusActor : StatusActor} (hrole : user.role = .restaurantUser)
    (h : resolveStatusActor user order = .ok statusActor) : statusActor = .restaurantMember := by
  unfold resolveStatusActor at h
  simp only [hrole] at h
  split_ifs at h
  all_goals simp_all

end Keeping

section Result
variable (hmacSha256 : String → String → String) (cfg : Config)

/-- Whatever the request: a restaurant user without the permissions to update, to cancel and to
assign changes no status, if he does not act for a customer of his restaurant or come with the
signature of the provider. -/
theorem status_kept_without_permission {v : Visit} {user : ActorContext}
    {permissions : List String} (hv : v.By user permissions)
    (hupdate : "orders:update" ∉ permissions) (hcancel : "orders:cancel" ∉ permissions)
    (hassign : "deliveries:assign" ∉ permissions) (request : RouteRequest) (w : World)
    (hw : w.AtRest) (hcustomer : ¬request.actsForCustomer user w.store.db)
    (hsigned : ¬request.signed hmacSha256 cfg) (p : Pid) (es : List Env) :
    StatusesKept w.store.db (request.after hmacSha256 cfg p v es w).store.db := by
  unfold RouteRequest.after
  cases hcall : request.call? v with
  | none => exact fun publicId o ho => ⟨o, ho, rfl⟩
  | some c =>
    have hreach := reaches_of_call? hv hcall
    dsimp only
    cases hreach with
    | placeOrder body dto region =>
      have hwp : wp machine anyOp (sharedSpec fun db _ => OrdersFound w.store.db db) p
          ((Call.placeOrder user (some region) dto).prog hmacSha256 cfg)
          (OnOk fun _ _ => True) w := by
        refine wp_seq (wp_mono (fun r v _ => ?_)
          (wp_placeOrder inserts_additive (ordersFound_keptBy w.store.db p)))
        cases r <;> trivial
      have hkept : OrdersFound w.store.db (machine.runAlone p ((Call.placeOrder user (some region)
          dto).prog hmacSha256 cfg) es w).2.store.db :=
        runAlone_shared ⟨hw.locked, fun _ _ ho => ho⟩ hwp
      exact OrdersFound.statuses hkept
    | restaurantStatus publicId body dto region has => exact absurd has hupdate
    | adminStatus publicId body dto region has => exact absurd has hcancel
    | assign publicId body agentId region has => exact absurd has hassign
    | customerStatus publicId body dto region =>
      have hsame : (machine.runAlone p ((Call.updateStatus user dto region publicId).prog
          hmacSha256 cfg) es w).2.store.db.orders = w.store.db.orders := by
        rw [Call.prog, Machine.runAlone_map]
        refine updateStatus_refused hw es fun order horder => ?_
        unfold mayMove
        cases hactor : resolveStatusActor user order with
        | error e => rfl
        | ok statusActor =>
          rw [resolve_restaurantUser hv.member hactor] at hactor
          exact absurd ⟨publicId, body, order, rfl, horder, hactor⟩ hcustomer
      intro id o ho
      refine ⟨o, ?_, rfl⟩
      rw [Db.order, hsame]
      exact ho
    | kashierWebhook rawBody signature region =>
      apply additive_statuses hw
      refine within_do ?_ fun _ => trivial
      apply within_unsigned
      rintro ⟨envelope, hparse, hvalid⟩
      exact hsigned ⟨rawBody, signature, envelope, rfl, hparse, hvalid⟩
    | refund transactionId body input has =>
      apply additive_statuses hw
      refine within_do ?_ fun _ => trivial
      exact within_refundPayment (fun _ _ => trivial) fun _ _ _ _ => trivial
    | recordPayout key body input has =>
      apply additive_statuses hw
      refine within_do ?_ fun _ => trivial
      exact within_recordPayout (fun _ _ _ _ => trivial) fun _ _ _ _ => trivial

/-- The request of a restaurant user whose role has these permissions. -/
def visitOf (user : ActorContext) (permissions : List String) : Visit where
  user := some user
  region := some "eg"
  permissions _ := .ok permissions

theorem visitOf_by {user : ActorContext} (hrole : user.role = .restaurantUser)
    (permissions : List String) : (visitOf user permissions).By user permissions :=
  ⟨rfl, hrole, rfl⟩

/-- A member of the staff of branch 2 of restaurant 1. -/
def staffMember : ActorContext := ⟨12, .restaurantUser, some 1, some "staff", some [2]⟩

theorem status_kept_for_reader :
    StatusesKept unacceptedOrder.store.db
      ((RouteRequest.restaurantStatus "order-1" (.ok ⟨.accepted, none⟩)).after (fun _ _ => "")
        sampleConfig 0 (visitOf staffMember ["orders:read"]) (List.replicate 9 {})
        unacceptedOrder).store.db := by
  refine status_kept_without_permission (fun _ _ => "") sampleConfig
    (visitOf_by rfl ["orders:read"]) (by decide) (by decide) (by decide) _ unacceptedOrder
    ⟨rfl, fun _ => rfl, rfl⟩ ?_ ?_ 0 (List.replicate 9 {})
  · rintro ⟨_, _, _, hroute, _⟩
    cases hroute
  · rintro ⟨_, _, _, hroute, _⟩
    cases hroute

/-- An order that waits for an agent. -/
def waitingOrder : World :=
  { store := Store.ofDb
      { orders := [{ OrderEntity.sample "order-1" .ready with deliveryAgentId := none }] } }

/-- Neither to update nor to cancel is granted: with the permission to assign an order is
assigned, and through the customer's route one is accepted without any permission. -/
theorem status_changed_without_permission :
    (¬StatusesKept waitingOrder.store.db
      ((RouteRequest.assign "order-1" (.ok (some 7))).after (fun _ _ => "") sampleConfig 0
        (visitOf staffMember ["deliveries:assign"]) (List.replicate 20 {})
        waitingOrder).store.db) ∧
    ¬StatusesKept unacceptedOrder.store.db
      ((RouteRequest.customerStatus "order-1" (.ok ⟨.accepted, none⟩)).after (fun _ _ => "")
        sampleConfig 0 (visitOf staffMember []) (List.replicate 9 {})
        unacceptedOrder).store.db := by
  have hassigned : (((RouteRequest.assign "order-1" (.ok (some 7))).after (fun _ _ => "")
      sampleConfig 0 (visitOf staffMember ["deliveries:assign"]) (List.replicate 20 {})
      waitingOrder).store.db.order "order-1").map OrderEntity.status = some .assigned := by
    decide +kernel
  have haccepted : (((RouteRequest.customerStatus "order-1" (.ok ⟨.accepted, none⟩)).after
      (fun _ _ => "") sampleConfig 0 (visitOf staffMember []) (List.replicate 9 {})
      unacceptedOrder).store.db.order "order-1").map OrderEntity.status = some .accepted := by
    decide +kernel
  constructor
  · intro hkept
    obtain ⟨o, ho, hstatus⟩ := hkept "order-1" _ rfl
    rw [ho, Option.map_some, hstatus] at hassigned
    cases hassigned
  · intro hkept
    obtain ⟨o, ho, hstatus⟩ := hkept "order-1" _ rfl
    rw [ho, Option.map_some, hstatus] at haccepted
    cases haccepted

end Result

end OrderService
