import OrderService.Calls
import OrderService.Services.Idempotency

/-! The mounted routes: the middleware before each handler, and the call that the handler makes. -/
namespace OrderService
open Interleaving

section Requests

/-- `Number(text)`. -/
inductive JsNumber where
  | nan
  | infinity (negative : Bool)
  | finite (value : Rat)
  deriving DecidableEq

def JsNumber.truthy : JsNumber → Bool
  | .nan => false
  | .infinity _ => true
  | .finite value => value ≠ 0

/-- `a || b`. -/
def JsNumber.or (a b : JsNumber) : JsNumber := if a.truthy then a else b

/-- `a === b`: not a number is equal to nothing. -/
def JsNumber.same (a b : JsNumber) : Bool := a ≠ .nan && a = b

def JsNumber.ofNat (n : Nat) : JsNumber := .finite n

/-- `Number(id)`; undefined is not a number. -/
def JsNumber.ofId : Option Nat → JsNumber
  | none => .nan
  | some n => .ofNat n

/-- What surrounds a request: the user of its token, its region (`"all"` for a fan-out), what
`getPermissions` gives for a role, and the answer that the idempotency middleware gives by
itself, if it does not hand the request on. -/
structure Visit where
  user : Option ActorContext
  region : Option String
  permissions : String → Except Err (List String)
  kept : Option JsonReply := none

/-- `CreatePayoutRequestDTO`, which takes the restaurant from the path. -/
structure PayoutBody where
  restaurantId : Nat
  amount : Int
  currency : String
  providerReferenceId : String
  amount_pos : 1 ≤ amount

/-- `RefundRequestDTO`. -/
structure RefundBody where
  amount : Int
  amount_pos : 1 ≤ amount

/-- A request to a mounted route. Ids in the path are given as `Number` reads them, bodies as
`validateBody` passes them on or refuses them. -/
inductive RouteRequest where
  | health
  | placeOrder (body : Except AppError CreateOrderRequest)
  | getOrder (publicId : String)
  | listMyOrders
  | listRestaurantOrders (restaurantId branchId queryBranchId : JsNumber)
  | restaurantStatus (publicId : String) (body : Except AppError UpdateOrderStatusRequest)
  | customerStatus (publicId : String) (body : Except AppError UpdateOrderStatusRequest)
  | adminStatus (publicId : String) (body : Except AppError UpdateOrderStatusRequest)
  | kashierWebhook (rawBody : Option Json) (signature : Option String)
  | refund (transactionId : Nat) (body : Except AppError RefundBody)
  | getPayment (restaurantId paymentId : JsNumber)
  | presence
  | agentReads
  | agentStatus (publicId : String) (body : Except AppError DeliveryAction)
  | acceptOrder (publicId : String)
  | rejectOrder (publicId : String)
  | assign (publicId : String) (agentId : Except AppError (Option Nat))
  | getBalance (restaurantId : JsNumber)
  | listPayouts (restaurantId : JsNumber)
  | recordPayout (idempotencyKey : String) (body : Except AppError PayoutBody)

end Requests

section Middleware

/-- A middleware hands on, or it responds. -/
abbrev Guarded (α : Type) := Except JsonReply α

def refuse {α : Type} (status : Nat) (message : String) : Guarded α :=
  .error ⟨status, errorBody message⟩

/-- `next(err)`. -/
def failWith {α : Type} (err : Err) : Guarded α := .error (errorHandler err)

def notAuthenticated : AppError := ⟨"User not authenticated", 401⟩

def regionNotResolvedError : AppError :=
  ⟨"Region not resolved. Provide ?region= or X-Region header, or authenticate.", 400⟩

def authenticate (v : Visit) : Guarded ActorContext :=
  match v.user with
  | none => failWith (.app notAuthenticated)
  | some user => .ok user

def requireRegion (v : Visit) : Guarded String :=
  match v.region with
  | none => failWith (.app regionNotResolvedError)
  | some region => .ok region

def requireConcreteRegion (v : Visit) : Guarded String :=
  match v.region with
  | none => failWith (.app regionNotResolvedError)
  | some region =>
    if region = "all" then failWith (.app regionNotResolvedError) else .ok region

/-- `db(region)`: there is no shard for all regions. -/
def shard (region : String) : Guarded Unit :=
  if region = "all" then failWith .failed else .ok ()

def requireAgent (user : ActorContext) : Guarded Unit :=
  if user.role ≠ .deliveryAgent then refuse 403 "Agent role required" else .ok ()

structure RBACOptions where
  resource : String
  action : String
  allowSystemAdmin : Bool := true

def hasPermission (permissions : List String) (resource action : String) : Bool :=
  permissions.contains (resource ++ ":" ++ action)

/-- `req.user.restaurantRole ?? req.user.role`, for a restaurant user. -/
def permissionRole (user : ActorContext) : String := user.restaurantRole.getD "restaurant_user"

def rbac (options : RBACOptions) (v : Visit) (user : ActorContext) : Guarded Unit :=
  if options.allowSystemAdmin ∧ user.role = .systemAdmin then .ok ()
  else if user.role = .restaurantUser then
    match v.permissions (permissionRole user) with
    | .error err => failWith err
    | .ok permissions =>
      if hasPermission permissions options.resource options.action then .ok ()
      else refuse 403 "Permission denied"
  else refuse 403 "Permission denied"

def requireRestaurantMember (restaurantId : JsNumber) (user : ActorContext) : Guarded Unit :=
  if !restaurantId.truthy then refuse 400 "missing restaurantId"
  else if user.role = .systemAdmin then .ok ()
  else if !(JsNumber.ofId user.restaurantId).same restaurantId then refuse 403 "Permission denied"
  else .ok ()

/-- An id that is no number of a branch is taken from the query; without any, the endpoint is taken
to be of no branch. -/
def requireBranchAccess (branchId queryBranchId : JsNumber) (user : ActorContext) : Guarded Unit :=
  if user.role = .systemAdmin then .ok ()
  else if user.restaurantRole = some "owner" then .ok ()
  else if !(branchId.or queryBranchId).truthy then .ok ()
  else if !(user.branchIds.getD []).any fun id => (JsNumber.ofNat id).same (branchId.or queryBranchId)
    then refuse 403 "You do not have access to this branch"
  else .ok ()

/-- `idempotency({strict: true})`. -/
def idempotent (v : Visit) : Guarded Unit :=
  match v.kept with
  | some reply => .error reply
  | none => .ok ()

/-- `validateBody`, in the `try` of a handler. -/
def validated {α : Type} : Except AppError α → Guarded α
  | .error err => failWith (.app err)
  | .ok dto => .ok dto

end Middleware

section Routes

/-- What the handler does: a call of a service that writes, reads alone, or the presence and the
offers in Redis. `goOffline` belongs to the last: the list that it checks is never falsy, so its
update is not reached. -/
inductive Handler where
  | call (c : Call)
  | reads
  | presence

/-- `OrderController.updateStatus`. -/
def updateStatusHandler (user : ActorContext) (region publicId : String)
    (body : Except AppError UpdateOrderStatusRequest) : Guarded Handler := do
  let dto ← validated body
  shard region
  return .call (.updateStatus user dto region publicId)

/-- The controllers that serve one region only. -/
def oneRegion (region : String) (c : Handler) : Guarded Handler :=
  if region = "all" then failWith (.app regionNotResolvedError) else .ok c

def RouteRequest.serve (v : Visit) : RouteRequest → Guarded Handler
  | .health => .ok .reads
  | .placeOrder body => do
    let user ← authenticate v
    let region ← requireRegion v
    idempotent v
    let dto ← validated body
    return .call (.placeOrder user (some region) dto)
  | .getOrder _ => do
    let _ ← authenticate v
    let _ ← requireRegion v
    return .reads
  | .listMyOrders => do
    let _ ← authenticate v
    let region ← requireRegion v
    oneRegion region .reads
  | .listRestaurantOrders restaurantId branchId queryBranchId => do
    let user ← authenticate v
    let region ← requireRegion v
    requireRestaurantMember restaurantId user
    requireBranchAccess branchId queryBranchId user
    rbac ⟨"orders", "read", true⟩ v user
    oneRegion region .reads
  | .restaurantStatus publicId body => do
    let user ← authenticate v
    let region ← requireRegion v
    rbac ⟨"orders", "update", true⟩ v user
    idempotent v
    updateStatusHandler user region publicId body
  | .customerStatus publicId body => do
    let user ← authenticate v
    let region ← requireRegion v
    idempotent v
    updateStatusHandler user region publicId body
  | .adminStatus publicId body => do
    let user ← authenticate v
    let region ← requireRegion v
    rbac ⟨"orders", "cancel", true⟩ v user
    idempotent v
    updateStatusHandler user region publicId body
  | .kashierWebhook rawBody signature => do
    let region ← requireConcreteRegion v
    if rawBody.isNone then failWith (.app malformedWebhookError)
    else if (signature.getD "") = "" then
      failWith (.app ⟨"Missing signature authentication", 400⟩)
    else return .call (.webhook rawBody (signature.getD "") region)
  | .refund transactionId body => do
    let user ← authenticate v
    let region ← requireConcreteRegion v
    rbac ⟨"payments", "refund", true⟩ v user
    let dto ← validated body
    return .call (.refundPayment ⟨transactionId, dto.amount, region, dto.amount_pos⟩)
  | .getPayment restaurantId _ => do
    let user ← authenticate v
    let _ ← requireConcreteRegion v
    requireRestaurantMember restaurantId user
    rbac ⟨"payments", "read", true⟩ v user
    return .reads
  | .presence => do
    let user ← authenticate v
    requireAgent user
    let region ← requireRegion v
    oneRegion region .presence
  | .agentReads => do
    let user ← authenticate v
    requireAgent user
    let region ← requireRegion v
    oneRegion region .reads
  | .agentStatus publicId body => do
    let user ← authenticate v
    requireAgent user
    let region ← requireRegion v
    idempotent v
    let action ← validated body
    oneRegion region (.call (.agentUpdateStatus publicId user.userId region action))
  | .acceptOrder publicId => do
    let user ← authenticate v
    requireAgent user
    let region ← requireRegion v
    idempotent v
    oneRegion region (.call (.claim publicId user.userId region))
  | .rejectOrder _ => do
    let user ← authenticate v
    requireAgent user
    let region ← requireRegion v
    idempotent v
    oneRegion region .presence
  | .assign publicId agentId => do
    let user ← authenticate v
    let region ← requireRegion v
    rbac ⟨"deliveries", "assign", true⟩ v user
    idempotent v
    if region = "all" then failWith (.app regionNotResolvedError)
    else do
      let agentId ← validated agentId
      match agentId with
      | none => refuse 400 "agentId is required"
      | some agentId => return .call (.adminAssign publicId agentId region)
  | .getBalance restaurantId => do
    let user ← authenticate v
    let region ← requireRegion v
    requireRestaurantMember restaurantId user
    rbac ⟨"finance", "read", true⟩ v user
    oneRegion region .reads
  | .listPayouts restaurantId => do
    let user ← authenticate v
    let region ← requireRegion v
    requireRestaurantMember restaurantId user
    rbac ⟨"finance", "read", true⟩ v user
    oneRegion region .reads
  | .recordPayout idempotencyKey body => do
    let user ← authenticate v
    let region ← requireRegion v
    rbac ⟨"finance", "payout_create", true⟩ v user
    idempotent v
    let dto ← validated body
    if hkey : idempotencyKey = "" then
      failWith (.app ⟨"Idempotency-Key header is required", 400⟩)
    else do
      shard region
      return .call (.recordPayout ⟨dto.restaurantId, dto.amount, dto.currency, region,
        dto.providerReferenceId, idempotencyKey, dto.amount_pos, hkey⟩)

/-- The call of a service that writes, where the request comes to one. -/
def RouteRequest.call? (v : Visit) (request : RouteRequest) : Option Call :=
  match request.serve v with
  | .ok (.call c) => some c
  | _ => none

section Serving
variable (hmacSha256 : String → String → String) (cfg : Config)

/-- The world after a request that `p` serves without interruption. -/
def RouteRequest.after (p : Pid) (v : Visit) (request : RouteRequest) (es : List Env)
    (w : World) : World :=
  match request.call? v with
  | none => w
  | some c => (machine.runAlone p (c.prog hmacSha256 cfg) es w).2

end Serving

end Routes

end OrderService
