import OrderService.Services.CoreClient
import OrderService.DeliveredSettled
import OrderService.Interleaving.Trace

/-! How often a stock call of a placement takes effect, whatever becomes of its HTTP attempts. -/
namespace OrderService
open Interleaving

section Statement

/-- A reply after which the client tries again, if it has an attempt left. -/
def CoreEnv.retried (e : CoreEnv) : Bool :=
  match readReply e.reply with
  | .ok _ => false
  | .error err => isRetryable err

/-- The attempts that a request makes, of `n` at most. -/
def attemptsMade : Nat → List CoreEnv → List CoreEnv
  | 0, _ => []
  | _ + 1, [] => []
  | n + 1, e :: es => e :: if e.retried then attemptsMade n es else []

/-- `randomUUID()` is never empty. -/
def RealUuid : (o : Op) → o.Res → Prop
  | .randomUUID, uuid => uuid ≠ ""
  | _, _ => True

def Op.isReserve : Op → Bool
  | .reserveStock .. => true
  | _ => false

/-- Core has applied at most one request more. -/
def EffectiveOnce (core core' : CoreStock) : Prop :=
  core'.applied.length ≤ core.applied.length + 1

end Statement

section Attempts
variable {req : HttpRequest} {core : CoreStock} {es : List CoreEnv}

/-- Core after `n` deliveries of the same request. -/
def CoreStock.receiveTimes (core : CoreStock) (req : HttpRequest) : Nat → CoreStock
  | 0 => core
  | n + 1 => (core.receive req).receiveTimes req n

theorem receiveTimes_succ (core : CoreStock) (req : HttpRequest) (n : Nat) :
    core.receiveTimes req (n + 1) = (core.receive req).receiveTimes req n := rfl

/-- After an attempt the handler decides whether there is another one. -/
theorem attempt_leaves {handler : Err → CoreSvc (Option Json)} (next : CoreStock → CoreStock)
    {e : CoreEnv} (hagain : ∀ err core', isRetryable err = true →
      (coreMachine.runAlone () (handler err) es core').2 = next core')
    (hstop : ∀ err core', isRetryable err = false →
      (coreMachine.runAlone () (handler err) es core').2 = core') :
    (coreMachine.runAlone () (tryCatch (attemptRequest req) handler) (e :: es) core).2
      = (if e.retried then next else id) (if e.received then core.receive req else core) := by
  have hrun : coreMachine.runAlone () (tryCatch (attemptRequest req) handler) (e :: es) core
      = coreMachine.runAlone () (tryCatch (Prog.ofExcept (readReply e.reply)) handler) es
        (if e.received then core.receive req else core) := rfl
  rw [hrun, CoreEnv.retried]
  cases readReply e.reply with
  | ok a => rfl
  | error err =>
    dsimp only
    by_cases hretry : isRetryable err = true
    · rw [if_pos hretry]
      exact hagain err _ hretry
    · rw [if_neg hretry]
      exact hstop err _ (Bool.eq_false_iff.mpr hretry)

/-- What the retries leave: core has received the request as often as an attempt came through. -/
theorem retry_leaves (req : HttpRequest) (further : Nat) (es : List CoreEnv) (core : CoreStock) :
    (coreMachine.runAlone () ((attemptRequest req).retry isRetryable further) es core).2
      = core.receiveTimes req ((attemptsMade (further + 1) es).countP CoreEnv.received) := by
  induction further generalizing es core with
  | zero =>
    cases es with
    | nil => rfl
    | cons e es =>
      -- The last attempt: its error is thrown.
      have hlast : (coreMachine.runAlone () (attemptRequest req) (e :: es) core).2
          = if e.received then core.receive req else core := by
        have hrun : coreMachine.runAlone () (attemptRequest req) (e :: es) core
            = coreMachine.runAlone () (Prog.ofExcept (readReply e.reply)) es
              (if e.received then core.receive req else core) := rfl
        rw [hrun]
        cases readReply e.reply <;> rfl
      have hmade : attemptsMade 1 (e :: es) = [e] := by
        cases hretried : e.retried <;> simp [attemptsMade, hretried]
      rw [Prog.retry, hlast, hmade]
      cases hreceived : e.received <;> simp [hreceived, CoreStock.receiveTimes]
  | succ further ih =>
    cases es with
    | nil => rfl
    | cons e es =>
      refine (attempt_leaves (fun core' => core'.receiveTimes req
        ((attemptsMade (further + 1) es).countP CoreEnv.received)) ?_ ?_).trans ?_
      · intro err core' hretry
        rw [if_pos hretry]
        exact ih es core'
      · intro err core' hretry
        rw [if_neg (by simp [hretry])]
        rfl
      · cases hretried : e.retried <;> cases hreceived : e.received <;>
          simp [attemptsMade, hretried, hreceived, CoreStock.receiveTimes]

/-- Without a key core applies what it receives. -/
theorem receiveTimes_unkeyed (h : req.idempotencyKey = none) (n : Nat) (core : CoreStock) :
    (core.receiveTimes req n).applied.length = core.applied.length + n := by
  induction n generalizing core with
  | zero => rfl
  | succ n ih =>
    have hreceive : (core.receive req).applied = core.applied ++ [req] := by
      rw [CoreStock.receive, h]
    rw [receiveTimes_succ, ih, hreceive, List.length_append, List.length_singleton]
    omega

/-- A request whose key core knows changes nothing. -/
theorem receive_known {key : String} (h : req.idempotencyKey = some key)
    (hknown : core.applied.any (fun r => r.idempotencyKey = some key) = true) :
    core.receive req = core := by
  rw [CoreStock.receive, h]
  exact if_pos hknown

theorem receiveTimes_known {key : String} (h : req.idempotencyKey = some key)
    (hknown : core.applied.any (fun r => r.idempotencyKey = some key) = true) (n : Nat) :
    core.receiveTimes req n = core := by
  induction n with
  | zero => rfl
  | succ n ih => rw [receiveTimes_succ, receive_known h hknown, ih]

/-- With a key core applies a request once. -/
theorem receiveTimes_keyed (key : String) (h : req.idempotencyKey = some key) (n : Nat)
    (core : CoreStock) : EffectiveOnce core (core.receiveTimes req n) := by
  unfold EffectiveOnce
  cases n with
  | zero => exact Nat.le_succ _
  | succ n =>
    rw [receiveTimes_succ]
    cases hknown : core.applied.any fun r => r.idempotencyKey = some key with
    | true =>
      rw [receive_known h hknown, receiveTimes_known h hknown]
      omega
    | false =>
      have hreceive : core.receive req = ⟨core.applied ++ [req]⟩ := by
        rw [CoreStock.receive, h]
        exact if_neg (by simp [hknown])
      have hnow : (core.receive req).applied.any (fun r => r.idempotencyKey = some key) = true := by
        rw [hreceive]
        simp [h]
      rw [receiveTimes_known h hnow, hreceive, List.length_append, List.length_singleton]

end Attempts

section Keys
variable {client : CoreClient}

/-- A request carries the key it was given, unless that is empty. -/
theorem httpRequest_key (req : CoreClientRequest) :
    (client.httpRequest req).idempotencyKey
      = req.idempotencyKey.bind fun key => if key = "" then none else some key := by
  have hcorrelation : ((optionalHeader "X-CorrelationId" req.correlationId).find? fun h =>
      decide (h.1 = "Idempotency-Key")) = none := by
    cases req.correlationId with
    | none => rfl
    | some id =>
      by_cases hid : id = "" <;> simp [optionalHeader, hid]
  have hfixed : ([("Content-Type", "application/json"), ("api-key", client.apiKey)].find? fun h =>
      decide (h.1 = "Idempotency-Key")) = none := by simp
  rw [HttpRequest.idempotencyKey, CoreClient.httpRequest, CoreClient.headers, List.find?_append,
    List.find?_append, hfixed, hcorrelation, Option.none_or, Option.none_or]
  cases req.idempotencyKey with
  | none => rfl
  | some key =>
    by_cases hkey : key = "" <;> simp [optionalHeader, hkey]

/-- The stock calls of a placement: a reservation carries the public id of the order, a release
carries no key. -/
def Op.StockKeyed : Op → Prop
  | .reserveStock _ _ key => ∃ publicId, key = some publicId ∧ publicId ≠ ""
  | .undoReserveStock _ _ key => key = none
  | _ => True

/-- A program whose stock calls carry the keys of a placement. -/
abbrev Keyed {α : Type} (prog : Svc α) : Prop := prog.Calls Op.StockKeyed RealUuid fun _ => True

theorem keyed_do {α β : Type} {prog : Svc α} {f : α → Svc β} (hp : Keyed prog)
    (hf : ∀ a, Keyed (f a)) : Keyed (prog >>= f) := Prog.calls_do hp fun a _ => hf a

theorem keyed_any {o : Op} (ho : o.StockKeyed) : Keyed (Prog.perform o) := calls_any ho

theorem keyed_undoStock {branchId : Nat} {items : List ReserveStockItem} :
    Keyed (undoStock branchId items) := Prog.calls_catch (keyed_any rfl) fun _ => trivial

theorem keyed_updateOrderStatus {publicId : String} {status : OrderStatus} {c : Conn}
    {stamp : Option Stamp} : Keyed (updateOrderStatus publicId status c stamp) := by
  refine keyed_do (keyed_any trivial) fun now => keyed_do (keyed_any trivial) fun row => ?_
  exact calls_toEntity fun _ _ => trivial

theorem keyed_insertOrder {data : OrderData} {lines : Nat → List OrderItemData} :
    Keyed (insertOrder data lines) := by
  refine keyed_do (keyed_do (keyed_any trivial) fun _ => keyed_any trivial) fun order => ?_
  refine keyed_do (keyed_do (keyed_any trivial) fun _ => keyed_any trivial) fun rows => ?_
  refine keyed_do (calls_onlyIf (keyed_any trivial)) fun _ => ?_
  exact keyed_do (keyed_any trivial) fun _ => trivial

theorem keyed_openPayment {cfg : Config} {order : OrderEntity} {branchId : Nat}
    {stock : List ReserveStockItem} : Keyed (openPayment cfg order branchId stock) := by
  refine Prog.calls_catch (keyed_do (keyed_do (keyed_any trivial) fun existing => ?_)
    fun _ => trivial) fun err => ?_
  · cases existing with
    | some session => trivial
    | none =>
      refine keyed_do (keyed_any trivial) fun result => ?_
      exact keyed_do (keyed_do (keyed_any trivial) fun _ => keyed_any trivial) fun _ => trivial
  · exact keyed_do keyed_updateOrderStatus fun _ => keyed_do keyed_undoStock fun _ => trivial

/-- The reservation is keyed by the id that was drawn for the order. -/
theorem keyed_submitOrder {cfg : Config} {actor : ActorContext} {resolvedRegion : String}
    {branch : Branch} {address : CoreCustomerAddress} {products : List CoreBranchProduct}
    {dto : CreateOrderRequest} :
    Keyed (submitOrder cfg actor resolvedRegion branch address products dto) := by
  have huuid : (Prog.perform Op.randomUUID : Svc String).Calls Op.StockKeyed RealUuid
      fun uuid => uuid ≠ "" := Prog.calls_perform trivial fun _ h => h
  apply Prog.calls_do huuid
  intro publicId hpublicId
  have hkey : Op.StockKeyed (.reserveStock dto.branchId
      (dto.items.map fun i => ⟨i.productId, i.quantity⟩) (some publicId)) :=
    ⟨publicId, rfl, hpublicId⟩
  refine keyed_do (keyed_any hkey) fun _ => keyed_do (keyed_any trivial) fun _ => ?_
  refine keyed_do (Prog.calls_catch keyed_insertOrder fun err => ?_) fun placed => ?_
  · exact keyed_do (keyed_any trivial) fun _ => keyed_do keyed_undoStock fun _ => trivial
  have hpayment : Keyed (paymentData cfg dto placed.1
      (dto.items.map fun i => ⟨i.productId, i.quantity⟩)) := by
    unfold paymentData
    split_ifs
    · exact keyed_do keyed_openPayment fun _ => trivial
    · trivial
  refine keyed_do hpayment fun payment => keyed_do (keyed_any trivial) fun _ => ?_
  exact keyed_do (calls_onlyIf (keyed_any trivial)) fun _ => trivial

theorem keyed_placeOrder {cfg : Config} {actor : ActorContext} {region : Option String}
    {dto : CreateOrderRequest} : Keyed (placeOrder cfg actor region dto) := by
  refine keyed_do (keyed_any trivial) fun branch => ?_
  split_ifs
  · trivial
  refine keyed_do (keyed_any trivial) fun flag => ?_
  split_ifs
  · trivial
  refine keyed_do (Prog.calls_ofExcept fun _ _ => trivial) fun resolvedRegion => ?_
  split_ifs
  · trivial
  refine keyed_do (keyed_any trivial) fun address => ?_
  split_ifs
  · trivial
  refine keyed_do (keyed_any trivial) fun products => ?_
  split_ifs
  · trivial
  · exact keyed_submitOrder
  · trivial

end Keys

section Result

/-- A stock call of a placement takes effect at most once if and only if it is a reservation, or core
receives at most one of the attempts that are made. -/
theorem stock_call_effective_once_iff (cfg : Config) (actor : ActorContext)
    (region : Option String) (dto : CreateOrderRequest) (o : Op)
    (ho : (placeOrder cfg actor region dto).Performs RealUuid o) (client : CoreClient)
    (correlationId : Option String) (call : CoreSvc (Option Json))
    (hcall : o.request client correlationId = some call) (core : CoreStock) (es : List CoreEnv) :
    EffectiveOnce core (coreMachine.runAlone () call es core).2 ↔
      o.isReserve = true ∨ (attemptsMade 3 es).countP CoreEnv.received ≤ 1 := by
  have hkeyed : o.StockKeyed := keyed_placeOrder.performs ho
  cases o with
  | reserveStock branchId items key =>
    obtain ⟨publicId, rfl, hpublicId⟩ := hkeyed
    simp only [Op.request, Option.some.injEq] at hcall
    subst hcall
    refine iff_of_true ?_ (.inl rfl)
    rw [reserveStock, CoreClient.request, retry_leaves]
    apply receiveTimes_keyed publicId
    rw [httpRequest_key]
    simp [stockRequest, hpublicId]
  | undoReserveStock branchId items key =>
    have hnone : key = none := hkeyed
    subst hnone
    simp only [Op.request, Option.some.injEq] at hcall
    subst hcall
    rw [undoReserveStock, CoreClient.request, retry_leaves, EffectiveOnce, receiveTimes_unkeyed]
    · simp [Op.isReserve]
    · rw [httpRequest_key]
      rfl
  | _ => cases hcall

def cashOrder : Svc OrderResponse :=
  placeOrder sampleConfig ⟨5, .other "customer", none, none, none⟩ (some "eg")
    ⟨1, 1, .cod, [⟨3, 1⟩]⟩

/-- The insert of the order fails, and the stock is released. -/
def insertFails : List Env :=
  List.replicate 8 kosharyAnswers ++ [{ kosharyAnswers with fail := true }]
    ++ List.replicate 2 kosharyAnswers

def Op.isRelease : Op → Bool
  | .undoReserveStock branchId items key => branchId = 1 ∧ items = [⟨3, 1⟩] ∧ key = none
  | _ => false

theorem cashOrder_releases :
    cashOrder.Performs RealUuid (.undoReserveStock 1 [⟨3, 1⟩] none) := by
  have hany : (machine.trace 0 cashOrder insertFails emptyShard).any Op.isRelease = true := by
    decide +kernel
  obtain ⟨o, ho, hrelease⟩ := List.any_eq_true.mp hany
  have hsame : o = .undoReserveStock 1 [⟨3, 1⟩] none := by
    cases o with
    | undoReserveStock branchId items key =>
      simp only [Op.isRelease, Bool.decide_and, Bool.and_eq_true, decide_eq_true_eq] at hrelease
      obtain ⟨rfl, rfl, rfl⟩ := hrelease
      rfl
    | _ => cases hrelease
  subst hsame
  refine performs_of_mem_trace (fun e he o w a w' hx => ?_) ho
  have huuid : ∀ e ∈ insertFails, e.uuid ≠ "" := by decide
  cases o with
  | randomUUID =>
    simp only [machine_exec, exec] at hx
    split_ifs at hx
    simp only [Option.some.injEq, Prod.mk.injEq, Except.ok.injEq] at hx
    rw [← hx.1]
    exact huuid e he
  | _ => trivial

def sampleCore : CoreClient := ⟨"http://core", "internal-key"⟩

/-- Core applies the release, and its reply is lost; the second attempt comes through. -/
def replyLost : List CoreEnv := [⟨true, none⟩, ⟨true, some ⟨200, "", some (.obj [])⟩⟩]

/-- The attempts that core does not receive are harmless. -/
def requestLost : List CoreEnv := [⟨false, none⟩, ⟨true, some ⟨200, "", some (.obj [])⟩⟩]

theorem stock_call_effective_once_release :
    EffectiveOnce {} (coreMachine.runAlone ()
      (undoReserveStock sampleCore 1 [⟨3, 1⟩] none none) requestLost {}).2 :=
  (stock_call_effective_once_iff sampleConfig ⟨5, .other "customer", none, none, none⟩ (some "eg")
    ⟨1, 1, .cod, [⟨3, 1⟩]⟩ (.undoReserveStock 1 [⟨3, 1⟩] none) cashOrder_releases sampleCore none
    _ rfl {} requestLost).mpr (.inr (by decide))

/-- The release takes effect twice. -/
theorem stock_released_twice :
    cashOrder.Performs RealUuid (.undoReserveStock 1 [⟨3, 1⟩] none) ∧
      ¬EffectiveOnce {} (coreMachine.runAlone ()
        (undoReserveStock sampleCore 1 [⟨3, 1⟩] none none) replyLost {}).2 := by
  refine ⟨cashOrder_releases, ?_⟩
  have hleaves := retry_leaves
    (sampleCore.httpRequest (stockRequest "undo-reserve-stock" 1 [⟨3, 1⟩] none none)) 2 replyLost {}
  rw [undoReserveStock, CoreClient.request, hleaves, EffectiveOnce, receiveTimes_unkeyed]
  · decide
  · rw [httpRequest_key]
    rfl

end Result

end OrderService
