import OrderService.Services.Refund

/-! `CoreClient.request`, the stock calls of the branch client, and core as the client sees it. -/
namespace OrderService
open Interleaving

structure CoreClientRequest where
  method : String
  path : String
  body : Option Json
  correlationId : Option String := none
  idempotencyKey : Option String := none

/-- `new CoreClient(baseUrl, apiKey)`. -/
structure CoreClient where
  baseUrl : String
  apiKey : String

/-- What `fetch` sends; the URL is the path at the base. -/
structure HttpRequest where
  method : String
  baseUrl : String
  path : String
  headers : List (String × String)
  body : Option String
  deriving DecidableEq

/-- What comes back: the status, the text of the body, and its JSON where it has one. -/
structure HttpResponse where
  status : Nat
  text : String
  json : Option Json

/-- An optional header is sent unless its value is missing or empty. -/
def optionalHeader (name : String) : Option String → List (String × String)
  | none => []
  | some value => if value = "" then [] else [(name, value)]

def CoreClient.headers (client : CoreClient) (req : CoreClientRequest) : List (String × String) :=
  [("Content-Type", "application/json"), ("api-key", client.apiKey)] ++
    optionalHeader "X-CorrelationId" req.correlationId ++
    optionalHeader "Idempotency-Key" req.idempotencyKey

def CoreClient.httpRequest (client : CoreClient) (req : CoreClientRequest) : HttpRequest where
  method := req.method
  baseUrl := client.baseUrl
  path := req.path
  headers := client.headers req
  body := req.body.map Json.stringify

/-- One attempt over HTTP. -/
inductive CoreOp where
  | fetch (req : HttpRequest)

abbrev CoreOp.Res : CoreOp → Type
  | .fetch _ => Option HttpResponse

abbrev CoreSvc (α : Type) := Prog CoreOp CoreOp.Res Err α

def coreUnavailableError (status : Nat) : AppError := ⟨"core-service " ++ toString status, status⟩

def coreUpstreamError (status : Nat) (body : String) : AppError :=
  ⟨"core-service " ++ toString status ++ ": " ++ body, status⟩

/-- What the client makes of a response; `undefined` is `none`. -/
def readResponse (res : HttpResponse) : Except Err (Option Json) :=
  if res.status ≥ 500 then .error (.app (coreUnavailableError res.status))
  else if ¬(200 ≤ res.status ∧ res.status ≤ 299) then
    .error (.app (coreUpstreamError res.status res.text))
  else if res.status = 204 then .ok none
  else match res.json with
    | none => .error .failed
    | some json => .ok (some json)

/-- The result of an attempt; without a response `fetch` rejects. -/
def readReply : Option HttpResponse → Except Err (Option Json)
  | none => .error .failed
  | some res => readResponse res

def attemptRequest (req : HttpRequest) : CoreSvc (Option Json) := do
  let reply ← Interleaving.Prog.perform (CoreOp.fetch req)
  Interleaving.Prog.ofExcept (readReply reply)

/-- `CoreClient.request`: three attempts. -/
def CoreClient.request (client : CoreClient) (req : CoreClientRequest) : CoreSvc (Option Json) :=
  (attemptRequest (client.httpRequest req)).retry isRetryable 2

def ReserveStockItem.json (item : ReserveStockItem) : Json :=
  .obj [("productId", .num (toString item.productId)), ("quantity", .num (toString item.quantity))]

/-- The two stock calls differ in the last part of their path. -/
def stockRequest (action : String) (branchId : Nat) (items : List ReserveStockItem)
    (idempotencyKey correlationId : Option String) : CoreClientRequest where
  method := "POST"
  path := "/api/internal/branches/" ++ toString branchId ++ "/" ++ action
  body := some (.obj [("items", .arr (items.map ReserveStockItem.json))])
  idempotencyKey := idempotencyKey
  correlationId := correlationId

def reserveStock (client : CoreClient) (branchId : Nat) (items : List ReserveStockItem)
    (idempotencyKey correlationId : Option String) : CoreSvc (Option Json) :=
  client.request (stockRequest "reserve-stock" branchId items idempotencyKey correlationId)

def undoReserveStock (client : CoreClient) (branchId : Nat) (items : List ReserveStockItem)
    (idempotencyKey correlationId : Option String) : CoreSvc (Option Json) :=
  client.request (stockRequest "undo-reserve-stock" branchId items idempotencyKey correlationId)

section Core

/-- The `Idempotency-Key` that a request carries. -/
def HttpRequest.idempotencyKey (req : HttpRequest) : Option String :=
  (req.headers.find? fun h => h.1 = "Idempotency-Key").map Prod.snd

/-- The stock requests that core has applied. -/
structure CoreStock where
  applied : List HttpRequest := []

/-- Core applies a request unless it has applied one with the same key. -/
def CoreStock.receive (core : CoreStock) (req : HttpRequest) : CoreStock :=
  match req.idempotencyKey with
  | none => ⟨core.applied ++ [req]⟩
  | some key =>
    if core.applied.any fun r => r.idempotencyKey = some key then core
    else ⟨core.applied ++ [req]⟩

/-- What becomes of an attempt: whether core receives it, and what the client sees of that. -/
structure CoreEnv where
  received : Bool
  reply : Option HttpResponse

/-- One client and core; nothing else moves. -/
def coreMachine : Machine Unit CoreOp CoreOp.Res Err CoreStock CoreEnv Empty where
  exec _ o e core :=
    match o with
    | .fetch req => some (.ok e.reply, if e.received then core.receive req else core)
  crash _ core := core
  ext x _ := x.elim

/-- The HTTP side of a stock operation of a service. -/
def Op.request (client : CoreClient) (correlationId : Option String) :
    Op → Option (CoreSvc (Option Json))
  | .reserveStock branchId items key =>
    some (OrderService.reserveStock client branchId items key correlationId)
  | .undoReserveStock branchId items key =>
    some (OrderService.undoReserveStock client branchId items key correlationId)
  | _ => none

end Core

end OrderService
