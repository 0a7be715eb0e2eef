import OrderService.Interleaving.Retry
import OrderService.Services.Webhook

/-! `KashierClient.refund` and `PaymentService.refundPayment`. -/
namespace OrderService

section Client

/-- How `JSON.stringify` shows a character of a string. -/
def jsonChar (c : Char) : String :=
  if c.toNat = 34 then "\\\""
  else if c.toNat = 92 then "\\\\"
  else if c.toNat = 8 then "\\b"
  else if c.toNat = 9 then "\\t"
  else if c.toNat = 10 then "\\n"
  else if c.toNat = 12 then "\\f"
  else if c.toNat = 13 then "\\r"
  else if c.toNat < 32 then
    "\\u00" ++ String.ofList [Nat.digitChar (c.toNat / 16), Nat.digitChar (c.toNat % 16)]
  else c.toString

def jsonString (s : String) : String := "\"" ++ String.join (s.toList.map jsonChar) ++ "\""

mutual

/-- `JSON.stringify(value)`. -/
def Json.stringify : Json → String
  | .null => "null"
  | .bool b => if b then "true" else "false"
  | .num t => t
  | .str s => jsonString s
  | .arr items => "[" ++ ",".intercalate (Json.stringifyItems items) ++ "]"
  | .obj fields => "\x7b" ++ ",".intercalate (Json.stringifyFields fields) ++ "\x7d"

def Json.stringifyItems : List Json → List String
  | [] => []
  | item :: rest => item.stringify :: Json.stringifyItems rest

def Json.stringifyFields : List (String × Json) → List String
  | [] => []
  | (name, value) :: rest =>
    (jsonString name ++ ":" ++ value.stringify) :: Json.stringifyFields rest

end

structure RefundResult where
  success : Bool
  providerReferenceId : String
  rawResponse : Json

/-- `data.transactionId || ""`, as the column takes it. -/
def refundReference (data : List (String × Json)) : String :=
  match getField data "transactionId" with
  | none => ""
  | some v =>
    if v.truthy then
      match v with
      | .str s => s
      | j => j.stringify
    else ""

def fieldIs (data : List (String × Json)) (name s : String) : Bool :=
  ((getField data name).map fun j => j.isText s).getD false

/-- Only of a null can no property be read; what is no object has none of these. -/
def refundResult (data : Json) : Except Err RefundResult :=
  match data with
  | .null => .error .typeError
  | .obj fields => .ok ⟨fieldIs fields "message" "success" || fieldIs fields "status" "SUCCESS",
      refundReference fields, data⟩
  | _ => .ok ⟨false, "", data⟩

/-- One attempt. The texts of a status below 500 include what the response says. -/
def attemptRefund (params : RefundParams) : Svc RefundResult := do
  let response ← Interleaving.Prog.perform (Op.fetchRefund params)
  match response with
  | .lost => throw .failed
  | .status code text =>
    if code ≥ 500 then throwApp ("Kashier refund failed: " ++ toString code) code
    else throwApp ("Kashier refund failed: " ++ toString code ++ " " ++ text) code
  | .ok data => Interleaving.Prog.ofExcept (refundResult data)

/-- `!(err instanceof AppError) || err.statusCode >= 500`. -/
def isRetryable : Err → Bool
  | .app e => e.statusCode ≥ 500
  | _ => true

/-- Keys of development, or a test run. -/
def mockKashier (cfg : Config) : Bool :=
  cfg.kashierApiKey = "default-test-key" || cfg.kashierSecretKey = "mock-secret-key" ||
    cfg.nodeEnv = "test"

/-- `KashierClient.refund`: three attempts, and no exception. -/
def kashierRefund (cfg : Config) (params : RefundParams) : Svc RefundResult :=
  if mockKashier cfg then do
    let random ← Interleaving.Prog.perform Op.random36
    pure ⟨true, "ref_tx_" ++ random, .obj [("message", .str "success"), ("status", .str "SUCCESS")]⟩
  else tryCatch ((attemptRefund params).retry isRetryable 2) fun error =>
    pure ⟨false, "", .str error.message⟩

end Client

section Service

/-- `PaymentResponseDTO`. -/
structure PaymentResponse where
  id : Nat
  orderId : Option Nat
  type : TransactionType
  method : TransactionMethod
  provider : Option String
  providerReferenceId : Option String
  status : TransactionStatus
  amount : Int
  currency : String
  isRefunded : Bool
  refundedPaymentId : Option Nat
  createdAt : Time
  updatedAt : Time

def PaymentResponse.ofTransaction (tx : TransactionEntity) : PaymentResponse where
  id := tx.id
  orderId := tx.orderId
  type := tx.transactionType
  method := tx.method
  provider := tx.providerId.bind fun id => if id = kashierProviderId then some "kashier" else none
  providerReferenceId := tx.providerReferenceId
  status := tx.status
  amount := tx.amount
  currency := tx.currency
  isRefunded := tx.isRefunded
  refundedPaymentId := tx.refundedPaymentId
  createdAt := tx.createdAt
  updatedAt := tx.updatedAt

/-- The refund goes from the merchant back to the customer; it carries no idempotency key. -/
def refundData (region : String) (tx : TransactionEntity) (refundRes : RefundResult)
    (amount : Int) : TransactionData where
  region := region
  orderId := tx.orderId
  transactionType := .refund
  method := tx.method
  providerId := tx.providerId
  providerReferenceId := some refundRes.providerReferenceId
  status := .succeeded
  amount := amount
  currency := tx.currency
  srcAccId := tx.dstAccId
  dstAccId := tx.srcAccId
  isRefunded := false
  refundedPaymentId := some tx.id

/-- The public id that is looked up here is not used afterwards. -/
def lookUpOrder (tx : TransactionEntity) : Svc Unit :=
  match orNull tx.orderId with
  | none => pure ()
  | some orderId => do
    let _ ← sql .trx (.findOrderById orderId)
    pure ()

/-- What refuses a refund of the row. -/
def assertRefundable (tx : TransactionEntity) (amount : Int) : Except Err Unit :=
  if tx.transactionType ≠ .charge ∨ tx.status ≠ .succeeded then
    .error (.app ⟨"Only successful charge transactions can be refunded", 400⟩)
  else if tx.isRefunded then
    .error (.app ⟨"This transaction has already been refunded", 400⟩)
  else if amount > tx.amount then
    .error (.app ⟨"Refund amount (" ++ toString amount ++ ") exceeds original charge amount (" ++
      toString tx.amount ++ ")", 400⟩)
  else .ok ()

def recordRefund (region : String) (tx : TransactionEntity) (refundRes : RefundResult)
    (amount : Int) : Svc PaymentResponse := do
  markTransactionAsRefunded tx.id .trx
  let refundTx ← createTransaction (refundData region tx refundRes amount) .trx
  commit
  pure (.ofTransaction refundTx)

/-- The body of the `try` in `refundPayment`. The row is read without a lock, and the provider is
called before it is marked. -/
def refundBody (cfg : Config) (transactionId : Nat) (amount : Int) (region : String) :
    Svc PaymentResponse := do
  let found ← findTransactionById transactionId .trx
  match found with
  | none => throwApp "Transaction not found" 404
  | some tx =>
    Interleaving.Prog.ofExcept (assertRefundable tx amount)
    lookUpOrder tx
    let refundRes ← kashierRefund cfg ⟨tx.providerReferenceId.getD "", amount, tx.currency⟩
    if !refundRes.success then
      throwApp ("Kashier refund process failed: " ++ refundRes.rawResponse.stringify) 400
    else recordRefund region tx refundRes amount

/-- `PaymentService.refundPayment`. -/
def refundPayment (cfg : Config) (transactionId : Nat) (amount : Int) (region : String) :
    Svc PaymentResponse := do
  startTransaction
  tryCatch (refundBody cfg transactionId amount region) fun error => do
    rollback
    throw error

end Service

end OrderService
