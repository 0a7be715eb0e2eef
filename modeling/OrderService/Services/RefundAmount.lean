import OrderService.Services.Refund

/-! `refundPayment` on every amount that its request takes: the DTO asks for a number, and not for
a whole one, while the column is an integer. -/
namespace OrderService

/-- `RefundRequestDTO`: a finite number, in minor units. -/
structure RefundRequest where
  amount : Rat
  amount_min : 1 ≤ amount

namespace RefundRequest

-- `decimal` gives the minor units that `(amount / 100).toFixed(2)` shows, and `number` shows a
-- number in a text.
variable (decimal : Rat → Int) (number : Rat → String)

def assertRefundable (tx : TransactionEntity) (request : RefundRequest) : Except Err Unit :=
  if tx.transactionType ≠ .charge ∨ tx.status ≠ .succeeded then
    .error (.app ⟨"Only successful charge transactions can be refunded", 400⟩)
  else if tx.isRefunded then
    .error (.app ⟨"This transaction has already been refunded", 400⟩)
  else if request.amount > tx.amount then
    .error (.app ⟨"Refund amount (" ++ number request.amount ++
      ") exceeds original charge amount (" ++ toString tx.amount ++ ")", 400⟩)
  else .ok ()

/-- `createTransaction` with the refund: an amount that is no integer is rejected by the column. -/
def insertRefund (region : String) (tx : TransactionEntity) (refundRes : RefundResult)
    (request : RefundRequest) : Svc TransactionEntity :=
  if request.amount.den = 1 then
    createTransaction (refundData region tx refundRes request.amount.num) .trx
  else do
    let _ ← now
    throw .failed

def recordRefund (region : String) (tx : TransactionEntity) (refundRes : RefundResult)
    (request : RefundRequest) : Svc PaymentResponse := do
  markTransactionAsRefunded tx.id .trx
  let refundTx ← insertRefund region tx refundRes request
  commit
  pure (.ofTransaction refundTx)

/-- What the provider is asked for. -/
def params (tx : TransactionEntity) (request : RefundRequest) : RefundParams :=
  ⟨tx.providerReferenceId.getD "", decimal request.amount, tx.currency⟩

def refundBody (cfg : Config) (transactionId : Nat) (region : String) (request : RefundRequest) :
    Svc PaymentResponse := do
  let found ← findTransactionById transactionId .trx
  match found with
  | none => throwApp "Transaction not found" 404
  | some tx =>
    Interleaving.Prog.ofExcept (request.assertRefundable number tx)
    lookUpOrder tx
    let refundRes ← kashierRefund cfg (request.params decimal tx)
    if !refundRes.success then
      throwApp ("Kashier refund process failed: " ++ refundRes.rawResponse.stringify) 400
    else request.recordRefund region tx refundRes

def refundPayment (cfg : Config) (transactionId : Nat) (region : String)
    (request : RefundRequest) : Svc PaymentResponse := do
  startTransaction
  tryCatch (request.refundBody decimal number cfg transactionId region) fun error => do
    rollback
    throw error

/-- On a whole amount this is the refund of that many minor units. -/
theorem refundPayment_whole {amount : Int} (hamount : 1 ≤ (amount : Rat))
    (hdecimal : decimal amount = amount) (hnumber : number amount = toString amount)
    (cfg : Config) (transactionId : Nat) (region : String) :
    refundPayment decimal number cfg transactionId region ⟨amount, hamount⟩
      = OrderService.refundPayment cfg transactionId amount region := by
  have hden : (amount : Rat).den = 1 := Rat.den_intCast amount
  have hnum : (amount : Rat).num = amount := Rat.num_intCast amount
  have hcheck : ∀ tx : TransactionEntity, assertRefundable number tx ⟨amount, hamount⟩
      = OrderService.assertRefundable tx amount := by
    intro tx
    have hgt : ((amount : Rat) > (tx.amount : Rat)) = (amount > tx.amount) :=
      propext Rat.intCast_lt_intCast
    simp only [assertRefundable, OrderService.assertRefundable, hnumber, hgt]
  have hrecord : ∀ tx refundRes, recordRefund region tx refundRes ⟨amount, hamount⟩
      = OrderService.recordRefund region tx refundRes amount := by
    intro tx refundRes
    simp only [recordRefund, OrderService.recordRefund, insertRefund, hden, hnum, if_true]
  have hbody : refundBody decimal number cfg transactionId region ⟨amount, hamount⟩
      = OrderService.refundBody cfg transactionId amount region := by
    unfold refundBody OrderService.refundBody
    refine congrArg (findTransactionById transactionId .trx >>= ·) (funext fun found => ?_)
    cases found with
    | none => rfl
    | some tx => simp only [hcheck, hrecord, params, hdecimal]
  rw [refundPayment, OrderService.refundPayment, hbody]

end RefundRequest

end OrderService
