import OrderService.Repositories
import OrderService.Responses

/-! `FinanceService`: payouts to restaurants. -/
namespace OrderService

def insufficientBalanceError : AppError := ⟨"InsufficientBalance", 409⟩

def payoutTransaction (input : PayoutInput) (ownerUserId : Nat) : TransactionData where
  region := input.region
  orderId := none
  transactionType := .payout
  method := .bankTransfer
  providerId := none
  providerReferenceId := some input.providerReferenceId
  status := .succeeded
  amount := input.amount
  currency := input.currency
  srcAccId := none
  dstAccId := some ownerUserId
  idempotencyKey := some input.idempotencyKey

/-- Check, debit and record, once the idempotency key was found free. -/
def payOut (input : PayoutInput) (ownerUserId : Nat) : Svc PayoutResponse := do
  let balance ← lockBalance input.restaurantId input.currency .trx
  match balance with
  | none => throw (.app insufficientBalanceError)
  | some b =>
    if b.balance < input.amount then throw (.app insufficientBalanceError)
    else do
      upsertBalance input.restaurantId input.region input.currency (-input.amount) .trx
      let payout ← createTransaction (payoutTransaction input ownerUserId) .trx
      commit
      pure (.fromTransaction payout)

/-- The body of the `try` in `recordPayout`. -/
def recordPayoutBody (input : PayoutInput) (ownerUserId : Nat) : Svc PayoutResponse := do
  let existing ← findTransactionByIdempotencyKey input.idempotencyKey .trx
  match existing with
  | some row =>
    commit
    pure (.fromRow row)
  | none => payOut input ownerUserId

def recordPayout (input : PayoutInput) : Svc PayoutResponse := do
  let owner ← findRestaurantOwnerId input.restaurantId input.region .pool
  match owner with
  | none => throwApp "Restaurant owner could not be resolved" 404
  | some ownerUserId =>
    startTransaction
    tryCatch (recordPayoutBody input ownerUserId) fun err => do
      rollback
      throw err

end OrderService
