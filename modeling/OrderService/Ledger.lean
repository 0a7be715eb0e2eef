import OrderService.DeliveryAlone
import OrderService.SettlementResult

/-! The ledger of a delivered order against the credit of its restaurant. -/
namespace OrderService
open ReadCommitted Interleaving

section Statement

/-- The rows of an order that count in its ledger: the succeeded ones, apart from the charge. -/
def TransactionEntity.counts (order : OrderEntity) (t : TransactionEntity) : Bool :=
  t.orderId = some order.id && t.status = .succeeded && t.transactionType ≠ .charge

/-- The sum of the counted rows that name the restaurant's owner on one side. -/
def sideTotal (side : TransactionEntity → Option Nat) (order : OrderEntity)
    (rows : List TransactionEntity) : Int :=
  ((rows.filter fun t => t.counts order && side t = some order.restaurantOwnerId).map
    fun t => t.amount).sum

end Statement

section Rows
variable {order : OrderEntity} {db : Db}

/-- The rows that a list of writes inserts into the ledger. -/
def insertedRows (log : List Write) : List TransactionEntity :=
  log.filterMap fun
    | .insertTransaction row => some row
    | _ => none

/-- A counted row counts on each side that names the owner. -/
theorem sideTotal_row {side : TransactionEntity → Option Nat} {t : TransactionEntity}
    (hcounts : t.counts order = true) :
    sideTotal side order [t] = if side t = some order.restaurantOwnerId then t.amount else 0 := by
  unfold sideTotal
  by_cases hside : side t = some order.restaurantOwnerId
  · simp [hcounts, hside]
  · simp [hside]

end Rows

section Parts
variable {order : OrderEntity} {db : Db} {seen : Db → Prop} {log part : List Write}
  {transfer : TransactionData} {due : Prop}

@[simp] theorem insertedRows_insert (row : TransactionEntity) :
    insertedRows [.insertTransaction row] = [row] := rfl

@[simp] theorem insertedRows_nil : insertedRows [] = [] := rfl

/-- What a part inserts when its lookup finds nothing: its row, when it is due. -/
def InsertsIf (due : Prop) (transfer : TransactionData) (part : List Write) : Prop :=
  (¬due ∧ part = []) ∨
    (due ∧ ∃ id now, part = [.insertTransaction (transfer.toEntity id now)])

theorem InsertsIf.kind (h : InsertsIf due transfer part) :
    ∀ t ∈ insertedRows part, t.transactionType = transfer.transactionType := by
  rcases h with ⟨_, rfl⟩ | ⟨_, id, now, rfl⟩ <;> simp [TransactionData.toEntity]

end Parts

section Settling
variable {order : OrderEntity} {db : Db} {seen : Db → Prop} {log : List Write} {agentId : Nat}
  {share bps : Int} {part : List Write} {transfer : TransactionData} {due : Prop}

/-- A due row of the order counts on each side that names the owner. -/
theorem InsertsIf.sideTotal [Decidable due] (h : InsertsIf due transfer part)
    {side : TransactionEntity → Option Nat} (hid : order.id ≠ 0) (account : Option Nat)
    (hside : ∀ id now, side (transfer.toEntity id now) = account)
    (horder : transfer.orderId = some order.id) (hstatus : transfer.status = .succeeded)
    (hkind : transfer.transactionType ≠ .charge) :
    sideTotal side order (insertedRows part)
      = if due ∧ account = some order.restaurantOwnerId then transfer.amount else 0 := by
  rcases h with ⟨hno, rfl⟩ | ⟨hdue, id, now, rfl⟩
  · rw [if_neg fun hboth => hno hboth.1]
    rfl
  · have hcounts : (transfer.toEntity id now).counts order = true := by
      simp [TransactionEntity.counts, TransactionData.toEntity, horder, hstatus, hkind,
        orNull_of_ne hid]
    rw [insertedRows_insert, sideTotal_row hcounts, hside id now]
    simp only [hdue, true_and]
    rfl

end Settling

section Runs
variable {order : OrderEntity} {db : Db} {status : OrderStatus} {stamp : Option Stamp} {now : Time}

end Runs

end OrderService
