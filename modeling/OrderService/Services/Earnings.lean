import OrderService.Services.Reads
import OrderService.Tables

/-! `EarningService`: what an agent earned in a range of time. -/
namespace OrderService

section Repository

variable (order : RowOrder AgentEarningEntity AgentEarningEntity.earnedAt)

/-- The `WHERE` of the queries about the earnings of an agent, without a cursor. -/
def earnedIn (agentId : Nat) (region : String) (earnedFrom earnedTo : Time) (e : AgentEarningEntity) :
    Bool :=
  e.agentId = agentId && e.region = region && earnedFrom ≤ e.earnedAt && e.earnedAt ≤ earnedTo

def findEarningsByAgent (agentId : Nat) (region : String) (earnedFrom earnedTo : Time) (limit : Nat)
    (cursor : Option Time) (db : Db) : List AgentEarningEntity :=
  (order.arrange .desc (db.agentEarnings.filter fun e =>
    earnedIn agentId region earnedFrom earnedTo e && cursor.all (e.earnedAt < ·))).take limit

/-- The sums by currency; a currency without rows has none. -/
def sumEarningsByAgent (agentId : Nat) (region : String) (earnedFrom earnedTo : Time) (db : Db)
    (currency : String) : Option Int :=
  let rows := (db.agentEarnings.filter (earnedIn agentId region earnedFrom earnedTo)).filter
    fun e => e.currency = currency
  if rows.isEmpty then none else some (rows.map fun e => e.amount).sum

end Repository

section Responses

structure AgentEarningItem where
  orderId : Nat
  amount : Int
  currency : String
  earnedAt : Time

def AgentEarningItem.ofEntity (e : AgentEarningEntity) : AgentEarningItem :=
  ⟨e.orderId, e.amount, e.currency, e.earnedAt⟩

structure EarningsTotals where
  count : Nat
  sum : Int
  currency : Option String

structure AgentEarningsResponse where
  range : Time × Time
  totals : EarningsTotals
  items : List AgentEarningItem

def AgentEarningsResponse.ofEntities (earnedFrom earnedTo : Time) (items : List AgentEarningEntity)
    (sum : Int) : AgentEarningsResponse where
  range := (earnedFrom, earnedTo)
  totals := ⟨items.length, sum, items.head?.map fun e => e.currency⟩
  items := items.map .ofEntity

end Responses

/-- `getEarnings` hands on neither its limit nor its cursor. -/
def getEarnings (order : RowOrder AgentEarningEntity AgentEarningEntity.earnedAt) (agentId : Nat)
    (region : String) (earnedFrom earnedTo : Time) (_limit : Option Nat) (_cursor : Option String)
    (db : Db) : AgentEarningsResponse :=
  let earnings := findEarningsByAgent order agentId region earnedFrom earnedTo 100 none db
  let sum := earnings.foldl (fun acc e => acc + e.amount) 0
  .ofEntities earnedFrom earnedTo earnings sum

end OrderService
