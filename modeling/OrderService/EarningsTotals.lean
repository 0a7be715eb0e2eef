import OrderService.Services.Earnings

/-! The totals of an agent's earnings are those of the rows on the page: beyond the limit of the
query they leave earnings out. -/
namespace OrderService

section Totals

variable {order : RowOrder AgentEarningEntity AgentEarningEntity.earnedAt} {agentId : Nat}
  {region : String} {earnedFrom earnedTo : Time} {limit : Option Nat} {cursor : Option String}
  {db : Db}

/-- All the earnings of an agent in a range. -/
def Db.earnings (db : Db) (agentId : Nat) (region : String) (earnedFrom earnedTo : Time) :
    List AgentEarningEntity :=
  db.agentEarnings.filter (earnedIn agentId region earnedFrom earnedTo)

theorem foldl_amount (rows : List AgentEarningEntity) (start : Int) :
    rows.foldl (fun acc e => acc + e.amount) start = start + (rows.map fun e => e.amount).sum := by
  induction rows generalizing start with
  | nil => simp
  | cons e rows ih =>
    rw [List.foldl_cons, ih, List.map_cons, List.sum_cons]
    omega

/-- The rows of a response: the latest hundred at most. -/
theorem findEarningsByAgent_eq (limit : Nat) :
    findEarningsByAgent order agentId region earnedFrom earnedTo limit none db
      = (order.arrange .desc (db.earnings agentId region earnedFrom earnedTo)).take limit := by
  simp only [findEarningsByAgent, Db.earnings, Option.all_none, Bool.and_true]

theorem getEarnings_count : (getEarnings order agentId region earnedFrom earnedTo limit cursor
    db).totals.count = min 100 (db.earnings agentId region earnedFrom earnedTo).length := by
  have hlength := (order.perm .desc (db.earnings agentId region earnedFrom earnedTo)).length_eq
  show (findEarningsByAgent order agentId region earnedFrom earnedTo 100 none db).length = _
  rw [findEarningsByAgent_eq, List.length_take, hlength]

/-- Up to the limit nothing is left out of the sum. -/
theorem getEarnings_sum (h : (db.earnings agentId region earnedFrom earnedTo).length ≤ 100) :
    (getEarnings order agentId region earnedFrom earnedTo limit cursor db).totals.sum
      = ((db.earnings agentId region earnedFrom earnedTo).map fun e => e.amount).sum := by
  have hperm := order.perm .desc (db.earnings agentId region earnedFrom earnedTo)
  have hall : (order.arrange .desc (db.earnings agentId region earnedFrom earnedTo)).take 100
      = order.arrange .desc (db.earnings agentId region earnedFrom earnedTo) := by
    apply List.take_of_length_le
    rw [hperm.length_eq]
    exact h
  have hfold : (getEarnings order agentId region earnedFrom earnedTo limit cursor db).totals.sum
      = (order.arrange .desc (db.earnings agentId region earnedFrom earnedTo)).foldl
        (fun acc e => acc + e.amount) 0 := by
    rw [← hall, ← findEarningsByAgent_eq]
    rfl
  have hcomm : (order.arrange .desc (db.earnings agentId region earnedFrom earnedTo)).foldl
        (fun acc e => acc + e.amount) 0
      = (db.earnings agentId region earnedFrom earnedTo).foldl (fun acc e => acc + e.amount) 0 := by
    apply hperm.foldl_eq'
    intro a _ b _ acc
    omega
  rw [hfold, hcomm, foldl_amount, Int.zero_add]

/-- The totals are those of the whole range if and only if it has no more than a hundred rows. -/
theorem getEarnings_totals_iff (order : RowOrder AgentEarningEntity AgentEarningEntity.earnedAt)
    (agentId : Nat) (region : String) (earnedFrom earnedTo : Time) (limit : Option Nat)
    (cursor : Option String) (db : Db) :
    ((getEarnings order agentId region earnedFrom earnedTo limit cursor db).totals.count
        = (db.earnings agentId region earnedFrom earnedTo).length ∧
      (getEarnings order agentId region earnedFrom earnedTo limit cursor db).totals.sum
        = ((db.earnings agentId region earnedFrom earnedTo).map fun e => e.amount).sum) ↔
    (db.earnings agentId region earnedFrom earnedTo).length ≤ 100 := by
  constructor
  · intro htotals
    have hcount := htotals.1
    rw [getEarnings_count] at hcount
    omega
  · intro hfew
    refine ⟨?_, getEarnings_sum hfew⟩
    rw [getEarnings_count]
    omega

/-- What the sums by currency are for earnings in one of them. -/
theorem sumEarningsByAgent_eq {currency : String}
    (hone : ∀ e ∈ db.earnings agentId region earnedFrom earnedTo, e.currency = currency) :
    (sumEarningsByAgent agentId region earnedFrom earnedTo db currency).getD 0
      = ((db.earnings agentId region earnedFrom earnedTo).map fun e => e.amount).sum := by
  have hall : (db.earnings agentId region earnedFrom earnedTo).filter
      (fun e => e.currency = currency) = db.earnings agentId region earnedFrom earnedTo := by
    rw [List.filter_eq_self]
    intro e he
    exact decide_eq_true (hone e he)
  have hdb : db.agentEarnings.filter (earnedIn agentId region earnedFrom earnedTo)
      = db.earnings agentId region earnedFrom earnedTo := rfl
  unfold sumEarningsByAgent
  dsimp only
  rw [hdb, hall]
  split_ifs with hempty
  · rw [List.isEmpty_iff.mp hempty]
    rfl
  · rfl

/-- An agent with a hundred and one earnings. -/
def busyAgent : Db where
  agentEarnings := (List.range 101).map fun n => ⟨⟨"eg", 7, n, 1600, "EGP"⟩, n, 10⟩

/-- One of them is missing from the totals. -/
theorem hundred_of_hundred_and_one :
    (busyAgent.earnings 7 "eg" 0 20).length = 101 ∧
      ∀ order, (getEarnings order 7 "eg" 0 20 none none busyAgent).totals.count = 100 := by
  have hrows : (busyAgent.earnings 7 "eg" 0 20).length = 101 := by decide +kernel
  refine ⟨hrows, fun order => ?_⟩
  rw [getEarnings_count, hrows]
  rfl

end Totals

end OrderService
