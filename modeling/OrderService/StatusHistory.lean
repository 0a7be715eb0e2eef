import OrderService.Rows
import OrderService.Services.OrderStatus

/-! The committed status changes of a history, and what the transition table says of them. -/
namespace OrderService
open ReadCommitted

section History

/-- The tables after the commits of a history. -/
def tablesAfter (before : Db) (history : List (Pid × List Write)) : Db :=
  engine.applyAll (history.flatMap Prod.snd) before

/-- Every commit that changes the status of an order changes it along an edge. -/
def FollowsGraph (before : Db) (history : List (Pid × List Write)) : Prop :=
  ∀ past b future, history = past ++ b :: future → ∀ publicId o o',
    (tablesAfter before past).order publicId = some o →
    (tablesAfter before (past ++ [b])).order publicId = some o' →
    o'.status ≠ o.status → Edge o.status o'.status

theorem tablesAfter_append (before : Db) (past future : List (Pid × List Write)) :
    tablesAfter before (past ++ future) = tablesAfter (tablesAfter before past) future := by
  unfold tablesAfter
  rw [List.flatMap_append, applyAll_append]

theorem tablesAfter_singleton (before : Db) (b : Pid × List Write) :
    tablesAfter before [b] = engine.applyAll b.2 before := by
  unfold tablesAfter
  rw [List.flatMap_singleton]

/-- A step in the history that does not leave the graph. -/
def Follows (db db' : Db) : Prop :=
  ∀ publicId o o', db.order publicId = some o → db'.order publicId = some o' →
    o'.status ≠ o.status → Edge o.status o'.status

theorem followsGraph_snoc {before : Db} {history : List (Pid × List Write)}
    (h : FollowsGraph before history) {b : Pid × List Write}
    (hb : Follows (tablesAfter before history) (engine.applyAll b.2 (tablesAfter before history))) :
    FollowsGraph before (history ++ [b]) := by
  intro past b' future heq publicId o o' ho ho' hne
  rcases List.eq_nil_or_concat future with rfl | ⟨future', last, rfl⟩
  · -- The new commit itself.
    obtain ⟨rfl, hb'⟩ := List.append_inj' heq rfl
    obtain rfl : b = b' := by simpa using hb'
    rw [tablesAfter_append, tablesAfter_singleton] at ho'
    exact hb publicId o o' ho ho' hne
  · -- A commit before it.
    rw [List.concat_eq_append, ← List.cons_append, ← List.append_assoc] at heq
    obtain ⟨heq, _⟩ := List.append_inj' heq rfl
    exact h past b' future' heq publicId o o' ho ho' hne

/-- An order stays in the tables. -/
theorem order_persists {db : Db} {publicId : String} {o : OrderEntity}
    (h : db.order publicId = some o) (log : List Write) :
    ∃ o', (engine.applyAll log db).order publicId = some o' := by
  induction log generalizing db o with
  | nil => exact ⟨o, h⟩
  | cons x log ih =>
    rw [applyAll_cons]
    have hstep : ∃ o', (engine.apply x db).order publicId = some o' := by
      cases x with
      | insertOrder row =>
        refine ⟨o, ?_⟩
        have hfind : db.orders.find? (fun o => decide (o.publicId = publicId)) = some o := h
        change (db.orders ++ [row]).find? _ = some o
        rw [List.find?_append, hfind]
        rfl
      | setOrderStatus other status stamp now =>
        by_cases hother : other = publicId
        · subst hother
          exact ⟨_, by rw [order_setOrderStatus, h]; rfl⟩
        · exact ⟨o, (order_setOrderStatus_other hother status stamp now db).trans h⟩
      | assignOrder other agentId now =>
        by_cases hother : other = publicId
        · subst hother
          exact ⟨_, by rw [order_assignOrder, h]; rfl⟩
        · exact ⟨o, (order_assignOrder_other hother agentId now db).trans h⟩
      | _ => exact ⟨o, h⟩
    obtain ⟨o', ho'⟩ := hstep
    exact ih ho'

/-- Along a history that follows the graph, a relation that every edge satisfies relates what an
order was to what it became. -/
theorem status_along (rel : OrderStatus → OrderStatus → Prop) (hrefl : ∀ s, rel s s)
    (htrans : ∀ a b c, rel a b → rel b c → rel a c) (hedge : ∀ s t, Edge s t → rel s t)
    {before : Db} {history : List (Pid × List Write)} (h : FollowsGraph before history)
    {past future : List (Pid × List Write)} (heq : history = past ++ future) {publicId : String}
    {o : OrderEntity} (ho : (tablesAfter before past).order publicId = some o) :
    ∃ o', (tablesAfter before history).order publicId = some o' ∧ rel o.status o'.status := by
  induction future generalizing past o with
  | nil =>
    rw [List.append_nil] at heq
    exact ⟨o, by rw [heq]; exact ho, hrefl o.status⟩
  | cons b future ih =>
    obtain ⟨u, hu⟩ := order_persists ho b.2
    have hu' : (tablesAfter before (past ++ [b])).order publicId = some u := by
      rw [tablesAfter_append, tablesAfter_singleton]
      exact hu
    have heq' : history = (past ++ [b]) ++ future := by
      rw [heq, List.append_assoc, List.singleton_append]
    obtain ⟨o', ho', hrel⟩ := ih heq' hu'
    refine ⟨o', ho', htrans _ _ _ ?_ hrel⟩
    by_cases hsame : u.status = o.status
    · rw [hsame]
      exact hrefl o.status
    · exact hedge _ _ (h past b future heq publicId o u ho hu' hsame)

end History

section Logs

/-- The writes to other tables than `orders`. -/
def Write.OffOrders : Write → Prop
  | .insertOrder _ => False
  | .setOrderStatus .. => False
  | .assignOrder .. => False
  | _ => True

theorem Write.OffOrders.table {x : Write} (h : x.OffOrders) : x.table ≠ .orders := by
  intro htable
  cases x <;> first | exact h | cases htable

theorem order_applyAll_of_off {log : List Write} (hlog : ∀ x ∈ log, x.OffOrders) (db : Db)
    (publicId : String) : (engine.applyAll log db).order publicId = db.order publicId :=
  congrArg (fun orders => orders.find? fun o => decide (o.publicId = publicId))
    (orders_applyAll (fun x hx => (hlog x hx).table) db)

theorem follows_of_off {log : List Write} (hlog : ∀ x ∈ log, x.OffOrders) (db : Db) :
    Follows db (engine.applyAll log db) := by
  intro publicId o o' ho ho' hne
  rw [order_applyAll_of_off hlog, ho, Option.some.injEq] at ho'
  exact absurd (congrArg OrderEntity.status ho'.symm) hne

/-- One status write among others that do not touch the orders. -/
theorem follows_of_move {db : Db} {log ws : List Write} (hlog : ∀ x ∈ log, x.OffOrders)
    (hws : ∀ x ∈ ws, x.OffOrders) {publicId : String} {source target : OrderStatus}
    (hedge : Edge source target) (hstatus : ∀ o, db.order publicId = some o → o.status = source)
    (stamp : Option Stamp) (now : Time) :
    Follows db (engine.applyAll (log ++ .setOrderStatus publicId target stamp now :: ws) db) := by
  intro other o o' ho ho' hne
  rw [applyAll_append, applyAll_cons, order_applyAll_of_off hws] at ho'
  by_cases hother : publicId = other
  · subst hother
    rw [order_setOrderStatus, order_applyAll_of_off hlog, ho, Option.map_some,
      Option.some.injEq] at ho'
    rw [← ho', withStatus_status, hstatus o ho]
    exact hedge
  · rw [order_setOrderStatus_other hother, order_applyAll_of_off hlog, ho,
      Option.some.injEq] at ho'
    exact absurd (congrArg OrderEntity.status ho'.symm) hne

/-- The guarded update moves only what was ready. -/
theorem follows_of_assign (db : Db) (publicId : String) (agentId : Nat) (now : Time) :
    Follows db (engine.applyAll [.assignOrder publicId agentId now] db) := by
  intro other o o' ho ho' hne
  rw [applyAll_cons, applyAll_nil] at ho'
  by_cases hother : publicId = other
  · subst hother
    rw [order_assignOrder, ho, Option.map_some, Option.some.injEq] at ho'
    by_cases hfree : o.claimable = true
    · have hready : o.status = .ready := by
        simp only [OrderEntity.claimable, Bool.and_eq_true, decide_eq_true_eq] at hfree
        exact hfree.1
      rw [if_pos hfree] at ho'
      rw [← ho', hready]
      exact (by decide : Edge .ready .assigned)
    · rw [if_neg hfree] at ho'
      exact absurd (congrArg OrderEntity.status ho'.symm) hne
  · rw [order_assignOrder_other hother, ho, Option.some.injEq] at ho'
    exact absurd (congrArg OrderEntity.status ho'.symm) hne

end Logs

end OrderService
