import OrderService.BalanceInvariant
import OrderService.CallEffects
import OrderService.SettlementResult

/-! The books of a shard: in every currency the balances of the restaurants are what the delivered
orders brought them less what was paid out, at every moment and in every interleaving. -/
namespace OrderService
open ReadCommitted Interleaving

section Statement
variable (currency : String)

def balanceIn (b : RestaurantBalanceEntity) : Int := if b.currency = currency then b.balance else 0

def payoutIn (t : TransactionEntity) : Int :=
  if t.transactionType = .payout ∧ t.currency = currency then t.amount else 0

/-- What the delivery of which an event tells brought to the restaurant. -/
def netIn (ev : OutboxRow) : Int :=
  match ev.eventType, ev.payload with
  | .orderDelivered, .delivered d => if d.currency = currency then d.subtotal - d.commission else 0
  | _, _ => 0

def Db.balances (db : Db) : Int := (db.restaurantBalances.map (balanceIn currency)).sum

def Db.payouts (db : Db) : Int := (db.transactions.map (payoutIn currency)).sum

def Db.sales (db : Db) : Int := (db.eventsOutbox.map (netIn currency)).sum

/-- Zero in a shard that began with empty tables. -/
def Db.books (db : Db) : Int := db.balances currency + db.payouts currency - db.sales currency

/-- By how much a write moves the books. -/
def Write.shift : Write → Int
  | .addBalance _ _ c delta => if c = currency then delta else 0
  | .insertTransaction row => payoutIn currency row
  | .insertOutbox row => -netIn currency row
  | _ => 0

end Statement

section Writes
variable {currency : String} {db : Db}

/-- One row has the key, so the delta counts once. -/
theorem sum_bump {restaurantId : Nat} {c : String} {delta : Int}
    {rows : List RestaurantBalanceEntity} (hunique : (rows.map balanceKey).Nodup)
    (hany : rows.any (balanceOf restaurantId c) = true) :
    ((rows.map (bump restaurantId c delta)).map (balanceIn currency)).sum
      = (rows.map (balanceIn currency)).sum + if c = currency then delta else 0 := by
  induction rows with
  | nil => cases hany
  | cons b rows ih =>
    rw [List.map_cons, List.nodup_cons] at hunique
    simp only [List.map_cons, List.sum_cons]
    by_cases hb : balanceOf restaurantId c b = true
    · have hothers : rows.map (bump restaurantId c delta) = rows := by
        rw [List.map_congr_left (g := id), List.map_id]
        intro b' hb'
        refine if_neg fun hkey => hunique.1 (List.mem_map.mpr ⟨b', hb', ?_⟩)
        exact (balanceOf_iff_key.mp hkey).trans (balanceOf_iff_key.mp hb).symm
      have hcurrency : b.currency = c := (balanceOf_iff.mp hb).2
      rw [hothers, bump, if_pos hb]
      simp only [balanceIn, hcurrency]
      split_ifs <;> omega
    · rw [List.any_cons, Bool.or_eq_true] at hany
      rw [bump, if_neg hb, ih hunique.2 (hany.resolve_left hb)]
      omega

theorem balances_addBalance (currency : String) (restaurantId : Nat) (region c : String)
    (delta : Int) (hunique : (db.restaurantBalances.map balanceKey).Nodup) :
    (engine.apply (.addBalance restaurantId region c delta) db).balances currency
      = db.balances currency + if c = currency then delta else 0 := by
  simp only [engine, Write.apply, Db.balances]
  split
  · next hany => exact sum_bump hunique hany
  · simp only [List.map_append, List.map_singleton, List.sum_append, List.sum_singleton, balanceIn]

/-- An update of a transaction changes neither its type nor its money. -/
theorem payouts_update {f : TransactionEntity → TransactionEntity}
    (hf : ∀ t, payoutIn currency (f t) = payoutIn currency t) (rows : List TransactionEntity) :
    ((rows.map f).map (payoutIn currency)).sum = (rows.map (payoutIn currency)).sum := by
  rw [List.map_map]
  exact congrArg List.sum (List.map_congr_left fun t _ => hf t)

theorem books_apply (hunique : (db.restaurantBalances.map balanceKey).Nodup) (x : Write) :
    (engine.apply x db).books currency = db.books currency + x.shift currency := by
  cases x with
  | addBalance restaurantId region c delta =>
    have hbalances := balances_addBalance currency restaurantId region c delta hunique
    simp only [Db.books, Write.shift, hbalances]
    change _ + db.payouts currency - db.sales currency = _
    omega
  | insertTransaction row =>
    have hpayouts : (engine.apply (.insertTransaction row) db).payouts currency
        = db.payouts currency + payoutIn currency row := by
      simp [engine, Write.apply, Db.payouts]
    simp only [Db.books, Write.shift, hpayouts]
    change db.balances currency + _ - db.sales currency = _
    omega
  | insertOutbox row =>
    have hsales : (engine.apply (.insertOutbox row) db).sales currency
        = db.sales currency + netIn currency row := by
      simp [engine, Write.apply, Db.sales]
    simp only [Db.books, Write.shift, hsales]
    change db.balances currency + db.payouts currency - _ = _
    omega
  | setTransactionStatus id status now =>
    have hpayouts : (engine.apply (.setTransactionStatus id status now) db).payouts currency
        = db.payouts currency :=
      payouts_update (fun t => by split <;> rfl) _
    simp only [Db.books, Write.shift, hpayouts, Int.add_zero]
    rfl
  | markRefunded id now =>
    have hpayouts : (engine.apply (.markRefunded id now) db).payouts currency
        = db.payouts currency :=
      payouts_update (fun t => by split <;> rfl) _
    simp only [Db.books, Write.shift, hpayouts, Int.add_zero]
    rfl
  | _ => exact (Int.add_zero _).symm

theorem unique_apply (hunique : (db.restaurantBalances.map balanceKey).Nodup) (x : Write) :
    ((engine.apply x db).restaurantBalances.map balanceKey).Nodup := by
  cases x with
  | addBalance restaurantId region c delta => exact unique_addBalance hunique
  | _ => exact hunique

theorem unique_applyAll (hunique : (db.restaurantBalances.map balanceKey).Nodup)
    (log : List Write) : ((engine.applyAll log db).restaurantBalances.map balanceKey).Nodup := by
  induction log generalizing db with
  | nil => exact hunique
  | cons x log ih => exact ih (unique_apply hunique x)

theorem books_applyAll (hunique : (db.restaurantBalances.map balanceKey).Nodup)
    (log : List Write) : (engine.applyAll log db).books currency
      = db.books currency + (log.map (Write.shift currency)).sum := by
  induction log generalizing db with
  | nil => exact (Int.add_zero _).symm
  | cons x log ih =>
    rw [applyAll_cons, ih (unique_apply hunique x), books_apply hunique x, List.map_cons,
      List.sum_cons, Int.add_assoc]

end Writes

section Commits
variable {db₀ db : Db} {history : List (Pid × List Write)} {log : List Write} {p : Pid}

/-- The primary key of the balances holds, and the books are as they were. -/
structure BooksKept (db₀ db : Db) (_ : List (Pid × List Write)) : Prop where
  unique : (db.restaurantBalances.map balanceKey).Nodup
  books : ∀ currency, db.books currency = db₀.books currency

theorem BooksKept.commit (h : BooksKept db₀ db history)
    (hlog : ∀ currency, (log.map (Write.shift currency)).sum = 0)
    {history' : List (Pid × List Write)} :
    BooksKept db₀ (engine.applyAll log db) history' where
  unique := unique_applyAll h.unique log
  books currency := by
    rw [books_applyAll h.unique log, hlog, Int.add_zero, h.books]

variable {order : OrderEntity} {agentId : Nat} {share bps : Int} {seen : Db → Prop}

end Commits

section Calls
variable {cfg : Config} {db₀ : Db} {p : Pid} {w : World}

variable (hmacSha256 : String → String → String)

end Calls

end OrderService
