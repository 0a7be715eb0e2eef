import OrderService.PayoutSpec

/-! Any number of payouts at once: the committed debits are the committed payout rows, and an
idempotency key is debited at most once. -/
namespace OrderService
open ReadCommitted Interleaving

/-- One payout for each process that has an input. -/
def payoutCalls (calls : Pid → Option PayoutInput) (w : World) :
    Sys Pid Op Op.Res Err World PayoutResponse :=
  ⟨w, fun p => (calls p).map recordPayout⟩

def insertedPayout : Write → Option TransactionEntity
  | .insertTransaction row => if row.transactionType = .payout then some row else none
  | _ => none

def isDebit : Write → Bool
  | .addBalance _ _ _ delta => delta < 0
  | _ => false

section Calls
variable (calls : Pid → Option PayoutInput)

/-- The call of `p` is about this restaurant and currency. -/
def callFor (restaurantId : Nat) (currency : String) (p : Pid) : Bool :=
  (calls p).any fun i => i.restaurantId = restaurantId && i.currency = currency

/-- The payout rows that calls for this restaurant and currency committed. -/
def payoutRows (restaurantId : Nat) (currency : String) (history : List (Pid × List Write)) :
    List TransactionEntity :=
  history.flatMap fun b =>
    if callFor calls restaurantId currency b.1 then b.2.filterMap insertedPayout else []

/-- A commit with a debit, by a call with this idempotency key. -/
def debitUnder (key : String) (b : Pid × List Write) : Bool :=
  (calls b.1).any (fun i => i.idempotencyKey = key) && b.2.any isDebit

/-- What holds of the committed tables while payouts run, from tables `db₀` on. -/
structure PayoutInv (db₀ db : Db) (history : List (Pid × List Write)) : Prop where
  debits : ∀ r c, db₀.amount r c - db.amount r c
    = ((payoutRows calls r c history).map fun row => row.amount).sum
  stored : ∀ r c, ∀ row ∈ payoutRows calls r c history, row ∈ db.transactions
  once : ∀ key, history.countP (debitUnder calls key)
    ≤ if (db.idempotent key).isSome then 1 else 0

end Calls

variable {calls : Pid → Option PayoutInput} {db₀ db : Db} {history : List (Pid × List Write)}
  {p : Pid}

theorem payoutRows_append (r : Nat) (c : String) (b : Pid × List Write) :
    payoutRows calls r c (history ++ [b]) = payoutRows calls r c history ++
      if callFor calls r c b.1 then b.2.filterMap insertedPayout else [] := by
  simp only [payoutRows, List.flatMap_append, List.flatMap_singleton]

/-- A commit without writes changes nothing. -/
theorem PayoutInv.empty (h : PayoutInv calls db₀ db history) :
    PayoutInv calls db₀ db (history ++ [(p, [])]) where
  debits r c := by
    rw [payoutRows_append]
    simpa using h.debits r c
  stored r c row hrow := by
    rw [payoutRows_append] at hrow
    exact h.stored r c row (by simpa using hrow)
  once key := by
    rw [List.countP_append]
    simpa [debitUnder] using h.once key

theorem idempotent_insertTransaction {row : TransactionEntity} {key : String}
    (hrow : row.idempotencyKey = some key) (db : Db) :
    ((engine.apply (.insertTransaction row) db).idempotent key).isSome = true := by
  simp [engine, Write.apply, Db.idempotent, List.find?_append, hrow]

theorem idempotent_isSome_of_insert {row : TransactionEntity} (other : String) (db : Db)
    (h : (db.idempotent other).isSome = true) :
    ((engine.apply (.insertTransaction row) db).idempotent other).isSome = true := by
  simp only [engine, Write.apply, Db.idempotent, List.find?_append] at h ⊢
  rw [Option.isSome_or, h, Bool.true_or]

theorem insertedPayouts_debit {input : PayoutInput} {row : TransactionEntity}
    (hrow : PayoutRow input row) :
    [payoutDebit input, .insertTransaction row].filterMap insertedPayout = [row] := by
  have hdebit : insertedPayout (payoutDebit input) = none := rfl
  have hinsert : insertedPayout (.insertTransaction row) = some row := by
    rw [insertedPayout, hrow.type_eq, if_pos rfl]
  rw [List.filterMap_cons_none hdebit, List.filterMap_cons_some hinsert, List.filterMap_nil]

/-- A covered debit under a free key, with its row, adds the same amount to both sides. -/
theorem PayoutInv.debit {input : PayoutInput} {row : TransactionEntity}
    (hinput : calls p = some input) (hrow : PayoutRow input row)
    (hfree : (db.idempotent input.idempotencyKey).isSome = false)
    (h : PayoutInv calls db₀ db history) :
    PayoutInv calls db₀ (engine.applyAll [payoutDebit input, .insertTransaction row] db)
      (history ++ [(p, [payoutDebit input, .insertTransaction row])]) where
  debits r c := by
    have hamount : (engine.applyAll [payoutDebit input, .insertTransaction row] db).amount r c
        = db.amount r c + if r = input.restaurantId ∧ c = input.currency then -input.amount else 0 :=
      amount_addBalance _ r _ _ c _ db
    rw [hamount, payoutRows_append, List.map_append, List.sum_append, ← h.debits r c,
      insertedPayouts_debit hrow]
    have hfor : callFor calls r c p
        = (input.restaurantId = r && input.currency = c : Bool) := by
      simp [callFor, hinput]
    by_cases hrc : r = input.restaurantId ∧ c = input.currency
    · obtain ⟨rfl, rfl⟩ := hrc
      simp only [hfor, decide_true, Bool.and_true, if_true, and_self, List.map_cons, List.map_nil,
        List.sum_singleton, hrow.amount_eq]
      omega
    · have hno : callFor calls r c p = false := by
        rw [hfor]
        rw [Bool.eq_false_iff, ne_eq, Bool.and_eq_true, decide_eq_true_iff, decide_eq_true_iff]
        exact fun hboth => hrc ⟨hboth.1.symm, hboth.2.symm⟩
      simp [hno, hrc]
  stored r c stored hstored := by
    have happly : (engine.applyAll [payoutDebit input, .insertTransaction row] db).transactions
        = db.transactions ++ [row] := rfl
    rw [happly, List.mem_append, List.mem_singleton]
    rw [payoutRows_append, List.mem_append, insertedPayouts_debit hrow] at hstored
    rcases hstored with hold | hnew
    · exact .inl (h.stored r c stored hold)
    · right
      split at hnew
      · exact List.mem_singleton.mp hnew
      · cases hnew
  once key := by
    have happly : (engine.applyAll [payoutDebit input, .insertTransaction row] db).idempotent key
        = (engine.apply (.insertTransaction row) db).idempotent key := rfl
    rw [happly, List.countP_append]
    by_cases hkey : input.idempotencyKey = key
    · subst hkey
      have hnone := h.once input.idempotencyKey
      rw [hfree] at hnone
      rw [idempotent_insertTransaction hrow.key_eq]
      have hone : List.countP (debitUnder calls input.idempotencyKey)
          [(p, [payoutDebit input, .insertTransaction row])] ≤ 1 := List.countP_le_length
      simp only [Bool.false_eq_true, if_false] at hnone
      simp only [if_true]
      omega
    · have hother : debitUnder calls key (p, [payoutDebit input, .insertTransaction row]) = false := by
        simp [debitUnder, hinput, hkey]
      have hold := h.once key
      have hmono : (if (db.idempotent key).isSome then 1 else 0)
          ≤ if ((engine.apply (.insertTransaction row) db).idempotent key).isSome then 1 else 0 := by
        by_cases hsome : (db.idempotent key).isSome = true
        · rw [idempotent_isSome_of_insert key db hsome, if_pos hsome]
          exact Nat.le_refl 1
        · rw [if_neg hsome]
          exact Nat.zero_le _
      simp only [List.countP_cons, List.countP_nil, hother, Bool.false_eq_true, if_false]
      omega

theorem payoutInv_kept {input : PayoutInput} (hinput : calls p = some input) (db₀ : Db) :
    KeptByPayout (PayoutInv calls db₀) p input := by
  rintro db history log h (rfl | ⟨row, rfl, hrow, _, hfree⟩)
  · exact h.empty
  · exact h.debit hinput hrow hfree

/-- In every interleaving of payouts, for each restaurant and currency the committed debits sum
up to the payout rows that calls for it committed, and at most one call under each idempotency
key commits a debit. -/
theorem payout_debits_match_rows (w : World) (hw : w.AtRest) (calls : Pid → Option PayoutInput)
    {t : Sys Pid Op Op.Res Err World PayoutResponse}
    (h : machine.Reaches (fun _ _ _ _ => True) (payoutCalls calls w) t) :
    (∀ restaurantId currency,
      w.store.db.amount restaurantId currency - t.world.store.db.amount restaurantId currency
        = ((payoutRows calls restaurantId currency t.world.store.history).map
            fun row => row.amount).sum ∧
      ∀ row ∈ payoutRows calls restaurantId currency t.world.store.history,
        row ∈ t.world.store.db.transactions) ∧
    ∀ key, t.world.store.history.countP (debitUnder calls key) ≤ 1 := by
  have hinit : PayoutInv calls w.store.db w.store.db [] :=
    { debits := fun r c => by simp [payoutRows]
      stored := fun r c row hrow => by cases hrow
      once := fun key => Nat.zero_le _ }
  have hcalls : ∀ p prog, (payoutCalls calls w).procs p = some prog →
      wp machine (fun _ _ _ _ => True) (sharedSpec (PayoutInv calls w.store.db)) p prog
        (OnOk fun _ _ => True) w := by
    intro p prog hprog
    obtain ⟨input, hinput, rfl⟩ := Option.map_eq_some_iff.mp hprog
    exact wp_recordPayout (payoutInv_kept hinput w.store.db) w
  have hinv := shared_reaches hw hinit hcalls h
  refine ⟨fun r c => ⟨hinv.debits r c, hinv.stored r c⟩, fun key => ?_⟩
  have honce := hinv.once key
  split at honce <;> omega

/-- Two payouts under one key, of different amounts. -/
def rivalPayouts : Pid → Option PayoutInput
  | 0 => some { payoutOfSixty with
      idempotencyKey := "key"
      idempotencyKey_ne := by decide }
  | 1 => some ⟨1, 30, "EGP", "eg", "bank-2", "key", by decide, by decide⟩
  | _ => none

/-- A restaurant with one order and a balance of 100. -/
def paidRestaurant : World :=
  { store := Store.ofDb
      { orders := [OrderEntity.sample "order-1" .delivered]
        restaurantBalances := [⟨1, "eg", "EGP", 100⟩] } }

/-- Both look the key up before either inserts; the second debits after the first committed. -/
def rivalSchedule : List (Label Pid Env Ext) :=
  [0, 1, 0, 1, 0, 1, 0, 0, 0, 0, 0, 1, 1, 1, 1, 1].map fun p => .act p {}

theorem payout_debits_match_rows_rivals :
    ∃ t, machine.run (fun _ _ _ _ => true) rivalSchedule
        (payoutCalls rivalPayouts paidRestaurant) = some t ∧
      (∀ restaurantId currency,
        paidRestaurant.store.db.amount restaurantId currency
            - t.world.store.db.amount restaurantId currency
          = ((payoutRows rivalPayouts restaurantId currency t.world.store.history).map
              fun row => row.amount).sum ∧
        ∀ row ∈ payoutRows rivalPayouts restaurantId currency t.world.store.history,
          row ∈ t.world.store.db.transactions) ∧
      ∀ key, t.world.store.history.countP (debitUnder rivalPayouts key) ≤ 1 := by
  have hrun : (machine.run (fun _ _ _ _ => true) rivalSchedule
      (payoutCalls rivalPayouts paidRestaurant)).isSome = true := by decide
  obtain ⟨t, ht⟩ := Option.isSome_iff_exists.mp hrun
  have hrest : paidRestaurant.AtRest := ⟨rfl, fun _ => rfl, rfl⟩
  exact ⟨t, ht, payout_debits_match_rows paidRestaurant hrest rivalPayouts
    (Machine.reaches_of_run (fun _ _ _ _ _ => trivial) rivalSchedule ht)⟩

end OrderService
