import OrderService.Isolation
import OrderService.Rows
import OrderService.Services.Finance

/-! What a payout commits, whatever the other calls do meanwhile. -/
namespace OrderService
open ReadCommitted Interleaving

/-- The row that a payout of `input` inserts. -/
structure PayoutRow (input : PayoutInput) (row : TransactionEntity) : Prop where
  type_eq : row.transactionType = .payout
  amount_eq : row.amount = input.amount
  currency_eq : row.currency = input.currency
  key_eq : row.idempotencyKey = some input.idempotencyKey

def payoutDebit (input : PayoutInput) : Write :=
  .addBalance input.restaurantId input.region input.currency (-input.amount)

/-- The two things that a payout can commit on tables `db`: nothing, or a debit that the balance
covers with a row under a free key. -/
def PayoutCommits (input : PayoutInput) (db : Db) (log : List Write) : Prop :=
  log = [] ∨ ∃ row, log = [payoutDebit input, .insertTransaction row] ∧ PayoutRow input row ∧
    input.amount ≤ db.amount input.restaurantId input.currency ∧
    (db.idempotent input.idempotencyKey).isSome = false

theorem payoutRow_toEntity (input : PayoutInput) (ownerUserId id : Nat) (now : Time) :
    PayoutRow input ((payoutTransaction input ownerUserId).toEntity id now) where
  type_eq := rfl
  amount_eq := rfl
  currency_eq := rfl
  key_eq := orNullText_of_ne input.idempotencyKey_ne

section Rules
variable {I : Db → List (Pid × List Write) → Prop} {ok : Pid → Op → Env → World → Prop} {p : Pid}
  {input : PayoutInput}

/-- The call holds the lock on a balance row that covers the amount. -/
structure Covered (input : PayoutInput) (p : Pid) (log : List Write) (w : World) : Prop where
  txn : w.store.txn p = .active log
  locked : (.balance input.restaurantId input.currency, p) ∈ w.store.locks
  enough : input.amount ≤ w.store.db.amount input.restaurantId input.currency

/-- Nobody else can spend from a locked row. -/
theorem Covered.stable {log : List Write} {w w' : World} (h : Covered input p log w)
    (hr : Rely engine p w.store w'.store) : Covered input p log w' where
  txn := hr.txn.trans h.txn
  locked := (hr.locks _).mpr h.locked
  enough := by
    have hsame : w'.store.db.balance _ _ = w.store.db.balance _ _ :=
      hr.reads_eq (balance_reads input.restaurantId input.currency) h.locked
    rw [Db.amount, hsame]
    exact h.enough

theorem Covered.queried {log : List Write} {w : World} (h : Covered input p log w) (q : Sql) :
    Covered input p (log ++ (w.inTrx p q).writes) (w.queried p q) where
  txn := World.queried_txn_of_log h.txn
  locked := World.queried_locks_mono h.locked
  enough := h.enough

/-- Besides, it holds the lock on the idempotency key, which no committed row has. -/
structure Recorded (input : PayoutInput) (p : Pid) (log : List Write) (w : World) : Prop
    extends Covered input p log w where
  keyLocked : (.idempotency input.idempotencyKey, p) ∈ w.store.locks
  keyFree : (w.store.db.idempotent input.idempotencyKey).isSome = false

theorem Recorded.stable {log : List Write} {w w' : World} (h : Recorded input p log w)
    (hr : Rely engine p w.store w'.store) : Recorded input p log w' where
  toCovered := h.toCovered.stable hr
  keyLocked := (hr.locks _).mpr h.keyLocked
  keyFree := by
    have hsame : (w'.store.db.idempotent _).isSome = (w.store.db.idempotent _).isSome :=
      hr.reads_eq (idempotent_reads input.idempotencyKey) h.keyLocked
    rw [hsame]
    exact h.keyFree

/-- An insert whose key is taken returns no row. -/
theorem inTrx_createTransaction_taken {w : World} {data : TransactionData} {createdAt : Time}
    {key : String} (hkey : orNullText data.idempotencyKey = some key) {t : TransactionEntity}
    (htaken : (w.view p).idempotent key = some t) :
    w.inTrx p (.createTransaction data createdAt) = reading none := by
  simp only [World.inTrx, Sql.eval, hkey, Option.bind_some, htaken]

theorem inTrx_createTransaction_free {w : World} {data : TransactionData} {createdAt : Time}
    {key : String} (hkey : orNullText data.idempotencyKey = some key)
    (hfree : (w.view p).idempotent key = none) :
    w.inTrx p (.createTransaction data createdAt)
      = writing (some (data.toEntity w.seqs.transactions createdAt))
          [.insertTransaction (data.toEntity w.seqs.transactions createdAt)] := by
  simp only [World.inTrx, Sql.eval, hkey, Option.bind_some, hfree]

theorem inTrx_lockBalance_none {w : World} {restaurantId : Nat} {currency : String}
    (hfound : (w.view p).balance restaurantId currency = none) :
    w.inTrx p (.lockBalance restaurantId currency) = reading none := by
  simp only [World.inTrx, Sql.eval, hfound]

/-- A balance that is there is read and locked. -/
theorem inTrx_lockBalance_some {w : World} {restaurantId : Nat} {currency : String}
    {b : RestaurantBalanceEntity} (hfound : (w.view p).balance restaurantId currency = some b) :
    w.inTrx p (.lockBalance restaurantId currency)
      = ⟨.ok (some b), [], [.balance restaurantId currency]⟩ := by
  simp only [World.inTrx, Sql.eval, hfound]

/-- The transaction has the debit in its log, which leaves the keys as they are. -/
theorem Covered.view_idempotent {w : World} (hc : Covered input p [payoutDebit input] w)
    (key : String) : (w.view p).idempotent key = w.store.db.idempotent key := by
  have hdebit : (engine.applyAll [payoutDebit input] w.store.db).idempotent key
      = w.store.db.idempotent key := rfl
  rw [World.view_eq, World.log_of_active hc.txn, hdebit]

/-- Where the key is taken, the insert of the payout row returns no row. -/
theorem Covered.taken {w : World} (hc : Covered input p [payoutDebit input] w)
    {t : TransactionEntity} (htaken : w.store.db.idempotent input.idempotencyKey = some t)
    (ownerUserId : Nat) (now : Time) :
    w.inTrx p (.createTransaction (payoutTransaction input ownerUserId) now) = reading none :=
  inTrx_createTransaction_taken (orNullText_of_ne input.idempotencyKey_ne)
    ((hc.view_idempotent _).trans htaken)

/-- Where the key is free, the insert locks it. -/
theorem Covered.inserted {w : World} (hc : Covered input p [payoutDebit input] w)
    (hfree : w.store.db.idempotent input.idempotencyKey = none) (ownerUserId : Nat) (now : Time) :
    ∃ row, PayoutRow input row ∧
      w.inTrx p (.createTransaction (payoutTransaction input ownerUserId) now)
        = writing (some row) [.insertTransaction row] ∧
      Recorded input p [payoutDebit input, .insertTransaction row]
        (w.queried p (.createTransaction (payoutTransaction input ownerUserId) now)) := by
  set data := payoutTransaction input ownerUserId
  have hanswer := @inTrx_createTransaction_free p w data now _
    (orNullText_of_ne input.idempotencyKey_ne) ((hc.view_idempotent _).trans hfree)
  have hrow : PayoutRow input (data.toEntity w.seqs.transactions now) :=
    payoutRow_toEntity input ownerUserId w.seqs.transactions now
  have hcov := hc.queried (.createTransaction data now)
  rw [hanswer] at hcov
  refine ⟨_, hrow, hanswer, hcov, ?_, ?_⟩
  · apply World.mem_queried_locks
    rw [hanswer]
    simp [writing, Engine.keys, engine, Write.key, hrow.key_eq]
  · rw [World.queried_db, hfree]
    rfl

/-- The insert of the payout row either finds the key free and locks it, or returns no row. -/
theorem wp_insertPayout {w : World} {ownerUserId : Nat} {P : TransactionEntity → World → Prop}
    (hc : Covered input p [payoutDebit input] w)
    (h : ∀ row w', PayoutRow input row →
      Recorded input p [payoutDebit input, .insertTransaction row] w' → P row w') :
    wp machine ok (sharedSpec I) p
      (createTransaction (payoutTransaction input ownerUserId) .trx) (OnOk P) w := by
  have hS := sharedSpec_isolated I p
  unfold createTransaction
  apply wp_seq
  apply wp_now_ok hS
  intro w₁ hr₁ _
  have hc₁ := hc.stable hr₁.1
  apply wp_seq
  apply wp_trx_ok hS hc₁.txn
  intro w₂ e a hr₂ _ _ _ _ hreply
  have hc₂ := hc₁.stable hr₂.1
  apply wp_toEntity
  rintro row rfl
  -- A row came back, so the key was free.
  cases hfree : w₂.store.db.idempotent input.idempotencyKey with
  | some t =>
    rw [hc₂.taken hfree] at hreply
    simp [reading] at hreply
  | none =>
    obtain ⟨new, hrow, hanswer, hrec⟩ := hc₂.inserted hfree ownerUserId w₁.clock
    rw [hanswer] at hreply
    simp only [writing, Except.ok.injEq, Option.some.injEq] at hreply
    subst hreply
    exact h new _ hrow hrec

/-- The invariant is kept by every commit that a payout of `input` can make. -/
def KeptByPayout (I : Db → List (Pid × List Write) → Prop) (p : Pid) (input : PayoutInput) : Prop :=
  ∀ db history log, I db history → PayoutCommits input db log →
    I (engine.applyAll log db) (history ++ [(p, log)])

theorem wp_payOut (hI : KeptByPayout I p input) {ownerUserId : Nat} {w : World}
    (hlog : w.store.txn p = .active []) :
    wp machine ok (sharedSpec I) p (payOut input ownerUserId) (OnOk fun _ _ => True) w := by
  have hS := sharedSpec_isolated I p
  unfold payOut lockBalance
  apply wp_seq
  apply wp_trx_ok hS hlog
  intro w₁ e found hr₁ _ hlog₁ _ _ hreply
  have hview : w₁.view p = w₁.store.db := by
    rw [World.view_eq, World.log_of_active hlog₁, applyAll_nil]
  cases hbalance : w₁.store.db.balance input.restaurantId input.currency with
  | none =>
    rw [inTrx_lockBalance_none (hview ▸ hbalance)] at hreply
    cases hreply
    exact wp_throw
  | some b =>
    have hanswer := @inTrx_lockBalance_some p w₁ _ _ b (hview ▸ hbalance)
    rw [hanswer] at hreply
    cases hreply
    by_cases hshort : b.balance < input.amount
    · simp only [hshort, if_true]
      exact wp_throw
    simp only [hshort, if_false]
    have hcov : Covered input p []
        (w₁.queried p (.lockBalance input.restaurantId input.currency)) := by
      refine ⟨World.queried_txn_of_read hlog₁ (by rw [hanswer]), ?_, ?_⟩
      · apply World.mem_queried_locks
        rw [hanswer]
        simp [Engine.keys]
      · rw [World.queried_db, Db.amount, hbalance]
        simpa using hshort
    unfold upsertBalance
    apply wp_seq
    apply wp_trx_ok hS hcov.txn
    intro w₂ e₂ _ hr₂ _ _ _ _ _
    have hcov₂ := (hcov.stable hr₂.1).queried
      (.upsertBalance input.restaurantId input.region input.currency (-input.amount))
    apply wp_seq
    refine wp_insertPayout (by exact hcov₂) fun row w₃ hrow hrec => ?_
    apply wp_seq
    apply wp_commit_shared hrec.txn
    intro w₄ hr₄ hi₄ _
    have hrec₄ := hrec.stable hr₄.1
    exact ⟨hI _ _ _ hi₄.2 (.inr ⟨row, rfl, hrow, hrec₄.enough, hrec₄.keyFree⟩), trivial⟩

/-- While any other calls run, a payout keeps every invariant that its commits keep. -/
theorem wp_recordPayout (hI : KeptByPayout I p input) (w : World) :
    wp machine ok (sharedSpec I) p (recordPayout input) (OnOk fun _ _ => True) w := by
  have hS := sharedSpec_isolated I p
  unfold recordPayout findRestaurantOwnerId
  apply wp_seq
  apply wp_seq
  apply wp_pool_read hS sharedSpec_ofStore (fun _ _ _ => rfl)
  intro w₁ e owner _ _ _ _ _ _
  apply wp_pure
  cases horNull : orNull owner with
  | none => exact wp_throw
  | some ownerUserId =>
    apply wp_seq
    apply wp_start_ok hS
    intro w₂ _ _ _
    apply wp_catch_ok _ fun e w' => wp_abort hS
    unfold recordPayoutBody findTransactionByIdempotencyKey
    apply wp_seq
    apply wp_trx_ok hS (Function.update_self _ _ _)
    intro w₃ e₃ existing _ _ hlog₃ _ _ _
    have hlog := World.queried_txn_of_read
      (q := .findTransactionByIdempotencyKey input.idempotencyKey) hlog₃ rfl
    cases existing with
    | none => exact wp_payOut hI hlog
    | some row =>
      apply wp_seq
      apply wp_commit_shared hlog
      intro w₄ _ hi₄ _
      exact ⟨hI _ _ _ hi₄.2 (.inl rfl), trivial⟩

end Rules

end OrderService
