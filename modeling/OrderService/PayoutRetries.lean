import Mathlib.Data.List.Induction
import OrderService.PayoutDebits
import OrderService.StatusHistory
import OrderService.Interleaving.Lawful

/-! Payouts that share an idempotency key: what a call is answered when another one has paid out
under its key. -/
namespace OrderService
open ReadCommitted Interleaving

section Claim

/-- The two calls ask for the same payout. -/
def PayoutInput.SameBody (input other : PayoutInput) : Prop :=
  input.restaurantId = other.restaurantId ∧ input.amount = other.amount ∧
    input.currency = other.currency ∧ input.providerReferenceId = other.providerReferenceId

instance (input other : PayoutInput) : Decidable (input.SameBody other) :=
  inferInstanceAs (Decidable (_ ∧ _ ∧ _ ∧ _))

/-- Call `q` has committed this payout row. -/
def PaidBy (q : Pid) (row : TransactionEntity) (history : List (Pid × List Write)) : Prop :=
  ∃ log, (q, log) ∈ history ∧ Write.insertTransaction row ∈ log

/-- What is asked of a call under whose key the call of `other` has committed `row`. -/
def Honours (input other : PayoutInput) (row : TransactionEntity) :
    Except Err PayoutResponse → Prop
  | .ok response => input.SameBody other ∧ response = .fromRow row
  | .error e => ¬input.SameBody other ∧ ∃ message, e = .app ⟨message, 409⟩

/-- The owner that the call finds in the orders of its restaurant. -/
def Db.ownerFor (db : Db) (input : PayoutInput) : Option Nat :=
  orNull ((firstDesc OrderEntity.createdAt (db.orders.filter fun o =>
    o.restaurantId = input.restaurantId && o.region = input.region)).map
      OrderEntity.restaurantOwnerId)

def Db.keyFree (db : Db) (key : String) : Prop := (db.idempotent key).isSome = false

instance (db : Db) (key : String) : Decidable (db.keyFree key) :=
  inferInstanceAs (Decidable (_ = false))

/-- The state in which a statement of the call may run. Against a call with the same body, the key
that it looked up must still be free when it locks the balance; against one with another body it
must not see the key, nor meet it when it inserts. -/
def PayoutInput.timely (input other : PayoutInput) (w : World) : Op → Bool
  | .sql .pool (.findRestaurantOwnerId _ _) => (w.store.db.ownerFor input).isSome
  | .sql .trx (.findTransactionByIdempotencyKey key) =>
    input.SameBody other || w.store.db.keyFree key
  | .sql .trx (.lockBalance _ _) =>
    !decide (input.SameBody other) || w.store.db.keyFree input.idempotencyKey
  | .sql .trx (.createTransaction _ _) =>
    input.SameBody other || w.store.db.keyFree input.idempotencyKey
  | _ => true

/-- No operation of call `p` fails, and its statements run in time. -/
def Timely (input other : PayoutInput) (p p' : Pid) (o : Op) (e : Env) (w : World) : Prop :=
  p' = p → e.fail = false ∧ input.timely other w o = true

end Claim

section Histories
variable {calls : Pid → Option PayoutInput} {db₀ : Db} {history later : List (Pid × List Write)}
  {q : Pid} {input : PayoutInput} {row : TransactionEntity}

/-- What the next commit may be after those of `before`. -/
def PayoutNext (calls : Pid → Option PayoutInput) (db₀ : Db) (before : List (Pid × List Write))
    (b : Pid × List Write) : Prop :=
  ∃ input, calls b.1 = some input ∧ PayoutCommits input (tablesAfter db₀ before) b.2

/-- The committed tables come from `db₀` by payouts, each of which found its key free and its
amount covered. -/
def PayoutHistory (calls : Pid → Option PayoutInput) (db₀ db : Db)
    (history : List (Pid × List Write)) : Prop :=
  db = tablesAfter db₀ history ∧ Lawful (PayoutNext calls db₀) history

theorem payoutHistory_kept {p : Pid} (hinput : calls p = some input) (db₀ : Db) :
    KeptByPayout (PayoutHistory calls db₀) p input := by
  rintro db history log ⟨rfl, hlawful⟩ hcommits
  refine ⟨?_, lawful_append.mpr ⟨hlawful, input, hinput, hcommits⟩⟩
  rw [tablesAfter_append, tablesAfter_singleton]

/-- A debit lowers one balance, and a payout without one lowers none. -/
theorem PayoutCommits.amount_le {db : Db} {log : List Write} (h : PayoutCommits input db log)
    (r : Nat) (c : String) : (engine.applyAll log db).amount r c ≤ db.amount r c := by
  rcases h with rfl | ⟨row, rfl, _, _, _⟩
  · exact le_refl _
  · have hpos := input.amount_pos
    have hdebit : (engine.applyAll [payoutDebit input, .insertTransaction row] db).amount r c
        = db.amount r c + if r = input.restaurantId ∧ c = input.currency then -input.amount else 0 :=
      amount_addBalance _ r _ _ c _ db
    rw [hdebit]
    split <;> omega

/-- A key stays with the row that has it. -/
theorem PayoutCommits.idempotent {db : Db} {log : List Write} (h : PayoutCommits input db log)
    {key : String} (hkey : db.idempotent key = some row) :
    (engine.applyAll log db).idempotent key = some row := by
  rcases h with rfl | ⟨new, rfl, _, _, _⟩
  · exact hkey
  · have happly : (engine.applyAll [payoutDebit input, .insertTransaction new] db).idempotent key
        = (db.transactions ++ [new]).find? fun t => t.idempotencyKey = some key := rfl
    rw [happly, List.find?_append]
    unfold Db.idempotent at hkey
    rw [hkey, Option.some_or]

/-- The row of a payout is found under its key. -/
theorem PayoutCommits.paid {db : Db} {log : List Write} (h : PayoutCommits input db log)
    (hrow : Write.insertTransaction row ∈ log) :
    input.amount ≤ db.amount input.restaurantId input.currency ∧
      db.keyFree input.idempotencyKey ∧ payoutDebit input ∈ log ∧
      (engine.applyAll log db).idempotent input.idempotencyKey = some row := by
  rcases h with rfl | ⟨new, rfl, hnew, hcovered, hfree⟩
  · cases hrow
  · have hsame : row = new := by simpa [payoutDebit] using hrow
    subst hsame
    refine ⟨hcovered, hfree, List.mem_cons_self, ?_⟩
    have happly : (engine.applyAll [payoutDebit input, .insertTransaction row] db).idempotent
        input.idempotencyKey = (db.transactions ++ [row]).find? fun t =>
          t.idempotencyKey = some input.idempotencyKey := rfl
    have hnone : db.idempotent input.idempotencyKey = none := by
      rw [← Option.not_isSome_iff_eq_none, hfree]
      exact Bool.false_ne_true
    unfold Db.idempotent at hnone
    rw [happly, List.find?_append, hnone, Option.none_or, List.find?_cons_of_pos]
    simpa using hnew.key_eq

/-- What every payout keeps of the tables, the later ones keep. -/
theorem kept_later {F : Db → Prop}
    (hstep : ∀ input db log, PayoutCommits input db log → F db → F (engine.applyAll log db))
    (h : Lawful (PayoutNext calls db₀) (history ++ later)) (hF : F (tablesAfter db₀ history)) :
    F (tablesAfter db₀ (history ++ later)) := by
  induction later using List.reverseRecOn with
  | nil => simpa using hF
  | append_singleton later b ih =>
    rw [← List.append_assoc] at h ⊢
    obtain ⟨hbefore, input, _, hcommits⟩ := lawful_append.mp h
    have hlast := hstep input _ b.2 hcommits (ih hbefore)
    rw [tablesAfter_append, tablesAfter_singleton]
    exact hlast

/-- A call that has paid out has its key. -/
theorem PaidBy.taken (h : Lawful (PayoutNext calls db₀) history) (hq : calls q = some input)
    (hpaid : PaidBy q row history) :
    (tablesAfter db₀ history).idempotent input.idempotencyKey = some row := by
  obtain ⟨log, hmem, hrow⟩ := hpaid
  obtain ⟨before, after, rfl⟩ := List.append_of_mem hmem
  obtain ⟨i, hi, hcommits⟩ := h.split
  have hinput : i = input := Option.some.inj (hi.symm.trans hq)
  subst hinput
  have hthen : (tablesAfter db₀ (before ++ [(q, log)])).idempotent i.idempotencyKey = some row := by
    rw [tablesAfter_append, tablesAfter_singleton]
    exact (hcommits.paid hrow).2.2.2
  have hsplit : before ++ (q, log) :: after = (before ++ [(q, log)]) ++ after := by simp
  rw [hsplit] at h ⊢
  exact kept_later (fun _ _ _ hc => hc.idempotent) h hthen

/-- The amount is covered and the key is free. -/
def PayoutInput.Payable (input : PayoutInput) (db : Db) : Prop :=
  input.amount ≤ db.amount input.restaurantId input.currency ∧ db.keyFree input.idempotencyKey

/-- What cannot be paid out now can never be. -/
theorem PaidBy.of_later (h : Lawful (PayoutNext calls db₀) (history ++ later))
    (hq : calls q = some input) (hno : ¬input.Payable (tablesAfter db₀ history))
    (hpaid : PaidBy q row (history ++ later)) : PaidBy q row history := by
  obtain ⟨log, hmem, hrow⟩ := hpaid
  rcases List.mem_append.mp hmem with hmem | hmem
  · exact ⟨log, hmem, hrow⟩
  obtain ⟨before, after, rfl⟩ := List.append_of_mem hmem
  rw [← List.append_assoc] at h
  obtain ⟨i, hi, hcommits⟩ := h.split
  have hinput : i = input := Option.some.inj (hi.symm.trans hq)
  subst hinput
  obtain ⟨hcovered, hfree, _, _⟩ := hcommits.paid hrow
  -- Balances only fall and keys stay taken, so it was payable all the time.
  have hamount := kept_later (F := fun db => db.amount i.restaurantId i.currency
      ≤ (tablesAfter db₀ history).amount i.restaurantId i.currency)
    (fun _ _ _ hc hle => (hc.amount_le _ _).trans hle) h.earlier (le_refl _)
  refine absurd ⟨hcovered.trans hamount, ?_⟩ hno
  unfold Db.keyFree at hfree ⊢
  by_contra htaken
  obtain ⟨t, ht⟩ := Option.isSome_iff_exists.mp (Bool.not_eq_false _ ▸ htaken)
  have hstill := kept_later (fun _ _ _ hc => hc.idempotent) h.earlier ht
  rw [hstill] at hfree
  cases hfree

end Histories

section Rules
variable {calls : Pid → Option PayoutInput} {db₀ : Db} {p q : Pid} {input other : PayoutInput}
  {w w' : World} {log : List Write}

/-- Whatever is paid out from now on, the result honours the key. -/
def Honoured (calls : Pid → Option PayoutInput) (db₀ : Db) (q : Pid) (input other : PayoutInput)
    (r : Except Err PayoutResponse) (w : World) : Prop :=
  ∀ later row, Lawful (PayoutNext calls db₀) (w.store.history ++ later) →
    PaidBy q row (w.store.history ++ later) → Honours input other row r

theorem Honoured.extend {r : Except Err PayoutResponse}
    (h : Honoured calls db₀ q input other r w)
    (hmore : ∃ bs, w'.store.history = w.store.history ++ bs) :
    Honoured calls db₀ q input other r w' := by
  obtain ⟨bs, hbs⟩ := hmore
  intro later row hlawful hpaid
  rw [hbs, List.append_assoc] at hlawful hpaid
  exact h _ row hlawful hpaid

theorem Honoured.stable {r : Except Err PayoutResponse}
    (h : Honoured calls db₀ q input other r w) (hr : Rely engine p w.store w'.store) :
    Honoured calls db₀ q input other r w' := by
  obtain ⟨bs, hbs, _, _, _⟩ := hr.commits
  exact h.extend ⟨bs, hbs⟩

/-- Without a payout so far, and without the means for one, nothing has to be honoured. -/
theorem honoured_of_unpayable {r : Except Err PayoutResponse} (hq : calls q = some other)
    (hi : PayoutHistory calls db₀ w.store.db w.store.history) (hno : ¬other.Payable w.store.db)
    (hunpaid : ∀ row, ¬PaidBy q row w.store.history) :
    Honoured calls db₀ q input other r w := by
  intro later row hlawful hpaid
  rw [hi.1] at hno
  exact absurd (hpaid.of_later hlawful hq hno) (hunpaid row)

theorem unpaid_of_free (hq : calls q = some other)
    (hi : PayoutHistory calls db₀ w.store.db w.store.history)
    (hfree : w.store.db.keyFree other.idempotencyKey) (row : TransactionEntity) :
    ¬PaidBy q row w.store.history := by
  intro hpaid
  have htaken := hpaid.taken hi.2 hq
  rw [← hi.1] at htaken
  rw [Db.keyFree, htaken] at hfree
  cases hfree

/-- The answer of a call that found the row of its key. -/
theorem honoured_of_found {row : TransactionEntity} (hq : calls q = some other)
    (hkey : input.idempotencyKey = other.idempotencyKey)
    (hi : PayoutHistory calls db₀ w.store.db w.store.history) (hsame : input.SameBody other)
    (hfound : w.store.db.idempotent input.idempotencyKey = some row) :
    Honoured calls db₀ q input other (.ok (.fromRow row)) w := by
  intro later row' hlawful hpaid
  have htaken := hpaid.taken hlawful hq
  rw [hi.1] at hfound
  have hstill := kept_later (fun _ _ _ hc => hc.idempotent) hlawful hfound
  rw [hkey, htaken] at hstill
  cases hstill
  exact ⟨hsame, rfl⟩

/-- While `p` has the lock on its balance, the call of `other` does not pay out. -/
theorem unpaid_stable (hq : calls q = some other)
    (hlock : (.balance other.restaurantId other.currency, p) ∈ w.store.locks)
    (hr : Rely engine p w.store w'.store)
    (hi : PayoutHistory calls db₀ w'.store.db w'.store.history)
    (h : ∀ row, ¬PaidBy q row w.store.history) (row : TransactionEntity) :
    ¬PaidBy q row w'.store.history := by
  rintro ⟨log, hmem, hrow⟩
  obtain ⟨bs, hbs, _, _, hunlocked⟩ := hr.commits
  have hlawful := hi.2
  rw [hbs] at hmem hlawful
  rcases List.mem_append.mp hmem with hbefore | hlater
  · exact h row ⟨log, hbefore, hrow⟩
  · obtain ⟨before, after, rfl⟩ := List.append_of_mem hlater
    rw [← List.append_assoc] at hlawful
    obtain ⟨i, hcall, hcommits⟩ := hlawful.split
    have hinput : i = other := Option.some.inj (hcall.symm.trans hq)
    subst hinput
    exact hunlocked (q, log) hlater (payoutDebit i) (hcommits.paid hrow).2.2.1 _ rfl hlock

theorem wp_timely_trx {s : Sql} {P : s.Res → World → Prop} (hlog : w.store.txn p = .active log)
    (h : ∀ w₁, Rely engine p w.store w₁.store →
      PayoutHistory calls db₀ w₁.store.db w₁.store.history → w₁.store.txn p = .active log →
      input.timely other w₁ (.sql .trx s) = true →
      OrFail False P (w₁.inTrx p s).reply (w₁.queried p s)) :
    wp machine (Timely input other p) (sharedSpec (PayoutHistory calls db₀)) p (sql .trx s)
      (OrFail False P) w := by
  apply wp_trx (sharedSpec_isolated _ p) hlog
  · intro w₁ e _ _ hok hfail
    rw [(hok rfl).1] at hfail
    cases hfail
  · intro w₁ e hr hi hlog₁ hok _
    exact h w₁ hr.1 hi.2 hlog₁ (hok rfl).2

theorem wp_timely_commit (hp : calls p = some input) {P : Unit → World → Prop}
    (hlog : w.store.txn p = .active log)
    (h : ∀ w₁ : World, Rely engine p w.store w₁.store →
      PayoutHistory calls db₀ w₁.store.db w₁.store.history → w₁.store.txn p = .active log →
      PayoutCommits input w₁.store.db log ∧
        (PayoutHistory calls db₀ (w₁.committed p).store.db (w₁.committed p).store.history →
          P () (w₁.committed p))) :
    wp machine (Timely input other p) (sharedSpec (PayoutHistory calls db₀)) p commit
      (OrFail False P) w := by
  apply wp_commit (sharedSpec_isolated _ p) hlog
  · intro w₁ e _ _ hok hfail
    rw [(hok rfl).1] at hfail
    cases hfail
  · intro w₁ e hr hi hlog₁ _
    obtain ⟨hcommits, hP⟩ := h w₁ hr.1 hi.2 hlog₁
    have hkept : PayoutHistory calls db₀ (w₁.committed p).store.db (w₁.committed p).store.history := by
      simp only [World.committed, World.log_of_active hlog₁]
      exact payoutHistory_kept hp db₀ _ _ log hi.2 hcommits
    exact ⟨⟨commit_locked hi.1 (World.commit_eq hlog₁), hkept⟩, hP hkept⟩

/-- The call undoes its transaction and ends with its error. -/
theorem wp_abort_honoured {err : Err} (h : Honoured calls db₀ q input other (.error err) w) :
    wp machine (Timely input other p) (sharedSpec (PayoutHistory calls db₀)) p
      (do rollback; throw err) (Honoured calls db₀ q input other) w := by
  apply wp_do
  apply wp_rollback (sharedSpec_isolated _ p)
  intro w₁ hr _ _
  have hthen := h.stable hr.1
  exact hthen.extend ⟨[], by simp [Store.rollback]⟩

/-- From the insert on: against a call with the same body the lock on the balance has kept the key
from it, and against another one the key is free. -/
theorem wp_insert_honoured (hp : calls p = some input) (hq : calls q = some other) (hne : q ≠ p)
    (hkey : input.idempotencyKey = other.idempotencyKey) {ownerUserId : Nat}
    (hc : Covered input p [payoutDebit input] w)
    (hunpaid : input.SameBody other → ∀ row, ¬PaidBy q row w.store.history) :
    wp machine (Timely input other p) (sharedSpec (PayoutHistory calls db₀)) p
      (do
        let payout ← createTransaction (payoutTransaction input ownerUserId) .trx
        commit
        pure (.fromTransaction payout))
      (Honoured calls db₀ q input other) w := by
  apply wp_do
  unfold createTransaction
  apply wp_seq_fail (E := False) (fun h => h.elim)
  apply wp_now (sharedSpec_isolated _ p)
  intro w₁ hr₁ _
  apply wp_seq_fail (E := False) (fun h => h.elim)
  have hc₁ := hc.stable hr₁.1
  apply wp_timely_trx hc₁.txn
  intro w₂ hr₂ hi₂ _ htimely
  have hc₂ := hc₁.stable hr₂
  cases hfree : w₂.store.db.idempotent input.idempotencyKey with
  | some t =>
    -- The key was taken since it was looked up, and not by the call with the same body.
    rw [hc₂.taken hfree]
    have hsame : input.SameBody other := by
      simpa [PayoutInput.timely, Db.keyFree, hfree] using htimely
    have hlock : (.balance other.restaurantId other.currency, p) ∈ w.store.locks := by
      rw [← hsame.1, ← hsame.2.2.1]
      exact hc.locked
    have hstill := unpaid_stable hq hlock (hr₁.1.trans hr₂) hi₂ (hunpaid hsame)
    have htaken : ¬other.Payable w₂.store.db := by
      rintro ⟨_, hno⟩
      rw [Db.keyFree, ← hkey, hfree] at hno
      cases hno
    have hnever : Honoured calls db₀ q input other (.error .typeError) w₂ :=
      honoured_of_unpayable hq hi₂ htaken hstill
    exact hnever.extend ⟨[], by simp⟩
  | none =>
    obtain ⟨row, hpayout, hanswer, hrec⟩ := hc₂.inserted hfree ownerUserId w₁.clock
    rw [hanswer]
    apply wp_seq_fail (E := False) (fun h => h.elim)
    apply wp_timely_commit hp hrec.txn
    intro w₃ hr₃ hi₃ hlog₃
    have hrec₃ := hrec.stable hr₃
    refine ⟨.inr ⟨row, rfl, hpayout, hrec₃.enough, hrec₃.keyFree⟩, fun hi₄ => ?_⟩
    -- Its own payout has the key now, so the other call can make none.
    have hfree₃ : w₃.store.db.keyFree other.idempotencyKey := hkey ▸ hrec₃.keyFree
    have htaken : ¬other.Payable (w₃.committed p).store.db := by
      rintro ⟨_, hno⟩
      have hown : (w₃.committed p).store.db.idempotent input.idempotencyKey = some row := by
        simp only [World.committed, World.log_of_active hlog₃]
        exact (PayoutCommits.paid (.inr ⟨row, rfl, hpayout, hrec₃.enough, hrec₃.keyFree⟩)
          (by simp)).2.2.2
      rw [Db.keyFree, ← hkey, hown] at hno
      cases hno
    apply honoured_of_unpayable hq hi₄ htaken
    rintro row' ⟨log', hmem, hrow'⟩
    simp only [World.committed, World.log_of_active hlog₃, List.mem_append, List.mem_singleton,
      Prod.mk.injEq] at hmem
    rcases hmem with hbefore | ⟨heq, _⟩
    · exact unpaid_of_free hq hi₃ hfree₃ row' ⟨log', hbefore, hrow'⟩
    · exact hne heq

/-- A call with the same body that is refused for want of balance leaves the other none either. -/
theorem honoured_of_short (hq : calls q = some other)
    (hkey : input.idempotencyKey = other.idempotencyKey)
    (hi : PayoutHistory calls db₀ w.store.db w.store.history)
    (hshort : w.store.db.amount input.restaurantId input.currency < input.amount)
    (hfree : input.SameBody other → w.store.db.keyFree input.idempotencyKey) :
    Honoured calls db₀ q input other (.error (.app insufficientBalanceError)) w := by
  by_cases hsame : input.SameBody other
  · have hno : ¬other.Payable w.store.db := by
      rintro ⟨hcovered, _⟩
      rw [← hsame.1, ← hsame.2.1, ← hsame.2.2.1] at hcovered
      omega
    exact honoured_of_unpayable hq hi hno (unpaid_of_free hq hi (hkey ▸ hfree hsame))
  · intro later row _ _
    exact ⟨hsame, _, rfl⟩

theorem wp_payOut_honoured (hp : calls p = some input) (hq : calls q = some other) (hne : q ≠ p)
    (hkey : input.idempotencyKey = other.idempotencyKey) {ownerUserId : Nat}
    (hlog : w.store.txn p = .active []) :
    wp machine (Timely input other p) (sharedSpec (PayoutHistory calls db₀)) p
      (payOut input ownerUserId) (Honoured calls db₀ q input other) w := by
  unfold payOut lockBalance
  apply wp_seq_fail (E := False) (fun h => h.elim)
  apply wp_timely_trx hlog
  intro w₁ _ hi₁ hlog₁ htimely
  have hview : w₁.view p = w₁.store.db := by
    rw [World.view_eq, World.log_of_active hlog₁, applyAll_nil]
  have hfree : input.SameBody other → w₁.store.db.keyFree input.idempotencyKey := by
    intro hsame
    simpa [PayoutInput.timely, hsame] using htimely
  cases hbalance : w₁.store.db.balance input.restaurantId input.currency with
  | none =>
    rw [inTrx_lockBalance_none (hview ▸ hbalance)]
    have hpos := input.amount_pos
    have hshort : w₁.store.db.amount input.restaurantId input.currency < input.amount := by
      rw [Db.amount, hbalance]
      simp only [Option.map_none, Option.getD_none]
      omega
    exact (honoured_of_short hq hkey hi₁ hshort hfree).extend ⟨[], by simp⟩
  | some b =>
    have hanswer := @inTrx_lockBalance_some p w₁ _ _ b (hview ▸ hbalance)
    have hamount : w₁.store.db.amount input.restaurantId input.currency = b.balance := by
      rw [Db.amount, hbalance]
      rfl
    rw [hanswer]
    by_cases hshort : b.balance < input.amount
    · simp only [OrFail, hshort, if_true]
      exact (honoured_of_short hq hkey hi₁ (hamount ▸ hshort) hfree).extend ⟨[], by simp⟩
    simp only [OrFail, hshort, if_false]
    have hcov : Covered input p [] (w₁.queried p (.lockBalance input.restaurantId input.currency)) := by
      refine ⟨World.queried_txn_of_read hlog₁ (by rw [hanswer]), ?_, ?_⟩
      · apply World.mem_queried_locks
        rw [hanswer]
        simp [Engine.keys]
      · rw [World.queried_db, hamount]
        omega
    unfold upsertBalance
    apply wp_seq_fail (E := False) (fun h => h.elim)
    apply wp_timely_trx hcov.txn
    intro w₂ hr₂ hi₂ _ _
    have hcov₂ := (hcov.stable hr₂).queried
      (.upsertBalance input.restaurantId input.region input.currency (-input.amount))
    apply wp_insert_honoured hp hq hne hkey hcov₂
    intro hsame
    -- From the lock on, the call with the same body has to wait.
    have hlock : (.balance other.restaurantId other.currency, p)
        ∈ (w₁.queried p (.lockBalance input.restaurantId input.currency)).store.locks := by
      rw [← hsame.1, ← hsame.2.2.1]
      exact hcov.locked
    have hunpaid := unpaid_of_free hq hi₁ (hkey ▸ hfree hsame)
    have hstill := unpaid_stable hq hlock hr₂ hi₂ hunpaid
    exact hstill

theorem wp_recordPayoutBody_honoured (hp : calls p = some input) (hq : calls q = some other)
    (hne : q ≠ p) (hkey : input.idempotencyKey = other.idempotencyKey) {ownerUserId : Nat}
    (hlog : w.store.txn p = .active []) :
    wp machine (Timely input other p) (sharedSpec (PayoutHistory calls db₀)) p
      (recordPayoutBody input ownerUserId) (Honoured calls db₀ q input other) w := by
  unfold recordPayoutBody findTransactionByIdempotencyKey
  apply wp_seq_fail (E := False) (fun h => h.elim)
  apply wp_timely_trx hlog
  intro w₁ _ hi₁ hlog₁ htimely
  have hread : (w₁.queried p (.findTransactionByIdempotencyKey input.idempotencyKey)).store.txn p
      = .active [] := World.queried_txn_of_read hlog₁ rfl
  have hreply : (w₁.inTrx p (.findTransactionByIdempotencyKey input.idempotencyKey)).reply
      = .ok (w₁.store.db.idempotent input.idempotencyKey) := by
    have hview : w₁.view p = w₁.store.db := by
      rw [World.view_eq, World.log_of_active hlog₁, applyAll_nil]
    rw [World.inTrx, hview]
    rfl
  rw [hreply]
  cases hfound : w₁.store.db.idempotent input.idempotencyKey with
  | none => exact wp_payOut_honoured hp hq hne hkey hread
  | some row =>
    have hsame : input.SameBody other := by
      simpa [PayoutInput.timely, Db.keyFree, hfound] using htimely
    have hhonoured := honoured_of_found hq hkey hi₁ hsame hfound
    apply wp_seq_fail (E := False) (fun h => h.elim)
    apply wp_timely_commit hp hread
    intro w₂ hr₂ _ _
    have hlater : Honoured calls db₀ q input other (.ok (.fromRow row)) w₂ :=
      (hhonoured.extend ⟨[], by simp⟩).stable hr₂
    refine ⟨.inl rfl, fun _ => ?_⟩
    exact hlater.extend ⟨_, rfl⟩

theorem wp_recordPayout_honoured (hp : calls p = some input) (hq : calls q = some other)
    (hne : q ≠ p) (hkey : input.idempotencyKey = other.idempotencyKey) (w : World) :
    wp machine (Timely input other p) (sharedSpec (PayoutHistory calls db₀)) p
      (recordPayout input) (Honoured calls db₀ q input other) w := by
  have hS := sharedSpec_isolated (PayoutHistory calls db₀) p
  unfold recordPayout findRestaurantOwnerId
  apply wp_do
  apply wp_seq_fail (E := False) (fun h => h.elim)
  apply wp_pool hS
  · intro w₁ e _ _ hok hfail
    rw [(hok rfl).1] at hfail
    cases hfail
  intro w₁ e _ hi₁ hok _
  have hsame : (w₁.pooled p (.findRestaurantOwnerId input.restaurantId input.region)).store
      = w₁.store := World.pooled_store rfl
  refine ⟨sharedSpec_inv_of_store hsame hi₁, ?_⟩
  obtain ⟨ownerUserId, howner⟩ := Option.isSome_iff_exists.mp (hok rfl).2
  obtain ⟨found, hreply, hfound⟩ : ∃ found,
      (w₁.onPool (.findRestaurantOwnerId input.restaurantId input.region)).reply = .ok found ∧
        orNull found = some ownerUserId := ⟨_, rfl, howner⟩
  rw [hreply]
  simp only [OrFail, hfound]
  apply wp_seq_fail (E := False) (fun h => h.elim)
  apply wp_start hS
  · intro w₂ e _ _ hok hfail
    rw [(hok rfl).1] at hfail
    cases hfail
  intro w₂ _ _ _ _ _
  apply wp_catch
  apply wp_mono _ (wp_recordPayoutBody_honoured hp hq hne hkey (World.start_txn w₂ p))
  intro r w₃ hhonoured
  cases r with
  | ok response => exact hhonoured
  | error err => exact wp_abort_honoured hhonoured

end Rules

section Result
variable {w : World} {calls : Pid → Option PayoutInput}

theorem payoutHistory_start (hw : w.AtRest) :
    PayoutHistory calls w.store.db w.store.db w.store.history := by
  rw [hw.history]
  exact ⟨rfl, lawful_nil⟩

/-- Any payouts at the same time: a call under whose key another one commits a payout returns that
payout, or rejects another body with a conflict, as long as its own operations do not fail and find
the key in time. -/
theorem payout_key_honoured (hw : w.AtRest) (calls : Pid → Option PayoutInput) {p q : Pid}
    {input other : PayoutInput} (hp : calls p = some input) (hq : calls q = some other)
    (hne : q ≠ p) (hkey : input.idempotencyKey = other.idempotencyKey)
    {t : Sys Pid Op Op.Res Err World PayoutResponse}
    (h : machine.Reaches (Timely input other p) (payoutCalls calls w) t)
    {r : Except Err PayoutResponse} (hended : t.procs p = some (.ofExcept r))
    {row : TransactionEntity} (hpaid : PaidBy q row t.world.store.history) :
    Honours input other row r := by
  let Q : Pid → Except Err PayoutResponse → World → Prop := fun p' r w' =>
    p' = p → Honoured calls w.store.db q input other r w'
  have hstable : ∀ p', (sharedSpec (PayoutHistory calls w.store.db)).Stable p' (Q p') := by
    intro p' r w₁ w₂ hr _ hQ heq
    exact (hQ heq).stable hr.1
  have hcalls : ∀ p' prog, (payoutCalls calls w).procs p' = some prog →
      wp machine (Timely input other p) (sharedSpec (PayoutHistory calls w.store.db)) p' prog
        (Q p') w := by
    intro p' prog hprog
    obtain ⟨i, hi, rfl⟩ := Option.map_eq_some_iff.mp hprog
    by_cases heq : p' = p
    · subst heq
      have hinput : i = input := Option.some.inj (hi.symm.trans hp)
      subst hinput
      exact wp_mono (fun _ _ hhonoured _ => hhonoured) (wp_recordPayout_honoured hi hq hne hkey w)
    · exact wp_mono (fun _ _ _ hp' => absurd hp' heq)
        (wp_recordPayout (payoutHistory_kept hi w.store.db) w)
  have hinit : (sharedSpec (PayoutHistory calls w.store.db)).inv w :=
    ⟨hw.locked, payoutHistory_start hw⟩
  obtain ⟨hinv, hprocs⟩ := sound_reaches (sharedSpec_fits _) hstable ⟨hinit, hcalls⟩ h
  have hend := (wp_ofExcept r _ t.world).mp (hprocs p _ hended)
  have hhistory := List.append_nil t.world.store.history
  exact hend rfl [] row (by rw [hhistory]; exact hinv.2.2) (by rw [hhistory]; exact hpaid)

theorem one_le_thirty : (1 : Int) ≤ 30 := by decide

theorem key_ne_empty : "key" ≠ "" := by decide

def payoutOfThirty : PayoutInput where
  restaurantId := 1
  amount := 30
  currency := "EGP"
  region := "eg"
  providerReferenceId := "bank-1"
  idempotencyKey := "key"
  amount_pos := one_le_thirty
  idempotencyKey_ne := key_ne_empty

/-- The same body twice. -/
def repeatedPayout : Pid → Option PayoutInput
  | 0 => some payoutOfThirty
  | 1 => some payoutOfThirty
  | _ => none

/-- One call after the other. -/
def retryLater : List (Label Pid Env Ext) :=
  List.replicate 8 (.act 0 {}) ++ List.replicate 4 (.act 1 {})

/-- The second call looks the key up before the first has taken it. -/
def retryMeanwhile : List (Label Pid Env Ext) :=
  List.replicate 3 (.act 1 {}) ++ List.replicate 8 (.act 0 {}) ++ List.replicate 5 (.act 1 {})

/-- Whether call `p` has returned or thrown. -/
def returnedOrThrew (t : Sys Pid Op Op.Res Err World PayoutResponse) (p : Pid) : Option Bool :=
  match t.procs p with
  | some (.pure _) => some true
  | some (.throw _) => some false
  | _ => none

def hasPaid (q : Pid) (t : Sys Pid Op Op.Res Err World PayoutResponse) : Bool :=
  t.world.store.history.any fun b => b.1 = q && b.2.any fun x => (insertedPayout x).isSome

theorem returned_of {t : Sys Pid Op Op.Res Err World PayoutResponse} {p : Pid}
    (h : returnedOrThrew t p = some true) : ∃ response, t.procs p = some (.ofExcept (.ok response)) := by
  unfold returnedOrThrew at h
  split at h
  · next response hp => exact ⟨response, hp⟩
  · cases h
  · cases h

theorem threw_of {t : Sys Pid Op Op.Res Err World PayoutResponse} {p : Pid}
    (h : returnedOrThrew t p = some false) : ∃ e, t.procs p = some (.ofExcept (.error e)) := by
  unfold returnedOrThrew at h
  split at h
  · cases h
  · next e hp => exact ⟨e, hp⟩
  · cases h

theorem paidBy_of_hasPaid {q : Pid} {t : Sys Pid Op Op.Res Err World PayoutResponse}
    (h : hasPaid q t = true) : ∃ row, PaidBy q row t.world.store.history := by
  obtain ⟨⟨p, log⟩, hmem, hlog⟩ := List.any_eq_true.mp h
  obtain ⟨hp, hany⟩ := Bool.and_eq_true_iff.mp hlog
  obtain ⟨x, hx, hsome⟩ := List.any_eq_true.mp hany
  have hpq : p = q := of_decide_eq_true hp
  subst hpq
  obtain ⟨row, hrow⟩ := Option.isSome_iff_exists.mp hsome
  cases x with
  | insertTransaction new => exact ⟨new, log, hmem, hx⟩
  | _ => cases hrow

theorem payout_key_honoured_later : ∃ t response row,
    machine.run (fun p o e w => p ≠ 1 || (!e.fail && payoutOfThirty.timely payoutOfThirty w o))
        retryLater (payoutCalls repeatedPayout paidRestaurant) = some t ∧
      t.procs 1 = some (.ofExcept (.ok response)) ∧ PaidBy 0 row t.world.store.history ∧
      Honours payoutOfThirty payoutOfThirty row (.ok response) := by
  have hrun : (machine.run
      (fun p o e w => p ≠ 1 || (!e.fail && payoutOfThirty.timely payoutOfThirty w o))
      retryLater (payoutCalls repeatedPayout paidRestaurant)).map
        (fun t => (returnedOrThrew t 1, hasPaid 0 t)) = some (some true, true) := by
    decide +kernel
  obtain ⟨t, ht, hend⟩ := Option.map_eq_some_iff.mp hrun
  obtain ⟨hreturned, hpaid⟩ := Prod.mk.inj hend
  obtain ⟨response, hresponse⟩ := returned_of hreturned
  obtain ⟨row, hrow⟩ := paidBy_of_hasPaid hpaid
  have hreach : machine.Reaches (Timely payoutOfThirty payoutOfThirty 1)
      (payoutCalls repeatedPayout paidRestaurant) t := by
    refine Machine.reaches_of_run (fun p o e w hcheck heq => ?_) _ ht
    simpa [heq] using hcheck
  have hrest : paidRestaurant.AtRest := ⟨rfl, fun _ => rfl, rfl⟩
  exact ⟨t, response, row, ht, hresponse, hrow,
    payout_key_honoured hrest repeatedPayout (p := 1) rfl rfl (by decide) rfl hreach hresponse hrow⟩

/-- Another amount under the key is answered with the payout that was made, and the same body
fails when both calls look the key up before either has taken it. -/
theorem payout_key_not_honoured :
    (∃ t response row,
      machine.Reaches anyOp (payoutCalls rivalPayouts paidRestaurant) t ∧
        t.procs 1 = some (.ofExcept (.ok response)) ∧ PaidBy 0 row t.world.store.history ∧
        ∀ input other, rivalPayouts 1 = some input → rivalPayouts 0 = some other →
          input.idempotencyKey = other.idempotencyKey ∧
            ¬Honours input other row (.ok response)) ∧
    ∃ t e row,
      machine.Reaches anyOp (payoutCalls repeatedPayout paidRestaurant) t ∧
        t.procs 1 = some (.ofExcept (.error e)) ∧ PaidBy 0 row t.world.store.history ∧
        ¬Honours payoutOfThirty payoutOfThirty row (.error e) := by
  constructor
  · have hrun : (machine.run (fun _ _ _ _ => true) retryLater
        (payoutCalls rivalPayouts paidRestaurant)).map
          (fun t => (returnedOrThrew t 1, hasPaid 0 t)) = some (some true, true) := by
      decide +kernel
    obtain ⟨t, ht, hend⟩ := Option.map_eq_some_iff.mp hrun
    obtain ⟨hreturned, hpaid⟩ := Prod.mk.inj hend
    obtain ⟨response, hresponse⟩ := returned_of hreturned
    obtain ⟨row, hrow⟩ := paidBy_of_hasPaid hpaid
    refine ⟨t, response, row, Machine.reaches_of_run (fun _ _ _ _ _ => trivial) _ ht, hresponse,
      hrow, ?_⟩
    intro input other hinput hother
    cases hinput
    cases hother
    refine ⟨rfl, fun hhonours => ?_⟩
    exact absurd hhonours.1 (by decide)
  · have hrun : (machine.run (fun _ _ _ _ => true) retryMeanwhile
        (payoutCalls repeatedPayout paidRestaurant)).map
          (fun t => (returnedOrThrew t 1, hasPaid 0 t)) = some (some false, true) := by
      decide +kernel
    obtain ⟨t, ht, hend⟩ := Option.map_eq_some_iff.mp hrun
    obtain ⟨hthrew, hpaid⟩ := Prod.mk.inj hend
    obtain ⟨e, he⟩ := threw_of hthrew
    obtain ⟨row, hrow⟩ := paidBy_of_hasPaid hpaid
    refine ⟨t, e, row, Machine.reaches_of_run (fun _ _ _ _ _ => trivial) _ ht, he, hrow, ?_⟩
    intro hhonours
    exact absurd (by decide) hhonours.1

end Result

end OrderService
