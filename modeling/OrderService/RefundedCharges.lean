import OrderService.RecordsKept

/-! Whatever calls run at the same time, a charge is marked as refunded exactly where a row pays it
back, and such a row agrees with its charge. -/
namespace OrderService
open ReadCommitted Interleaving

section Statement

/-- What the refunds and the charges say of each other. -/
structure Db.RefundsAgree (db : Db) : Prop where
  marked : ∀ c ∈ db.transactions, c.transactionType = .charge → (c.isRefunded = true ↔
    ∃ r ∈ db.transactions, r.transactionType = .refund ∧ r.refundedPaymentId = some c.id)
  refunds : ∀ r ∈ db.transactions, r.transactionType = .refund → ∃ c ∈ db.transactions,
    r.refundedPaymentId = some c.id ∧ c.transactionType = .charge ∧ c.status = .succeeded ∧
      r.amount ≤ c.amount ∧ r.currency = c.currency ∧ r.orderId = c.orderId ∧
      r.srcAccId = c.dstAccId ∧ r.dstAccId = c.srcAccId

end Statement

section Blocks
variable {I : Db → List (Pid × List Write) → Prop} {ok : Pid → Op → Env → World → Prop} {p : Pid}
  {w : World} {ws : List Write}

/-- Each mark goes with the row of a refund. -/
def MarksCovered (ws : List Write) : Prop :=
  ∀ id now, .markRefunded id now ∈ ws → ∃ row, .insertTransaction row ∈ ws ∧
    row.transactionType = .refund ∧ row.refundedPaymentId = orNull (some id)

/-- Every commit covers its marks. -/
def CommitsCover (_ : Db) (history : List (Pid × List Write)) : Prop :=
  ∀ b ∈ history, MarksCovered b.2

def Write.Unmarking (x : Write) : Prop := ∀ id now, x ≠ .markRefunded id now

theorem covered_of_unmarking (h : ∀ x ∈ ws, x.Unmarking) : MarksCovered ws :=
  fun id now hx => absurd rfl (h _ hx id now)

theorem commitsCover_commit {db : Db} {history : List (Pid × List Write)}
    (h : CommitsCover db history) (hws : MarksCovered ws) (db' : Db) (p : Pid) :
    CommitsCover db' (history ++ [(p, ws)]) := by
  intro b hb
  rcases List.mem_append.mp hb with hb | hb
  · exact h b hb
  · rw [List.mem_singleton.mp hb]
    exact hws

theorem commitsCover_keptBy (p : Pid) : KeptBy CommitsCover p Write.Unmarking :=
  fun _ _ _ h hlog => commitsCover_commit h (covered_of_unmarking hlog) _ p

/-- The mark and the row of the refund are committed together. -/
theorem wp_recordRefund_covered {tx : TransactionEntity} {region : String} {amount : Int}
    {refundRes : RefundResult} (hlog : w.store.txn p = .active [])
    {P : PaymentResponse → World → Prop} (hP : ∀ a v, P a v) :
    wp machine ok (sharedSpec CommitsCover) p (recordRefund region tx refundRes amount)
      (OnOk P) w := by
  have hS := sharedSpec_isolated CommitsCover p
  unfold recordRefund markTransactionAsRefunded createTransaction
  apply wp_seq
  apply wp_seq
  apply wp_now_ok hS
  intro w₁ hr₁ _
  have hlog₁ := (hS.sees w w₁ hr₁).1.txn.trans hlog
  apply wp_trx_ok hS hlog₁
  intro w₂ e a _ _ hlog₂ _ _ _
  have hmark : (w₂.queried p (.markTransactionAsRefunded tx.id w₁.clock)).store.txn p
      = .active [.markRefunded tx.id w₁.clock] := World.queried_txn_of_log hlog₂
  apply wp_seq
  apply wp_seq
  apply wp_now_ok hS
  intro w₃ hr₃ _
  have hlog₃ := (hS.sees _ w₃ hr₃).1.txn.trans hmark
  apply wp_seq
  apply wp_trx_ok hS hlog₃
  intro w₄ e row _ _ hlog₄ _ _ hreply
  apply wp_toEntity
  rintro refundTx rfl
  apply wp_seq
  apply wp_commit_shared (World.queried_txn_of_log hlog₄)
  intro w₅ _ hi₅ _
  refine ⟨commitsCover_commit hi₅.2 (fun id now hx => ?_) _ p, hP _ _⟩
  -- A refund has no idempotency key, so its row is always inserted.
  have hwrites : (w₄.inTrx p (.createTransaction (refundData region tx refundRes amount)
      w₃.clock)).writes = [.insertTransaction ((refundData region tx refundRes amount).toEntity
        w₄.seqs.transactions w₃.clock)] := rfl
  rw [hwrites] at hx ⊢
  rcases List.mem_pair.mp hx with hmarked | hno
  · cases hmarked
    exact ⟨_, List.mem_cons_of_mem _ List.mem_cons_self, rfl, rfl⟩
  · cases hno

theorem wp_refundPayment_covered (cfg : Config) {transactionId : Nat} {amount : Int}
    {region : String} {P : PaymentResponse → World → Prop} (hP : ∀ a v, P a v) :
    wp machine ok (sharedSpec CommitsCover) p (refundPayment cfg transactionId amount region)
      (OnOk P) w := by
  have hS := sharedSpec_isolated CommitsCover p
  unfold refundPayment refundBody
  apply wp_seq
  apply wp_start_ok hS
  intro w₁ _ _ _
  apply wp_catch_ok _ fun err v => wp_abort hS
  apply wp_seq
  apply wp_trx_ok hS (World.start_txn w₁ p)
  intro w₂ e found _ _ hlog₂ _ _ _
  cases found with
  | none => trivial
  | some tx =>
    apply wp_seq
    apply wp_fromExcept
    intro _ _
    apply wp_seq
    apply wp_reading hS (calls_lookUpOrder fun id x hx => absurd hx fun h => h)
      (World.queried_txn_of_read hlog₂ rfl)
    intro _ w₃ _ hlog₃
    apply wp_seq
    apply wp_reading hS (calls_kashierRefund rfl rfl) hlog₃
    intro refundRes w₄ _ hlog₄
    split_ifs
    · trivial
    · exact wp_recordRefund_covered hlog₄ hP

theorem unmarking_of_mayWrite {c : Call} (hc : ∀ input, c ≠ .refundPayment input) {x : Write}
    (hx : c.MayWrite x) : x.Unmarking := by
  rintro transactionId now rfl
  cases c with
  | refundPayment input => exact hc input rfl
  | claim publicId agentId region | adminAssign publicId agentId region =>
    obtain ⟨t, ht⟩ := hx
    cases ht
  | agentUpdateStatus publicId agentId region action =>
    cases action with
    | picked =>
      obtain ⟨name, stamp, t, ht⟩ := hx
      cases ht
    | delivered =>
      rcases hx with ⟨name, stamp, t, ht⟩ | ⟨order, hx⟩
      · cases ht
      · cases hx
    | _ => exact absurd hx id
  | _ => exact absurd hx id

theorem wp_call_covered (hmacSha256 : String → String → String) (cfg : Config) (c : Call)
    (hlog : w.log p = []) :
    wp machine ok (sharedSpec CommitsCover) p (c.prog hmacSha256 cfg) (OnOk fun _ _ => True) w := by
  by_cases hc : ∃ input, c = .refundPayment input
  · obtain ⟨input, rfl⟩ := hc
    exact wp_seq (wp_refundPayment_covered cfg fun _ _ => trivial)
  · have hwithin : Within Write.Unmarking (c.prog hmacSha256 cfg) := by
      apply (within_mayWrite hmacSha256 cfg c).weaken
      intro o ho
      cases o with
      | sql conn q =>
        exact fun x hx => unmarking_of_mayWrite (fun input h => hc ⟨input, h⟩) (ho x hx)
      | _ => trivial
    have hnone : ∀ x ∈ w.log p, x.Unmarking := by
      intro x hx
      rw [hlog] at hx
      cases hx
    apply wp_mono _ (wp_harmless hwithin (commitsCover_keptBy p)
      (fun _ _ _ _ _ _ _ _ _ => trivial) hnone)
    intro r v _
    cases r <;> trivial

end Blocks

section Tables
variable {db : Db} {ws : List Write} {c : TransactionEntity}

/-- A charge that is marked was marked by one of the writes, or before them. -/
theorem marked_by (hfit : recordGrowth.Fitting ws db)
    (hc : c ∈ (engine.applyAll ws db).transactions) (hkind : c.transactionType = .charge)
    (hmarked : c.isRefunded = true) : (∃ now, .markRefunded c.id now ∈ ws) ∨ ∃ c₀ ∈ db.transactions,
      c₀.transactionType = .charge ∧ c₀.isRefunded = true ∧ c₀.id = c.id := by
  -- From the last write back: it marked the charge, or the charge was marked before it.
  induction ws generalizing db with
  | nil => exact .inr ⟨c, hc, hkind, hmarked, rfl⟩
  | cons x ws ih =>
    rcases ih hfit.2 hc with ⟨now, hnow⟩ | ⟨c₁, hc₁, hkind₁, hmarked₁, hid₁⟩
    · exact .inl ⟨now, List.mem_cons_of_mem x hnow⟩
    rcases mem_transactions_apply.mp hc₁ with ⟨c₀, hc₀, rfl⟩ | rfl
    · have hlater := onTransaction_continues hfit.1 c₀
      have hid := hlater.reads (f := fun row => row.id) fun _ => rfl
      have hkind₀ := hlater.reads (f := fun row => row.transactionType) fun _ => rfl
      by_cases hmarked₀ : c₀.isRefunded = true
      · exact .inr ⟨c₀, hc₀, hkind₀.symm.trans hkind₁, hmarked₀, hid.symm.trans hid₁⟩
      · -- Only the mark itself can have set the column.
        cases x with
        | markRefunded id now =>
          rw [onTransaction_markRefunded] at hmarked₁ hid₁
          split_ifs at hmarked₁ hid₁ with hsame
          · refine .inl ⟨now, ?_⟩
            rw [← hid₁, ← hsame]
            exact List.mem_cons_self
          · exact absurd hmarked₁ hmarked₀
        | setTransactionStatus id status now =>
          rw [onTransaction_setTransactionStatus] at hmarked₁
          split_ifs at hmarked₁
          · exact absurd hmarked₁ hmarked₀
          · exact absurd hmarked₁ hmarked₀
        | _ => exact absurd hmarked₁ hmarked₀
    · -- A charge is inserted without the mark.
      have hunmarked := (TransactionEntity.FitsRow.charge hfit.1 hkind₁).1
      rw [hunmarked] at hmarked₁
      cases hmarked₁

/-- A row that was inserted is still there. -/
theorem hasTransaction_of_insert (hfit : recordGrowth.Fitting ws db)
    (hrow : .insertTransaction c ∈ ws) : (engine.applyAll ws db).HasTransaction c := by
  induction ws generalizing db with
  | nil => cases hrow
  | cons x ws ih =>
    rcases List.mem_cons.mp hrow with rfl | hrow
    · have hnew : (engine.apply (.insertTransaction c) db).HasTransaction c :=
        ⟨c, mem_transactions_apply.mpr (.inr rfl), .refl c⟩
      exact hnew.mono hfit.2.le
    · exact ih hfit.2 hrow

/-- A marked charge that was not there at first has its refund. -/
theorem refund_of_marked {w : World} {history : List (Pid × List Write)}
    (hrun : recordGrowth.Run w.store.db db history) (hcover : CommitsCover db history)
    (hnone : w.store.db.transactions = []) (hc : c ∈ db.transactions)
    (hkind : c.transactionType = .charge) (hmarked : c.isRefunded = true) :
    ∃ r ∈ db.transactions, r.transactionType = .refund ∧
      r.refundedPaymentId = orNull (some c.id) := by
  rw [hrun.reached] at hc
  rcases marked_by hrun.fitting hc hkind hmarked with ⟨now, hnow⟩ | ⟨c₀, hc₀, _⟩
  · obtain ⟨b, hb, hx⟩ := List.mem_flatMap.mp hnow
    obtain ⟨row, hrow, hrefund, hid⟩ := hcover b hb c.id now hx
    obtain ⟨r, hr, hlater⟩ :=
      hasTransaction_of_insert hrun.fitting (List.mem_flatMap.mpr ⟨b, hb, hrow⟩)
    rw [← hrun.reached] at hr
    exact ⟨r, hr, (hlater.reads (f := fun row => row.transactionType) fun _ => rfl).trans hrefund,
      (hlater.reads (f := fun row => row.refundedPaymentId) fun _ => rfl).trans hid⟩
  · rw [hnone] at hc₀
    cases hc₀

/-- The charge that a refund pays back, found by its id. -/
theorem Db.Recorded.paidBack (h : db.Recorded)
    (hpos : ∀ i ∈ db.transactions.map TransactionEntity.id, 0 < i) {r : TransactionEntity}
    (hr : r ∈ db.transactions) (hkind : r.transactionType = .refund) :
    ∃ row ∈ db.transactions, r.refundedPaymentId = some row.id ∧ r.PaysBack row := by
  obtain ⟨c, ⟨row, hrow, hlater⟩, hpays⟩ := h.refunds r hr hkind
  have hid : row.id = c.id := hlater.reads (f := fun t => t.id) fun _ => rfl
  have hset := hpos row.id (List.mem_map_of_mem hrow)
  refine ⟨row, hrow, ?_, ?_⟩
  · rw [hpays.refunded, ← hid, orNull_of_ne (Nat.ne_of_gt hset)]
  · exact {
      refunded := hpays.refunded.trans (congrArg (fun n => orNull (some n)) hid.symm)
      charge := (hlater.reads (f := fun t => t.transactionType) fun _ => rfl).trans hpays.charge
      succeeded := hlater.succeeded hpays.succeeded
      marked := hlater.refunded hpays.marked
      amount := hpays.amount.trans (hlater.reads (f := fun t => t.amount) fun _ => rfl).ge
      currency := hpays.currency.trans (hlater.reads (f := fun t => t.currency) fun _ => rfl).symm
      orderId := hpays.orderId.trans (hlater.reads (f := fun t => t.orderId) fun _ => rfl).symm
      srcAccId := hpays.srcAccId.trans (hlater.reads (f := fun t => t.dstAccId) fun _ => rfl).symm
      dstAccId := hpays.dstAccId.trans (hlater.reads (f := fun t => t.srcAccId) fun _ => rfl).symm }

end Tables

section Runs
variable (hmacSha256 : String → String → String) (cfg : Config) (w : World)

theorem commitsCover_reaches (hw : w.AtRest) (calls : Pid → Option Call)
    {ok : Pid → Op → Env → World → Prop} {t : Sys Pid Op Op.Res Err World Reply}
    (ht : machine.Reaches ok (running hmacSha256 cfg calls w) t) :
    CommitsCover t.world.store.db t.world.store.history := by
  refine shared_reaches hw (fun b hb => by cases hb) (fun p prog hprog => ?_) ht
  obtain ⟨c, _, rfl⟩ := Option.map_eq_some_iff.mp hprog
  have hempty : w.log p = [] := by
    rw [World.log, hw.txn p]
    rfl
  exact wp_call_covered hmacSha256 cfg c hempty

/-- In every interleaving of any calls, a charge is marked as refunded if and only if there is a
refund of it, and every refund agrees with a successful charge. -/
theorem refunds_agree (hw : w.Blank) (hids : 0 < w.seqs.transactions) (calls : Pid → Option Call)
    {ok : Pid → Op → Env → World → Prop} {t : Sys Pid Op Op.Res Err World Reply}
    (ht : machine.Reaches ok (running hmacSha256 cfg calls w) t) :
    t.world.store.db.RefundsAgree := by
  have hrun := recordRun_reaches hmacSha256 cfg w hw calls ht
  have hrecorded := hrun.sound hw.recorded
  have hcover := commitsCover_reaches hmacSha256 cfg w hw.toAtRest calls ht
  have hnone : transactionSerial.ids w.store.db = [] := by
    change w.store.db.transactions.map TransactionEntity.id = []
    rw [hw.transactions]
    rfl
  have hfirst : transactionSerial.Numbered w := by
    refine Serial.numbered_atRest transactionSerial hw.toAtRest hids ?_ ?_
    · rw [hnone]
      intro i hi
      cases hi
    · rw [hnone]
      exact List.nodup_nil
  have hnumbered := Serial.numbered_reaches transactionSerial hfirst ht
  have hpos : ∀ i ∈ t.world.store.db.transactions.map TransactionEntity.id, 0 < i :=
    fun i hi => (hnumbered.committed i hi).1
  refine ⟨fun c hc hkind => ⟨fun hmarked => ?_, ?_⟩, fun r hr hkind => ?_⟩
  · obtain ⟨r, hr, hrefund, hid⟩ := refund_of_marked hrun hcover hw.transactions hc hkind hmarked
    have hset := hpos c.id (List.mem_map_of_mem hc)
    exact ⟨r, hr, hrefund, by rw [hid, orNull_of_ne (Nat.ne_of_gt hset)]⟩
  · -- The refund names its charge by an id, and no two rows have one id.
    rintro ⟨r, hr, hrefund, hid⟩
    obtain ⟨row, hrow, hid', hpays⟩ := hrecorded.paidBack hpos hr hrefund
    have hsame : row.id = c.id := Option.some.inj (hid'.symm.trans hid)
    rw [← List.inj_on_of_nodup_map hnumbered.nodup hrow hc hsame]
    exact hpays.marked
  · obtain ⟨row, hrow, hid, hpays⟩ := hrecorded.paidBack hpos hr hkind
    exact ⟨row, hrow, hid, hpays.charge, hpays.succeeded, hpays.amount, hpays.currency,
      hpays.orderId, hpays.srcAccId, hpays.dstAccId⟩

end Runs

theorem refunds_agree_two_orders : ∃ t u, TwoOrdersRun t u ∧
    u.world.store.db.RefundsAgree := by
  obtain ⟨t, u, h⟩ := twoOrdersRun_exists
  exact ⟨t, u, h, refunds_agree sampleHmac sampleConfig paymentsShard paymentsShard_blank
    (Nat.zero_lt_succ 0) twoOrdersAndRefund h.reached⟩

end OrderService
