import OrderService.AccountEffects
import OrderService.LedgerWellFormed

/-! The account of the restaurant in all the rows of one order: what each row says, in every
interleaving, and when this is the account of the owner that the order has stored. -/
namespace OrderService
open ReadCommitted Interleaving

section Statement

/-- Every row of the order names its restaurant by the stored owner. -/
def OneAccount (order : OrderEntity) (db : Db) : Prop :=
  ∀ t ∈ db.transactions, t.orderId = some order.id →
    t.restaurantAccount = some order.restaurantOwnerId

/-- The order has a charge for the transaction of the provider. -/
def Db.Paid (db : Db) (order : OrderEntity) (transactionId : String) : Prop :=
  ∃ t ∈ db.transactions, t.transactionType = .charge ∧ t.orderId = some order.id ∧
    t.providerReferenceId.getD "" = transactionId

end Statement

section Calls
variable {owners : String → Option Nat} {db₀ : Db} {p : Pid} {w : World}
  {calls : Pid → Option Call}

theorem fitsAccounts_of_mayWrite {c : Call}
    (hwebhook : ∀ rawBody signature region, c ≠ .webhook rawBody signature region)
    (hdeliver : ∀ publicId agentId region, c ≠ .agentUpdateStatus publicId agentId region .delivered)
    (hpayout : ∀ input, c ≠ .recordPayout input) (hrefund : ∀ input, c ≠ .refundPayment input)
    {x : Write} (hx : c.MayWrite x) (db : Db) : x.FitsAccounts owners db := by
  cases c with
  | placeOrder actor region dto | updateStatus actor dto region orderId =>
    cases x <;> first | exact trivial | exact absurd hx id
  | webhook rawBody signature region => exact absurd rfl (hwebhook rawBody signature region)
  | claim publicId agentId region | adminAssign publicId agentId region =>
    obtain ⟨now, rfl⟩ := hx
    trivial
  | agentUpdateStatus publicId agentId region action =>
    cases action with
    | picked =>
      obtain ⟨publicId, stamp, now, rfl⟩ := hx
      trivial
    | delivered => exact absurd rfl (hdeliver publicId agentId region)
    | _ => exact absurd hx id
  | recordPayout input => exact absurd rfl (hpayout input)
  | refundPayment input => exact absurd rfl (hrefund input)

theorem within_payout_accounts (input : PayoutInput) :
    Within (fun x => ∀ db, x.FitsAccounts owners db) (recordPayout input) := by
  refine within_recordPayout (fun row hkind _ horder db => ?_) fun _ _ _ _ _ => trivial
  refine ⟨fun h => ?_, fun h => ?_, fun _ _ h => absurd hkind h, fun _ => horder⟩
  · rw [hkind] at h
    cases h
  · rw [hkind] at h
    cases h

theorem wp_call_accounts (hs : db₀.RowsAccounted owners) (hmacSha256 : String → String → String)
    (cfg : Config) {c : Call} (hp : calls p = some c) (hlog : w.log p = []) :
    wp machine (BranchAnswers calls owners) (grownSpec (accountGrowth owners) db₀) p
      (c.prog hmacSha256 cfg) (OnOk fun _ _ => True) w := by
  have hother : Within (fun x => ∀ db, x.FitsAccounts owners db) (c.prog hmacSha256 cfg) →
      wp machine (BranchAnswers calls owners) (grownSpec (accountGrowth owners) db₀) p
        (c.prog hmacSha256 cfg) (OnOk fun _ _ => True) w := by
    intro hwithin
    have hnone : ∀ x ∈ w.log p, ∀ db, x.FitsAccounts owners db := by
      intro x hx
      rw [hlog] at hx
      cases hx
    apply wp_mono _ (wp_harmless hwithin (grown_keptBy (fun _ h => h) p)
      (fun _ _ _ _ _ _ _ _ _ => trivial) hnone)
    intro r v _
    cases r <;> trivial
  have hplain : (∀ x, c.MayWrite x → ∀ db, x.FitsAccounts owners db) →
      Within (fun x => ∀ db, x.FitsAccounts owners db) (c.prog hmacSha256 cfg) := by
    intro hfits
    apply (within_mayWrite hmacSha256 cfg c).weaken
    intro o ho
    cases o with
    | sql conn q => exact fun x hx => hfits x (ho x hx)
    | _ => trivial
  cases c with
  | webhook rawBody signature region =>
    exact wp_seq (wp_webhook_accounts hs hmacSha256 cfg hp fun _ => trivial)
  | recordPayout input =>
    exact hother (within_do (within_payout_accounts input) fun _ => trivial)
  | refundPayment input => exact wp_seq (wp_refundPayment_accounts hs cfg fun _ _ => trivial)
  | agentUpdateStatus publicId agentId region action =>
    by_cases haction : action = .delivered
    · subst haction
      apply wp_seq
      unfold agentUpdateStatus
      apply wp_seq
      apply wp_pool_fits fun x hx => absurd hx id
      intro found v
      cases found with
      | none => trivial
      | some order =>
      dsimp only
      split_ifs
      · trivial
      · exact wp_deliver_accounts hs cfg agentId region fun _ _ => trivial
    · apply hother
      apply hplain
      refine fun x hx => fitsAccounts_of_mayWrite (by simp) ?_ (by simp) (by simp) hx
      simpa using haction
  | _ =>
    exact hother (hplain fun x hx => fitsAccounts_of_mayWrite (by simp) (by simp) (by simp)
      (by simp) hx)

end Calls

section Orders
variable {owners : String → Option Nat} {db : Db} {order : OrderEntity} {t : TransactionEntity}

/-- The ids of the orders tell them apart. -/
structure Db.Identified (db : Db) : Prop where
  pos : ∀ i ∈ db.orders.map OrderEntity.id, 0 < i
  nodup : (db.orders.map OrderEntity.id).Nodup

theorem accounts_unique (hids : db.Identified) (horder : order ∈ db.orders) {o : AccountTerms}
    (ho : db.HasAccounts o) (heq : orNull (some o.id) = some order.id) : o = order.accounts := by
  obtain ⟨row, hrow, rfl⟩ := ho
  have hid : row.id = order.id := (orNull_eq_some.mp heq).1
  rw [List.inj_on_of_nodup_map hids.nodup hrow horder hid]

/-- What a charge of the order says. -/
theorem charge_account (hrows : db.RowsAccounted owners) (hids : db.Identified)
    (horder : order ∈ db.orders) (ht : t ∈ db.transactions) (hkind : t.transactionType = .charge)
    (hid : t.orderId = some order.id) :
    t.dstAccId
      = orNull (some (accountGiven (owners (t.providerReferenceId.getD "")) order.accounts)) := by
  obtain ⟨o, ho, heq, hdst⟩ := (hrows t ht).charge hkind
  rw [accounts_unique hids horder ho (heq.symm.trans hid)] at hdst
  exact hdst

theorem agreeing_iff (hrows : db.RowsAccounted owners) (hids : db.Identified)
    (horder : order ∈ db.orders) (hpaid : ∃ transactionId, db.Paid order transactionId) :
    OneAccount order db ↔ order.restaurantOwnerId ≠ 0 ∧ ∀ transactionId,
      db.Paid order transactionId →
        accountGiven (owners transactionId) order.accounts = order.restaurantOwnerId := by
  constructor
  · intro hone
    have hcharge : ∀ transactionId, db.Paid order transactionId →
        accountGiven (owners transactionId) order.accounts = order.restaurantOwnerId ∧
          order.restaurantOwnerId ≠ 0 := by
      rintro _ ⟨t, ht, hkind, hid, rfl⟩
      have haccount := hone t ht hid
      have hdst := charge_account hrows hids horder ht hkind hid
      rw [TransactionEntity.restaurantAccount, hkind] at haccount
      exact orNull_eq_some.mp (hdst.symm.trans haccount)
    obtain ⟨transactionId, hsome⟩ := hpaid
    exact ⟨(hcharge transactionId hsome).2, fun T hT => (hcharge T hT).1⟩
  · rintro ⟨howner, hgiven⟩
    have hcharge : ∀ t ∈ db.transactions, t.transactionType = .charge →
        t.orderId = some order.id → t.dstAccId = some order.restaurantOwnerId := by
      intro t ht hkind hid
      rw [charge_account hrows hids horder ht hkind hid, hgiven _ ⟨t, ht, hkind, hid, rfl⟩]
      exact orNull_of_ne howner
    intro t ht hid
    by_cases hkind : t.transactionType = .charge
    · rw [TransactionEntity.restaurantAccount, hkind]
      exact hcharge t ht hkind hid
    by_cases hrefund : t.transactionType = .refund
    · -- A refund repeats its charge.
      obtain ⟨_, ⟨c, hc, hckind, rfl⟩, heq, hsrc⟩ := (hrows t ht).refund hrefund
      rw [TransactionEntity.restaurantAccount, hrefund]
      exact hsrc.trans (hcharge c hc hckind (heq.symm.trans hid))
    by_cases hpayout : t.transactionType = .payout
    · rw [(hrows t ht).payout hpayout] at hid
      cases hid
    obtain ⟨o, ho, heq, haccount⟩ := (hrows t ht).settled hkind hrefund hpayout
    rw [accounts_unique hids horder ho (heq.symm.trans hid)] at haccount
    exact haccount.trans (orNull_of_ne howner)

end Orders

section Runs

/-- In every interleaving of any calls, whatever core answers: the rows of a paid order have one
account, that of the stored owner, exactly if this is not zero, and the answer to each of its
webhooks named it, or named none while the restaurant itself has this number. -/
theorem one_account_iff (hmacSha256 : String → String → String) (cfg : Config) (w : World)
    (hw : w.Fresh) (calls : Pid → Option Call) (owners : String → Option Nat)
    {t : Sys Pid Op Op.Res Err World Reply}
    (ht : machine.Reaches (BranchAnswers calls owners) (running hmacSha256 cfg calls w) t)
    (order : OrderEntity) (horder : order ∈ t.world.store.db.orders)
    (hpaid : ∃ transactionId, t.world.store.db.Paid order transactionId) :
    OneAccount order t.world.store.db ↔ order.restaurantOwnerId ≠ 0 ∧ ∀ transactionId,
      t.world.store.db.Paid order transactionId →
        accountGiven (owners transactionId) order.accounts = order.restaurantOwnerId := by
  have hrest := hw.toAtRest
  have hs : w.store.db.RowsAccounted owners := by
    intro t ht
    rw [hw.transactions] at ht
    cases ht
  have hwp : ∀ p prog, (running hmacSha256 cfg calls w).procs p = some prog →
      wp machine (BranchAnswers calls owners) (grownSpec (accountGrowth owners) w.store.db) p prog
        (OnOk fun _ _ => True) w := by
    intro p prog hprog
    obtain ⟨c, hp, rfl⟩ := Option.map_eq_some_iff.mp hprog
    apply wp_call_accounts hs hmacSha256 cfg hp
    rw [World.log, hrest.txn p]
    rfl
  have hrun := shared_reaches hrest Growth.Run.start hwp ht
  have hids := Serial.numbered_reaches orderSerial hw.numbered ht
  exact agreeing_iff (hrun.sound hs) ⟨fun i hi => (hids.committed i hi).1, hids.nodup⟩ horder
    hpaid

end Runs

section Samples

theorem one_le_paid : (1 : Int) ≤ 12500 := by decide

/-- An order that is paid online, delivered by agent 7 and then refunded in full. -/
def paidDelivery : Pid → Option Call
  | 0 => some (.placeOrder ⟨5, .other "customer", none, none, none⟩ (some "eg")
      ⟨1, 1, .online, [⟨3, 1⟩]⟩)
  | 1 => some (.webhook (some (payBody "SUCCESS")) (paySignature "SUCCESS") "eg")
  | 2 => some (.updateStatus restaurantOwner ⟨.accepted, none⟩ "eg" "order-1")
  | 3 => some (.updateStatus restaurantOwner ⟨.preparing, none⟩ "eg" "order-1")
  | 4 => some (.updateStatus restaurantOwner ⟨.ready, none⟩ "eg" "order-1")
  | 5 => some (.adminAssign "order-1" 7 "eg")
  | 6 => some (.agentUpdateStatus "order-1" 7 "eg" .picked)
  | 7 => some (.agentUpdateStatus "order-1" 7 "eg" .delivered)
  | 8 => some (.refundPayment ⟨1, 12500, "eg", one_le_paid⟩)
  | _ => none

/-- Each call after the one before; `e` is what the webhook is answered. -/
def paidSchedule (e : Env) : List (Label Pid Env Ext) :=
  ([(0, kosharyAnswers, 17), (1, e, 24), (2, kosharyAnswers, 9), (3, kosharyAnswers, 8),
    (4, kosharyAnswers, 8), (5, kosharyAnswers, 11), (6, kosharyAnswers, 5),
    (7, kosharyAnswers, 22), (8, kosharyAnswers, 9)] : List (Pid × Env × Nat)).flatMap
      fun a => List.replicate a.2.2 (.act a.1 a.2.1)

/-- The answers to webhooks name this owner, or none. -/
def ownerIs (calls : Pid → Option Call) (owner : Option Nat) (p : Pid) (_ : Op) (e : Env)
    (_ : World) : Bool :=
  match calls p with
  | some (.webhook ..) => !e.fail && e.branch.restaurantOwnerId = owner
  | _ => true

theorem branchAnswers_of_check {calls : Pid → Option Call} {owner : Option Nat} (p : Pid) (o : Op)
    (e : Env) (w : World) (h : ownerIs calls owner p o e w = true) :
    BranchAnswers calls (fun _ => owner) p o e w := by
  cases o with
  | getBranch b =>
    intro rawBody signature region transactionId hp _
    simp only [ownerIs, hp, Bool.and_eq_true, Bool.not_eq_true', decide_eq_true_eq] at h
    rw [h.1]
    exact h.2
  | _ => trivial

/-- The branch of the samples, without an owner. -/
def ownerless : Env :=
  { kosharyAnswers with branch := { kosharyAnswers.branch with restaurantOwnerId := none } }

def paidRun (owner : Option Nat) (e : Env) : Option (Sys Pid Op Op.Res Err World Reply) :=
  machine.run (ownerIs paidDelivery owner) (paidSchedule e)
    (running sampleHmac sampleConfig paidDelivery paymentsShard)

def ordersOf (t : Sys Pid Op Op.Res Err World Reply) :
    List (Nat × OrderStatus × PaymentMethod × Nat) :=
  t.world.store.db.orders.map fun o => (o.id, o.status, o.paymentMethod, o.restaurantOwnerId)

def accountsOf (t : Sys Pid Op Op.Res Err World Reply) :
    List (TransactionType × Option Nat × Option Nat) :=
  t.world.store.db.transactions.map fun t => (t.transactionType, t.orderId, t.restaurantAccount)

theorem paymentsShard_fresh : paymentsShard.Fresh :=
  ⟨⟨rfl, fun _ => rfl, rfl⟩, rfl, rfl, rfl, by decide⟩

/-- The order of a run and its charge, by what is told of them. -/
theorem order_of_accounts {t : Sys Pid Op Op.Res Err World Reply} {id owner : Nat}
    {account : Option Nat} {rows : List (TransactionType × Option Nat × Option Nat)}
    (horders : ordersOf t = [(id, .delivered, .online, owner)])
    (hrows : accountsOf t = (.charge, some id, account) :: rows) :
    ∃ o ∈ t.world.store.db.orders, o.status = .delivered ∧ o.paymentMethod = .online ∧
      o.restaurantOwnerId = owner ∧ ∃ row ∈ t.world.store.db.transactions,
        row.transactionType = .charge ∧ row.orderId = some o.id ∧
          row.restaurantAccount = account := by
  obtain ⟨o, _, ho, hfields, -⟩ := List.map_eq_cons_iff.mp horders
  obtain ⟨row, _, hrow, hcolumns, -⟩ := List.map_eq_cons_iff.mp hrows
  simp only [Prod.mk.injEq] at hfields hcolumns
  obtain ⟨rfl, hstatus, hmethod, howner⟩ := hfields
  refine ⟨o, ?_, hstatus, hmethod, howner, row, ?_, hcolumns⟩
  · rw [ho]
    exact List.mem_cons_self
  · rw [hrow]
    exact List.mem_cons_self

theorem one_account_iff_delivered :
    ∃ t, paidRun (some 9) kosharyAnswers = some t ∧ ∃ o ∈ t.world.store.db.orders,
      o.status = .delivered ∧ o.paymentMethod = .online ∧
        (∃ transactionId, t.world.store.db.Paid o transactionId) ∧
        OneAccount o t.world.store.db := by
  have hrun : ((paidRun (some 9) kosharyAnswers).any fun t =>
      ordersOf t = [(1, .delivered, .online, 9)] && accountsOf t = [(.charge, some 1, some 9),
        (.commission, some 1, some 9), (.adjustment, some 1, some 9),
        (.refund, some 1, some 9)]) = true := by
    decide +kernel
  obtain ⟨t, ht, hend⟩ := (Option.any_eq_true _ _).mp hrun
  simp only [Bool.and_eq_true, decide_eq_true_eq] at hend
  obtain ⟨o, ho, hstatus, hmethod, howner, row, hrow, hkind, hid, -⟩ :=
    order_of_accounts hend.1 hend.2
  have hpaid : ∃ transactionId, t.world.store.db.Paid o transactionId :=
    ⟨_, row, hrow, hkind, hid, rfl⟩
  refine ⟨t, ht, o, ho, hstatus, hmethod, hpaid, (one_account_iff sampleHmac sampleConfig
    paymentsShard paymentsShard_fresh paidDelivery (fun _ => some 9)
    (Machine.reaches_of_run branchAnswers_of_check _ ht) o ho hpaid).mpr ⟨?_, fun _ _ => ?_⟩⟩
  · rw [howner]
    decide
  · rw [howner]
    rfl

/-- The branch has no owner when the webhook asks for it: the charge and its refund name the
restaurant 1, the rows of the settlement its owner 9. -/
theorem two_accounts :
    ∃ t, machine.Reaches (BranchAnswers paidDelivery fun _ => none)
        (running sampleHmac sampleConfig paidDelivery paymentsShard) t ∧
      accountsOf t = [(.charge, some 1, some 1), (.commission, some 1, some 9),
        (.adjustment, some 1, some 9), (.refund, some 1, some 1)] ∧
      ∃ o ∈ t.world.store.db.orders, o.status = .delivered ∧ o.paymentMethod = .online ∧
        (∃ transactionId, t.world.store.db.Paid o transactionId) ∧
        ¬OneAccount o t.world.store.db := by
  have hrun : ((paidRun none ownerless).any fun t =>
      ordersOf t = [(1, .delivered, .online, 9)] && accountsOf t = [(.charge, some 1, some 1),
        (.commission, some 1, some 9), (.adjustment, some 1, some 9),
        (.refund, some 1, some 1)]) = true := by
    decide +kernel
  obtain ⟨t, ht, hend⟩ := (Option.any_eq_true _ _).mp hrun
  simp only [Bool.and_eq_true, decide_eq_true_eq] at hend
  obtain ⟨o, ho, hstatus, hmethod, howner, row, hrow, hkind, hid, haccount⟩ :=
    order_of_accounts hend.1 hend.2
  refine ⟨t, Machine.reaches_of_run branchAnswers_of_check _ ht, hend.2, o, ho, hstatus, hmethod,
    ⟨_, row, hrow, hkind, hid, rfl⟩, fun hone => ?_⟩
  have hsame := hone row hrow hid
  rw [haccount, howner] at hsame
  cases hsame

end Samples

end OrderService
