import OrderService.DeliveredSettled
import OrderService.LedgerEffects

/-! Placements, webhooks, refunds, deliveries and payouts, in any interleaving, leave a ledger
whose rows are well formed. -/
namespace OrderService
open ReadCommitted Interleaving

section Statement

/-- What the rows of the ledger say about the orders, of which no two have the same id. -/
structure Db.LedgerWellFormed (db : Db) : Prop where
  amount : ∀ t ∈ db.transactions, 0 < t.amount
  charge : ∀ t ∈ db.transactions, t.transactionType = .charge → t.status = .succeeded →
    ∃ o ∈ db.orders, t.orderId = some o.id ∧ o.paymentMethod = .online ∧ t.amount = o.total ∧
      t.currency = o.currency ∧
      ∃ s ∈ db.paymentSessions, s.orderId = o.id ∧ s.status = .captured ∧ s.amount = t.amount
  cod : ∀ t ∈ db.transactions, t.transactionType = .codCollection →
    ∃ o ∈ db.orders, t.orderId = some o.id ∧ o.paymentMethod = .cod ∧ t.amount = o.total
  cod_once : ∀ id, db.transactions.countP
    (fun t => t.transactionType = .codCollection && t.orderId = some id) ≤ 1
  commission : ∀ t ∈ db.transactions, t.transactionType = .commission →
    ∃ o ∈ db.orders, t.orderId = some o.id ∧ t.amount ≤ o.subtotal
  commission_once : ∀ id, db.transactions.countP
    (fun t => t.transactionType = .commission && t.orderId = some id) ≤ 1
  orders : (db.orders.map OrderEntity.id).Nodup

/-- No order, session or transaction has been inserted yet. -/
structure World.Fresh (w : World) : Prop extends w.AtRest where
  orders : w.store.db.orders = []
  paymentSessions : w.store.db.paymentSessions = []
  transactions : w.store.db.transactions = []
  started : 0 < w.seqs.orders

end Statement

theorem World.Fresh.numbered {w : World} (hw : w.Fresh) : orderSerial.Numbered w := by
  have hids : orderSerial.ids w.store.db = [] := by
    change w.store.db.orders.map OrderEntity.id = []
    rw [hw.orders]
    rfl
  refine Serial.numbered_atRest orderSerial hw.toAtRest hw.started ?_ ?_
  · rw [hids]
    intro i hi
    cases hi
  · rw [hids]
    exact List.nodup_nil

section Calls
variable {db₀ : Db} {p : Pid} {w : World} (hmacSha256 : String → String → String) (cfg : Config)

theorem wp_placeOrder_wellFormed (hs : db₀.RowsWellFormed) (actor : ActorContext)
    (region : Option String) (dto : CreateOrderRequest) {P : OrderResponse → World → Prop}
    (hP : ∀ r v, P r v) :
    wp machine CoreInRange (grownSpec ledgerGrowth db₀) p (placeOrder cfg actor region dto)
      (OnOk P) w := by
  have hS := sharedSpec_isolated (ledgerGrowth.Run db₀) p
  unfold placeOrder
  apply wp_seq
  apply wp_outer_ok hS rfl
  intro _ _ branch _ _ _ hok hx _ _ _ _
  have hbranch : InRange (.getBranch dto.branchId) branch := inRange_exec hok hx
  split_ifs
  · trivial
  apply wp_seq
  apply wp_outer_ok hS rfl
  intro _ _ flag _ _ _ _ _ _ _ _ _
  split_ifs
  · trivial
  apply wp_seq
  apply wp_fromExcept
  intro resolvedRegion _
  split_ifs
  · trivial
  apply wp_seq
  apply wp_outer_ok hS rfl
  intro _ _ address _ _ _ _ _ _ _ _ _
  split_ifs
  · trivial
  apply wp_seq
  apply wp_outer_ok hS rfl
  intro _ _ products _ _ _ hok hx _ _ _ _
  have hprices : ∀ b ∈ products, 0 ≤ b.price := inRange_exec hok hx
  split_ifs
  · trivial
  · exact wp_submitOrder_wellFormed hs cfg hbranch.1 hprices hP
  · trivial

/-- The other calls insert no row that refers to an order. -/
theorem fits_of_mayWrite {c : Call} (hplace : ∀ actor region dto, c ≠ .placeOrder actor region dto)
    (hwebhook : ∀ rawBody signature region, c ≠ .webhook rawBody signature region)
    (hdeliver : ∀ publicId agentId region, c ≠ .agentUpdateStatus publicId agentId region .delivered)
    {x : Write} (hx : c.MayWrite x) (db : Db) : x.FitsLedger db := by
  have hplain : ∀ row : TransactionEntity, 0 < row.amount →
      row.transactionType = .payout ∨ row.transactionType = .refund → row.WellFormed db := by
    rintro row hamount (hkind | hkind) <;>
      exact TransactionEntity.wellFormed_of_kind hamount (by rw [hkind]; decide)
        (by rw [hkind]; decide) (by rw [hkind]; decide)
  cases c with
  | placeOrder actor region dto => exact absurd rfl (hplace actor region dto)
  | webhook rawBody signature region => exact absurd rfl (hwebhook rawBody signature region)
  | updateStatus actor dto region orderId => cases x <;> first | exact trivial | exact absurd hx id
  | claim publicId agentId region =>
    obtain ⟨now, rfl⟩ := hx
    trivial
  | adminAssign publicId agentId region =>
    obtain ⟨now, rfl⟩ := hx
    trivial
  | agentUpdateStatus publicId agentId region action =>
    cases action with
    | picked =>
      obtain ⟨publicId, stamp, now, rfl⟩ := hx
      trivial
    | delivered => exact absurd rfl (hdeliver publicId agentId region)
    | _ => exact absurd hx id
  | recordPayout input =>
    cases x with
    | insertTransaction row =>
      have hpos := input.amount_pos
      exact hplain row (by rw [hx.2]; omega) (.inl hx.1)
    | addBalance => trivial
    | _ => exact absurd hx id
  | refundPayment input =>
    cases x with
    | insertTransaction row =>
      have hpos := input.amount_pos
      exact hplain row (by rw [hx.2.1]; omega) (.inr hx.1)
    | markRefunded => trivial
    | _ => exact absurd hx id

theorem wp_call_wellFormed (hs : db₀.RowsWellFormed) (c : Call) (hlog : w.log p = []) :
    wp machine CoreInRange (grownSpec ledgerGrowth db₀) p (c.prog hmacSha256 cfg)
      (OnOk fun _ _ => True) w := by
  have hother : (∀ x, c.MayWrite x → ∀ db : Db, x.FitsLedger db) →
      wp machine CoreInRange (grownSpec ledgerGrowth db₀) p (c.prog hmacSha256 cfg)
        (OnOk fun _ _ => True) w := by
    intro hfits
    have hnone : ∀ x ∈ w.log p, c.MayWrite x := by
      intro x hx
      rw [hlog] at hx
      cases hx
    apply wp_mono _ (wp_harmless (within_mayWrite hmacSha256 cfg c) (grown_keptBy hfits p)
      (fun _ _ _ _ _ _ _ _ _ => trivial) hnone)
    intro r v _
    cases r <;> trivial
  cases c with
  | placeOrder actor region dto =>
    exact wp_seq (wp_placeOrder_wellFormed cfg hs actor region dto fun _ _ => trivial)
  | webhook rawBody signature region =>
    exact wp_seq (wp_webhook_wellFormed hs hmacSha256 cfg rawBody signature region
      fun _ => trivial)
  | agentUpdateStatus publicId agentId region action =>
    by_cases haction : action = .delivered
    · subst haction
      have hS := sharedSpec_isolated (ledgerGrowth.Run db₀) p
      apply wp_seq
      unfold agentUpdateStatus
      apply wp_seq
      apply wp_pool_fits fun x hx => absurd hx id
      intro found v
      cases found with
      | none => trivial
      | some order =>
      dsimp only
      split_ifs
      · trivial
      · exact wp_deliver_wellFormed hs cfg order agentId region fun _ _ => trivial
    · apply hother
      refine fun x hx => fits_of_mayWrite (by simp) (by simp) ?_ hx
      simpa using haction
  | _ => exact hother fun x hx => fits_of_mayWrite (by simp) (by simp) (by simp) hx

end Calls

section Runs
variable {db : Db}

/-- The row's order, found by the id. -/
theorem orderId_eq (hpos : ∀ i ∈ db.orders.map OrderEntity.id, 0 < i) {o : OrderTerms}
    (ho : db.HasOrder o) : ∃ row ∈ db.orders, row.terms = o ∧ orNull (some o.id) = some row.id := by
  obtain ⟨row, hrow, rfl⟩ := ho
  have hid := hpos row.id (List.mem_map.mpr ⟨row, hrow, rfl⟩)
  exact ⟨row, hrow, rfl, orNull_of_ne (Nat.ne_of_gt hid)⟩

/-- Rows of one order have the public id of this order in their key. -/
theorem terms_unique (hpos : ∀ i ∈ db.orders.map OrderEntity.id, 0 < i)
    (hnodup : (db.orders.map OrderEntity.id).Nodup) {o o' : OrderTerms} (ho : db.HasOrder o)
    (ho' : db.HasOrder o') (heq : orNull (some o.id) = orNull (some o'.id)) : o = o' := by
  obtain ⟨row, hrow, rfl, hid⟩ := orderId_eq hpos ho
  obtain ⟨row', hrow', rfl, hid'⟩ := orderId_eq hpos ho'
  rw [hid, hid', Option.some.injEq] at heq
  rw [List.inj_on_of_nodup_map hnodup hrow hrow' heq]

/-- At most one row of the kind for each order, because such a row has the key of its order. -/
theorem countP_kind_le_one (hpos : ∀ i ∈ db.orders.map OrderEntity.id, 0 < i)
    (hnodup : (db.orders.map OrderEntity.id).Nodup)
    (hkeys : (db.transactions.filterMap fun t => t.idempotencyKey).Nodup)
    {kind : TransactionType} {label : String}
    (hrows : ∀ t ∈ db.transactions, t.transactionType = kind → ∃ o, db.HasOrder o ∧
      t.orderId = orNull (some o.id) ∧ t.idempotencyKey = some (label ++ o.publicId)) (id : Nat) :
    db.transactions.countP (fun t => t.transactionType = kind && t.orderId = some id) ≤ 1 := by
  by_cases hany : ∃ t ∈ db.transactions, t.transactionType = kind ∧ t.orderId = some id
  · obtain ⟨t, ht, hkind, hid⟩ := hany
    obtain ⟨o, ho, horder, _⟩ := hrows t ht hkind
    apply countP_le_one_of_key hkeys (k := label ++ o.publicId)
    intro t' ht' hP
    simp only [Bool.and_eq_true, decide_eq_true_eq] at hP
    obtain ⟨o', ho', horder', hkey'⟩ := hrows t' ht' hP.1
    have hsame : orNull (some o.id) = orNull (some o'.id) := by
      rw [← horder, hid, ← hP.2, horder']
    rw [terms_unique hpos hnodup ho ho' hsame]
    exact hkey'
  · have hzero : db.transactions.countP
        (fun t => t.transactionType = kind && t.orderId = some id) = 0 := by
      rw [List.countP_eq_zero]
      intro t ht hP
      simp only [Bool.and_eq_true, decide_eq_true_eq] at hP
      exact hany ⟨t, ht, hP⟩
    omega

theorem Db.RowsWellFormed.ledger (h : db.RowsWellFormed)
    (hpos : ∀ i ∈ db.orders.map OrderEntity.id, 0 < i)
    (hnodup : (db.orders.map OrderEntity.id).Nodup)
    (hkeys : (db.transactions.filterMap fun t => t.idempotencyKey).Nodup) :
    db.LedgerWellFormed where
  amount t ht := (h.transactions t ht).amount
  charge t ht hkind _ := by
    obtain ⟨s, ⟨session, hsession, rfl, hstatus⟩, hs, hcharges⟩ := (h.transactions t ht).charge hkind
    obtain ⟨o, ho, hpays⟩ := hs.order
    obtain ⟨row, hrow, rfl, hid⟩ := orderId_eq hpos ho
    refine ⟨row, hrow, ?_, hpays.online, hcharges.amount.trans hpays.amount,
      hcharges.currency.trans hpays.currency, session, hsession, hpays.orderId, hstatus,
      hcharges.amount.symm⟩
    rw [hcharges.orderId, hpays.orderId, hid]
  cod t ht hkind := by
    obtain ⟨o, ho, hcollects⟩ := (h.transactions t ht).cod hkind
    obtain ⟨row, hrow, rfl, hid⟩ := orderId_eq hpos ho
    exact ⟨row, hrow, hcollects.orderId.trans hid, hcollects.cod, hcollects.amount⟩
  cod_once := countP_kind_le_one hpos hnodup hkeys fun t ht hkind => by
    obtain ⟨o, ho, hcollects⟩ := (h.transactions t ht).cod hkind
    exact ⟨o, ho, hcollects.orderId, hcollects.key⟩
  commission t ht hkind := by
    obtain ⟨o, ho, hshare⟩ := (h.transactions t ht).commission hkind
    obtain ⟨row, hrow, rfl, hid⟩ := orderId_eq hpos ho
    exact ⟨row, hrow, hshare.orderId.trans hid, hshare.amount⟩
  commission_once := countP_kind_le_one hpos hnodup hkeys fun t ht hkind => by
    obtain ⟨o, ho, hshare⟩ := (h.transactions t ht).commission hkind
    exact ⟨o, ho, hshare.orderId, hshare.key⟩
  orders := hnodup

/-- In every interleaving of any calls that starts with an empty ledger, with prices, fees and
rates in range, the ledger is well formed. -/
theorem ledger_wellFormed (hmacSha256 : String → String → String) (cfg : Config) (w : World)
    (hw : w.Fresh) (calls : Pid → Option Call) {t : Sys Pid Op Op.Res Err World Reply}
    (ht : machine.Reaches CoreInRange (running hmacSha256 cfg calls w) t) :
    t.world.store.db.LedgerWellFormed := by
  have hrest := hw.toAtRest
  have hsound : w.store.db.RowsWellFormed := by
    refine ⟨fun o ho => ?_, fun s hs => ?_, fun t ht => ?_⟩
    · obtain ⟨row, hrow, _⟩ := ho
      rw [hw.orders] at hrow
      cases hrow
    · obtain ⟨row, hrow, _⟩ := hs
      rw [hw.paymentSessions] at hrow
      cases hrow
    · rw [hw.transactions] at ht
      cases ht
  have hwp : ∀ p prog, (running hmacSha256 cfg calls w).procs p = some prog →
      wp machine CoreInRange (grownSpec ledgerGrowth w.store.db) p prog (OnOk fun _ _ => True) w := by
    intro p prog hprog
    obtain ⟨c, _, rfl⟩ := Option.map_eq_some_iff.mp hprog
    apply wp_call_wellFormed hmacSha256 cfg hsound
    rw [World.log, hrest.txn p]
    rfl
  have hrun := shared_reaches hrest Growth.Run.start hwp ht
  have hids := Serial.numbered_reaches orderSerial hw.numbered ht
  have hkeys := idempotencyKeys_nodup hrest (by
    change (w.store.db.transactions.filterMap _).Nodup
    rw [hw.transactions]
    exact List.nodup_nil) ht
  exact (hrun.sound hsound).ledger (fun i hi => (hids.committed i hi).1) hids.nodup hkeys

end Runs

section Samples

/-- An order that is paid online, and one that is paid to the agent who brings it. -/
def twoOrders : Pid → Option Call
  | 0 => some (.placeOrder ⟨5, .other "customer", none, none, none⟩ (some "eg")
      ⟨1, 1, .online, [⟨3, 1⟩]⟩)
  | 1 => some (.webhook (some (payBody "SUCCESS")) (paySignature "SUCCESS") "eg")
  | 2 => some placeCashOrder
  | 3 => some (.updateStatus restaurantOwner ⟨.accepted, none⟩ "eg" "order-2")
  | 4 => some (.updateStatus restaurantOwner ⟨.preparing, none⟩ "eg" "order-2")
  | 5 => some (.updateStatus restaurantOwner ⟨.ready, none⟩ "eg" "order-2")
  | 6 => some (.adminAssign "order-2" 7 "eg")
  | 7 => some (.agentUpdateStatus "order-2" 7 "eg" .picked)
  | 8 => some (.agentUpdateStatus "order-2" 7 "eg" .delivered)
  | _ => none

/-- Both orders are placed before the first is paid; the second is delivered last. -/
def twoOrdersSchedule : List (Label Pid Env Ext) :=
  let first := (.act 0 kosharyAnswers : Label Pid Env Ext)
  let second := (.act 2 { kosharyAnswers with uuid := "order-2" } : Label Pid Env Ext)
  (List.replicate 15 [first, second]).flatten ++ [first, first] ++
    ([(1, 24), (3, 9), (4, 8), (5, 8), (6, 11), (7, 5), (8, 25)] : List (Pid × Nat)).flatMap
      fun a => List.replicate a.2 (.act a.1 kosharyAnswers)

def paymentsShard : World := { store := Store.ofDb { paymentProviders := [kashier] } }

def answersInRange : Pid → Op → Env → World → Bool := fun _ _ e _ =>
  e.branch.commissionBps = some 1000 && decide (0 ≤ e.branch.deliveryFee) &&
    e.products.all fun b => decide (0 ≤ b.price)

theorem ledger_wellFormed_two_orders :
    ∃ t, machine.run answersInRange twoOrdersSchedule
        (running sampleHmac sampleConfig twoOrders paymentsShard) = some t ∧
      t.world.store.db.transactions.map (fun t => (t.transactionType, t.amount)) =
        [(.charge, 12500), (.codCollection, 12500), (.commission, 1000), (.adjustment, 1000)] ∧
      t.world.store.db.LedgerWellFormed := by
  have hrun : ((machine.run answersInRange twoOrdersSchedule
      (running sampleHmac sampleConfig twoOrders paymentsShard)).any fun t =>
        t.world.store.db.transactions.map (fun t => (t.transactionType, t.amount)) =
          [(.charge, 12500), (.codCollection, 12500), (.commission, 1000), (.adjustment, 1000)])
      = true := by
    decide +kernel
  obtain ⟨t, ht, hrows⟩ := (Option.any_eq_true _ _).mp hrun
  have hcheck : ∀ p o e w, answersInRange p o e w = true → CoreInRange p o e w := by
    intro p o e w h
    simp only [answersInRange, Bool.and_eq_true, decide_eq_true_eq, List.all_eq_true] at h
    obtain ⟨⟨hbps, hfee⟩, hprices⟩ := h
    cases o with
    | getBranch b =>
      refine ⟨fun bps hbps' => ?_, hfee⟩
      rw [hbps, Option.some.injEq] at hbps'
      omega
    | getBranchProducts b ids => exact ⟨trivial, hprices⟩
    | _ => exact ⟨trivial, trivial⟩
  exact ⟨t, ht, of_decide_eq_true hrows, ledger_wellFormed sampleHmac sampleConfig paymentsShard
    ⟨⟨rfl, fun _ => rfl, rfl⟩, rfl, rfl, rfl, by decide⟩ twoOrders
    (Machine.reaches_of_run hcheck _ ht)⟩

end Samples

end OrderService
