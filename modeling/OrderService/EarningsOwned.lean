import OrderService.Interleaving.Onward
import OrderService.OneWinner
import OrderService.SettledOnce
import OrderService.UniqueKeys

/-! An earning belongs to the agent who has the order. The delivery checks its agent outside of the
transaction that settles it; it may, since an order never changes its agent. -/
namespace OrderService
open ReadCommitted Interleaving

section Statement

/-- What an earning is computed from: an order that an agent has. -/
structure DeliveryTerms where
  orderId : Nat
  agentId : Nat
  deliveryFee : Int
  currency : String

def OrderEntity.deliveryTerms (o : OrderEntity) : Option DeliveryTerms :=
  o.deliveryAgentId.map fun agentId => ⟨o.id, agentId, o.deliveryFee, o.currency⟩

def Db.deliveryTerms (db : Db) (publicId : String) : Option DeliveryTerms :=
  (db.order publicId).bind OrderEntity.deliveryTerms

/-- The row pays the share of the delivery fee to the agent who has the order. -/
structure AgentEarningEntity.EarnedOn (share : Int) (e : AgentEarningEntity) (d : DeliveryTerms) :
    Prop where
  order : e.orderId = d.orderId
  agent : e.agentId = d.agentId
  currency : e.currency = d.currency
  amount : e.amount = bpsOf d.deliveryFee share
  positive : 0 < e.amount

/-- Each order has at most one earning, and it is its agent's share of its delivery fee. -/
structure EarningsOwned (cfg : Config) (db : Db) : Prop where
  orderIds : (db.orders.map OrderEntity.id).Nodup
  atMostOne : (db.agentEarnings.map fun e => e.orderId).Nodup
  owned : ∀ e ∈ db.agentEarnings, ∃ o ∈ db.orders, o.id = e.orderId ∧
    o.deliveryAgentId = some e.agentId ∧ e.currency = o.currency ∧
    e.amount = bpsOf o.deliveryFee cfg.agentEarningShareBps ∧ 0 < e.amount

end Statement

section Index

def Write.earningOrderIds : Write → List Nat
  | .insertEarning row => [row.orderId]
  | _ => []

def earningIndex : UniqueIndex engine Nat where
  values db := db.agentEarnings.map fun e => e.orderId
  entries := Write.earningOrderIds
  values_apply x db := by
    cases x with
    | insertEarning row => exact List.map_append
    | _ => exact (List.append_nil _).symm
  key := .earning
  locked x v hv := by
    cases x with
    | insertEarning row =>
      have hid : v = row.orderId := List.mem_singleton.mp hv
      rw [hid]
      rfl
    | _ => cases hv

theorem insertEarning_of_mayWrite {q : Sql} {row : AgentEarningEntity}
    (h : q.MayWrite (.insertEarning row)) : ∃ data, q = .insertEarning data := by
  cases q with
  | insertEarning data => exact ⟨data, rfl⟩
  | createOrder data now =>
    obtain ⟨_, _, _, hx⟩ := h
    cases hx
  | insertOutboxEvent input =>
    obtain ⟨_, _, hx⟩ := h
    cases hx
  | bulkInsertItems _ _ | createPaymentSession _ _ | insertWebhookEvent _ _
  | createTransaction _ _ =>
    obtain ⟨_, hx⟩ := h
    cases hx
  | _ => cases h

/-- `ON CONFLICT (order_id) DO NOTHING`. -/
theorem earningIndex_guards (seqs : Seqs) (clock : Time) (q : Sql) :
    earningIndex.Guards (q.eval seqs clock) := by
  intro db
  by_cases hq : ∃ data, q = .insertEarning data
  · obtain ⟨data, rfl⟩ := hq
    by_cases hany : (db.agentEarnings.any fun e => e.orderId = data.orderId) = true
    · simp [Sql.eval, hany, reading]
    · have hfree : data.orderId ∉ earningIndex.values db := by
        intro hmem
        obtain ⟨e, he, hid⟩ := List.mem_map.mp hmem
        exact hany (List.any_eq_true.mpr ⟨e, he, decide_eq_true hid⟩)
      simpa [Sql.eval, hany, writing, earningIndex, Write.earningOrderIds] using hfree
  · have hnone : (q.eval seqs clock db).writes.flatMap earningIndex.entries = [] := by
      rw [List.flatMap_eq_nil_iff]
      intro x hx
      cases x with
      | insertEarning row =>
        exact absurd (insertEarning_of_mayWrite (Sql.mayWrite_of_mem hx)) hq
      | _ => rfl
    rw [hnone]
    exact ⟨List.nodup_nil, fun v hv => by cases hv⟩

end Index

section Rows
variable {db db' : Db} {publicId : String} {o : OrderEntity}

/-- An order that an agent has keeps its agent, its fee and its currency. -/
def KeepsAgents (db db' : Db) : Prop :=
  ∀ publicId d, db.deliveryTerms publicId = some d → db'.deliveryTerms publicId = some d

theorem keepsAgents_refl (db : Db) : KeepsAgents db db := fun _ _ h => h

theorem KeepsAgents.trans {db'' : Db} (h : KeepsAgents db db') (h' : KeepsAgents db' db'') :
    KeepsAgents db db'' := fun publicId d hd => h' publicId d (h publicId d hd)

theorem deliveryTerms_eq (horder : db.order publicId = some o) :
    db.deliveryTerms publicId = o.deliveryTerms := by
  rw [Db.deliveryTerms, horder, Option.bind_some]

theorem withStatus_deliveryTerms (status : OrderStatus) (stamp : Option Stamp) (now : Time) :
    (o.withStatus status stamp now).deliveryTerms = o.deliveryTerms := by
  simp only [OrderEntity.deliveryTerms, withStatus_deliveryAgentId, withStatus_id,
    withStatus_deliveryFee, withStatus_currency]

theorem deliveryTerms_apply {x : Write} (hx : x.Unassigning) :
    (engine.apply x db).deliveryTerms publicId = db.deliveryTerms publicId := by
  cases x with
  | insertOrder row => exact absurd hx id
  | assignOrder other agentId now => exact absurd hx id
  | setOrderStatus other status stamp now =>
    by_cases hother : other = publicId
    · subst hother
      rw [Db.deliveryTerms, order_setOrderStatus, Db.deliveryTerms, Option.bind_map]
      congr 1
      funext o
      exact withStatus_deliveryTerms status stamp now
    · exact congrArg (fun row => Option.bind row OrderEntity.deliveryTerms)
        (order_setOrderStatus_other hother status stamp now db)
  | _ => rfl

theorem deliveryTerms_applyAll {log : List Write} (hlog : ∀ x ∈ log, x.Unassigning) :
    (engine.applyAll log db).deliveryTerms publicId = db.deliveryTerms publicId := by
  induction log generalizing db with
  | nil => rfl
  | cons x log ih =>
    rw [applyAll_cons, ih fun y hy => hlog y (List.mem_cons_of_mem x hy)]
    exact deliveryTerms_apply (hlog x List.mem_cons_self)

/-- The guarded update only takes orders that nobody has. -/
theorem keepsAgents_assignOrder (agentId : Nat) (now : Time) :
    KeepsAgents db (engine.apply (.assignOrder publicId agentId now) db) := by
  intro other d hd
  by_cases hother : publicId = other
  · subst hother
    obtain ⟨o, ho, hterms⟩ := Option.bind_eq_some_iff.mp hd
    have htaken : o.claimable = false := by
      obtain ⟨a, ha, _⟩ := Option.map_eq_some_iff.mp hterms
      simp [OrderEntity.claimable, ha]
    rw [Db.deliveryTerms, order_assignOrder, ho, Option.map_some, htaken]
    exact hterms
  · rw [Db.deliveryTerms, order_assignOrder_other hother agentId now db]
    exact hd

theorem orderIds_applyAll {log : List Write} (hlog : ∀ x ∈ log, x.KeepsOrders) :
    (engine.applyAll log db).orders.map OrderEntity.id = db.orders.map OrderEntity.id :=
  map_orders_applyAll withStatus_id (fun _ _ _ => rfl) hlog db

theorem mem_agentEarnings_applyAll {log : List Write} {e : AgentEarningEntity}
    (h : e ∈ (engine.applyAll log db).agentEarnings) :
    e ∈ db.agentEarnings ∨ .insertEarning e ∈ log := by
  induction log generalizing db with
  | nil => exact .inl h
  | cons x log ih =>
    rw [applyAll_cons] at h
    rcases ih h with h | h
    · cases x with
      | insertEarning row =>
        rcases List.mem_append.mp h with h | h
        · exact .inl h
        · rw [List.mem_singleton.mp h]
          exact .inr List.mem_cons_self
      | _ => exact .inl h
    · exact .inr (List.mem_cons_of_mem x h)

end Rows

section Invariant

/-- Since the tables before the run no order has lost its agent, and every earning is that of the
agent of its order. -/
structure EarningsInv (share : Int) (before db : Db) (history : List (Pid × List Write)) :
    Prop where
  onward : Onward engine KeepsAgents before db history
  ids : db.orders.map OrderEntity.id = before.orders.map OrderEntity.id
  earned : ∀ e ∈ db.agentEarnings, ∃ publicId d, db.deliveryTerms publicId = some d ∧
    e.EarnedOn share d

variable {share : Int} {before db : Db} {history : List (Pid × List Write)} {p : Pid}

/-- A commit that assigns nothing, and whose earnings are those of agents who have the orders. -/
theorem EarningsInv.commit (h : EarningsInv share before db history) {log : List Write}
    (hlog : ∀ x ∈ log, x.Unassigning)
    (hearned : ∀ e, .insertEarning e ∈ log → ∃ publicId d, db.deliveryTerms publicId = some d ∧
      e.EarnedOn share d) :
    EarningsInv share before (engine.applyAll log db) (history ++ [(p, log)]) := by
  have hsame : ∀ publicId, (engine.applyAll log db).deliveryTerms publicId
      = db.deliveryTerms publicId := fun publicId => deliveryTerms_applyAll hlog
  have hkeeps : KeepsAgents db (engine.applyAll log db) :=
    fun publicId d hd => (hsame publicId).trans hd
  have hnew : ∀ x ∈ log, x.KeepsOrders := fun x hx => (hlog x hx).keepsOrders
  refine ⟨h.onward.commit keepsAgents_refl KeepsAgents.trans hkeeps p,
    (orderIds_applyAll hnew).trans h.ids, fun e he => ?_⟩
  have hbacked : ∃ publicId d, db.deliveryTerms publicId = some d ∧ e.EarnedOn share d := by
    rcases mem_agentEarnings_applyAll he with he | he
    · exact h.earned e he
    · exact hearned e he
  obtain ⟨publicId, d, hd, hed⟩ := hbacked
  exact ⟨publicId, d, hkeeps publicId d hd, hed⟩

theorem earnings_keptByAssign {publicId : String} {agentId : Nat} :
    KeptByAssign (EarningsInv share before) p publicId agentId := by
  intro db history o now h _
  have hkeeps : KeepsAgents db (engine.applyAll [.assignOrder publicId agentId now] db) :=
    keepsAgents_assignOrder agentId now
  have hids : (engine.applyAll [.assignOrder publicId agentId now] db).orders.map OrderEntity.id
      = db.orders.map OrderEntity.id := by
    apply orderIds_applyAll
    intro x hx
    rw [List.mem_singleton.mp hx]
    trivial
  refine ⟨h.onward.commit keepsAgents_refl KeepsAgents.trans hkeeps p, hids.trans h.ids,
    fun e he => ?_⟩
  obtain ⟨other, d, hd, hed⟩ := h.earned e he
  exact ⟨other, d, hkeeps other d hd, hed⟩

/-- The writes that neither assign an order nor pay an agent. -/
def Write.Unpaying (x : Write) : Prop := x.Unassigning ∧ ∀ e, x ≠ .insertEarning e

theorem earnings_keptBy : KeptBy (EarningsInv share before) p Write.Unpaying := by
  intro db history log h hlog
  apply h.commit fun x hx => (hlog x hx).1
  exact fun e he => absurd rfl ((hlog _ he).2 e)

end Invariant

section Deliveries
variable {share bps : Int} {before : Db} {p : Pid} {w w' : World} {publicId : String}
  {d : DeliveryTerms} {order : OrderEntity} {agentId : Nat} {seen : Db → Prop} {log : List Write}

/-- At some moment of the run the committed order was carried on these terms. -/
def Carried (before : Db) (publicId : String) (d : DeliveryTerms) (w : World) : Prop :=
  Past engine before (fun db => db.deliveryTerms publicId = some d) w.store.history

theorem carried_kept {I : Db → List (Pid × List Write) → Prop} :
    Kept (sharedSpec I) p (Carried before publicId d) where
  rely w w' hr h := by
    obtain ⟨bs, hhistory, _⟩ := hr.1.commits
    rw [Carried, hhistory]
    exact h.later
  step o e w r w' ho _ hx h := by
    obtain ⟨_, hhistory, _⟩ := exec_appends ho hx
    rw [Carried, hhistory]
    exact h

theorem Settlement.unassigning (s : Settlement seen log order agentId share bps) :
    ∀ x ∈ s.writes, x.Unassigning :=
  s.forall_writes (fun _ => trivial) (fun _ _ => trivial) (fun _ _ _ _ => trivial)
    (fun _ => trivial) trivial

/-- The one earning of a settlement is the share of the agent who delivers. -/
theorem Settlement.earnedOn (s : Settlement seen log order agentId share bps)
    (hagent : order.deliveryAgentId = some agentId) {e : AgentEarningEntity}
    (he : .insertEarning e ∈ s.writes) :
    ∃ d, order.deliveryTerms = some d ∧ e.EarnedOn share d := by
  have hpart : .insertEarning e ∈ s.earning := by
    rw [s.writes_eq] at he
    simp only [List.mem_append, List.mem_singleton] at he
    rcases he with he | he | he | he
    · have htable := s.ledger_table _ he
      cases htable
    · have htable := creditWrites_table _ he
      cases htable
    · exact he
    · cases he
  have hterms : order.deliveryTerms
      = some ⟨order.id, agentId, order.deliveryFee, order.currency⟩ := by
    rw [OrderEntity.deliveryTerms, hagent]
    rfl
  have hearned := s.earned
  generalize s.earning = part at hpart hearned
  cases hearned with
  | notDue _ => cases hpart
  | found _ _ _ => cases hpart
  | earned id clock hpos =>
    have hrow := Write.insertEarning.inj (List.mem_singleton.mp hpart)
    exact ⟨_, hterms, by rw [hrow]; exact ⟨rfl, rfl, rfl, rfl, hpos⟩⟩

/-- A delivery pays the agent that it read from the order before its transaction. -/
theorem wp_deliver_owned (cfg : Config) (region : String)
    (h : Carried before order.publicId d w) (hagent : d.agentId = agentId) :
    wp machine anyOp (sharedSpec (EarningsInv cfg.agentEarningShareBps before)) p
      (deliver cfg order agentId region) (OnOk fun _ _ => True) w := by
  have hS := sharedSpec_isolated (EarningsInv cfg.agentEarningShareBps before) p
  have hkept : Kept (sharedSpec (EarningsInv cfg.agentEarningShareBps before)) p
      (Carried before order.publicId d) := carried_kept
  unfold deliver
  split_ifs
  · trivial
  apply wp_seq
  apply wp_start_ok hS
  intro w₁ hr₁ _ _
  have hstarted : Carried before order.publicId d
      { w₁ with store := w₁.store.start p } := hkept.rely w w₁ hr₁ h
  refine wp_catch_ok ?_ fun err w' => wp_abort hS
  apply wp_seq
  apply wp_updateFirst hS hkept ⟨hstarted, World.start_txn w₁ p⟩
  intro e v o now w₂ _ _ _ _ ho hopen
  apply wp_settleAndCommit hS (holding_kept hS hkept) hopen (fun _ => True)
    ⟨trivial, fun _ _ _ _ => trivial⟩ cfg calls_afterDelivery (fun _ => True)
    (fun _ _ _ _ => trivial) (fun _ _ _ _ => trivial)
  intro w₃ bps s _ hi₃ hopen₃
  -- The row is locked, and it is still that of the agent.
  have hterms : o.deliveryTerms = some d := by
    rw [← deliveryTerms_eq hopen₃.holds.row]
    exact hi₃.2.onward.of_past (fun hle => hle order.publicId d) hopen₃.holds.holds
  have howner : o.deliveryAgentId = some agentId := by
    obtain ⟨a, ha, hd⟩ := Option.map_eq_some_iff.mp hterms
    rw [ha, ← hagent, ← hd]
  have hcommitted : EarningsInv cfg.agentEarningShareBps before
      (engine.applyAll (.setOrderStatus order.publicId .delivered (some .deliveredAt) now :: s.writes)
        w₃.store.db)
      (w₃.store.history ++ [(p, .setOrderStatus order.publicId .delivered (some .deliveredAt) now
        :: s.writes)]) := by
    apply hi₃.2.commit
    · intro x hx
      rcases List.mem_cons.mp hx with hx | hx
      · rw [hx]
        trivial
      · exact s.unassigning x hx
    · intro row hrow
      have hrow : .insertEarning row ∈ s.writes := by simpa using hrow
      obtain ⟨d', hd', hearned⟩ := s.earnedOn
        ((withStatus_deliveryAgentId o _ _ now).trans howner) hrow
      rw [withStatus_deliveryTerms] at hd'
      exact ⟨order.publicId, d', (deliveryTerms_eq hopen₃.holds.row).trans hd', hearned⟩
  refine ⟨⟨commit_locked hi₃.1 (World.commit_eq hopen₃.txn), ?_⟩, trivial⟩
  simp only [World.committed, World.log_of_active hopen₃.txn]
  exact hcommitted

theorem calls_pickup_unpaying {R : (o : Op) → o.Res → Prop} :
    (pickup order).Calls (Op.Harmless Write.Unpaying) R fun _ => True :=
  calls_pickup fun _ _ _ _ => ⟨trivial, fun _ h => by cases h⟩

theorem wp_agentUpdateStatus_owned (cfg : Config) (publicId region : String) (agentId : Nat)
    (action : DeliveryAction) (hlog : w.log p = []) :
    wp machine anyOp (sharedSpec (EarningsInv cfg.agentEarningShareBps before)) p
      (agentUpdateStatus cfg publicId agentId region action) (OnOk fun _ _ => True) w := by
  have hS := sharedSpec_isolated (EarningsInv cfg.agentEarningShareBps before) p
  unfold agentUpdateStatus
  apply wp_seq
  apply wp_pool_read hS sharedSpec_ofStore fun _ _ _ => rfl
  intro v e found hr hi _ hreply hstore _
  cases found with
  | none => trivial
  | some order =>
    dsimp only
    split_ifs with hagent
    · trivial
    have horder : v.store.db.order publicId = some order := Except.ok.inj hreply
    have hpid : order.publicId = publicId := by simpa using List.find?_some horder
    have howner : order.deliveryAgentId = some agentId := by simpa using hagent
    have hterms : order.deliveryTerms
        = some ⟨order.id, agentId, order.deliveryFee, order.currency⟩ := by
      rw [OrderEntity.deliveryTerms, howner]
      rfl
    cases action with
    | picked =>
      have hempty : ∀ x ∈ (v.pooled p (.findOrderByPublicId publicId)).log p, x.Unpaying := by
        intro x hx
        rw [World.log, hstore, hr.1.txn, ← World.log, hlog] at hx
        cases hx
      exact wp_mono (fun r _ _ => by cases r <;> trivial) (wp_harmless (R := fun _ _ => True)
        calls_pickup_unpaying earnings_keptBy (fun _ _ _ _ _ _ _ _ _ => trivial) hempty)
    | delivered =>
      refine wp_deliver_owned cfg region (d := ⟨order.id, agentId, order.deliveryFee,
        order.currency⟩) ?_ rfl
      rw [Carried, hstore, hpid]
      exact hi.2.onward.past ((deliveryTerms_eq horder).trans hterms)
    | _ => trivial

end Deliveries

section Runs
variable (hmacSha256 : String → String → String) (cfg : Config) {before : Db} {p : Pid} {c : Call}

theorem wp_handlesOrder_owned (hkind : c.handlesOrder = true) {w : World} (hlog : w.log p = []) :
    wp machine anyOp (sharedSpec (EarningsInv cfg.agentEarningShareBps before)) p
      (c.prog hmacSha256 cfg) (OnOk fun _ _ => True) w := by
  have hempty : ∀ x ∈ w.log p, x.Unpaying := by
    intro x hx
    rw [hlog] at hx
    cases hx
  cases c with
  | claim publicId agentId region =>
    apply wp_seq
    apply wp_mono _ (wp_claim earnings_keptByAssign cfg region)
    intro r w' _
    cases r <;> trivial
  | adminAssign publicId agentId region =>
    apply wp_seq
    apply wp_mono _ (wp_adminAssign earnings_keptByAssign cfg region)
    intro r w' _
    cases r <;> trivial
  | updateStatus actor dto region orderId =>
    have hcalls : (updateStatus actor dto region orderId).Calls (Op.Harmless Write.Unpaying)
        (fun _ _ => True) fun _ => True :=
      calls_updateStatus (fun _ _ _ _ => ⟨trivial, fun _ h => by cases h⟩)
        (fun _ => ⟨trivial, fun _ h => by cases h⟩) actor dto region orderId
    apply wp_seq
    apply wp_mono _ (wp_harmless hcalls earnings_keptBy (fun _ _ _ _ _ _ _ _ _ => trivial) hempty)
    intro r w' _
    cases r <;> trivial
  | agentUpdateStatus publicId agentId region action =>
    apply wp_seq
    apply wp_mono _ (wp_agentUpdateStatus_owned cfg publicId region agentId action hlog)
    intro r w' _
    cases r <;> trivial
  | _ => cases hkind

/-- In every interleaving of claims, admin assignments, status updates and reports of agents, each
order has at most one earning, and it is its own agent's. -/
theorem earnings_owned (w : World) (hw : w.AtRest) (hunique : w.store.db.publicIds.Nodup)
    (hearnings : EarningsOwned cfg w.store.db) (calls : Pid → Option Call)
    (hcalls : ∀ p c, calls p = some c → c.handlesOrder = true)
    {t : Sys Pid Op Op.Res Err World Reply}
    (h : machine.Reaches anyOp (running hmacSha256 cfg calls w) t) :
    EarningsOwned cfg t.world.store.db := by
  have hwp : ∀ p prog, (running hmacSha256 cfg calls w).procs p = some prog →
      wp machine anyOp (sharedSpec (EarningsInv cfg.agentEarningShareBps w.store.db)) p prog
        (OnOk fun _ _ => True) w := by
    intro p prog hprog
    obtain ⟨c, hc, rfl⟩ := Option.map_eq_some_iff.mp hprog
    apply wp_handlesOrder_owned hmacSha256 cfg (hcalls p c hc)
    rw [World.log, hw.txn p]
    rfl
  have hinit : EarningsInv cfg.agentEarningShareBps w.store.db w.store.db [] := by
    refine ⟨.start (keepsAgents_refl _), rfl, fun e he => ?_⟩
    obtain ⟨o, ho, hid, hagent, hcurrency, hamount, hpos⟩ := hearnings.owned e he
    -- The public ids are distinct, so the order is the row that its own id finds.
    have horder : w.store.db.order o.publicId = some o := order_of_mem hunique ho
    refine ⟨o.publicId, ⟨o.id, e.agentId, o.deliveryFee, o.currency⟩, ?_, hid.symm, rfl, hcurrency,
      hamount, hpos⟩
    rw [deliveryTerms_eq horder, OrderEntity.deliveryTerms, hagent]
    rfl
  have hinv := shared_reaches hw hinit hwp h
  have honce : (earningIndex.values t.world.store.db).Nodup :=
    unique_reaches (s := running hmacSha256 cfg calls w) earningIndex_guards hw hearnings.atMostOne
      h
  refine ⟨?_, honce, fun e he => ?_⟩
  · rw [hinv.ids]
    exact hearnings.orderIds
  · obtain ⟨publicId, d, hd, hed⟩ := hinv.earned e he
    obtain ⟨o, ho, hterms⟩ := Option.bind_eq_some_iff.mp hd
    obtain ⟨a, hagent, hterms⟩ := Option.map_eq_some_iff.mp hterms
    subst hterms
    refine ⟨o, List.mem_of_find?_eq_some ho, hed.order.symm, ?_, hed.currency, hed.amount,
      hed.positive⟩
    rw [hagent, hed.agent]

end Runs

/-- Both deliveries settle the order; the agent is paid 1600 of its fee of 2000 once. -/
theorem earnings_owned_two_deliveries :
    ∃ t, machine.run (fun _ _ _ _ => true) bothReadFirst
        (running (fun _ _ => "") sampleConfig twoDeliveries pickedOrder) = some t ∧
      t.world.store.db.agentEarnings.map (fun e => (e.orderId, e.agentId, e.amount))
        = [(1, 7, 1600)] ∧
      EarningsOwned sampleConfig t.world.store.db := by
  have hcalls : ∀ p c, twoDeliveries p = some c → c.handlesOrder = true := by
    intro p c hc
    unfold twoDeliveries at hc
    split at hc <;> cases hc <;> rfl
  have hrun : ((machine.run (fun _ _ _ _ => true) bothReadFirst
      (running (fun _ _ => "") sampleConfig twoDeliveries pickedOrder)).any fun t =>
      t.world.store.db.agentEarnings.map (fun e => (e.orderId, e.agentId, e.amount))
        = [(1, 7, 1600)]) = true := by
    decide
  obtain ⟨t, ht, hpaid⟩ := (Option.any_eq_true _ _).mp hrun
  have hstart : EarningsOwned sampleConfig pickedOrder.store.db :=
    ⟨by decide, by decide, fun e he => by cases he⟩
  exact ⟨t, ht, of_decide_eq_true hpaid, earnings_owned _ sampleConfig pickedOrder
    ⟨rfl, fun _ => rfl, rfl⟩ (by decide) hstart twoDeliveries hcalls
    (Machine.reaches_of_run (fun _ _ _ _ _ => trivial) _ ht)⟩

end OrderService
