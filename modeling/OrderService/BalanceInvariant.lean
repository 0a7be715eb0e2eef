import OrderService.Calls
import OrderService.DeliverySpec
import OrderService.PayoutSpec
import OrderService.SettlementEffects

/-! No interleaving of payouts and deliveries makes a restaurant's balance negative. -/
namespace OrderService
open ReadCommitted Interleaving

def balanceKey (b : RestaurantBalanceEntity) : Nat × String := (b.restaurantId, b.currency)

/-- The primary key of `restaurant_balances` holds, and no balance or subtotal is negative. -/
structure Solvent (db : Db) : Prop where
  unique : (db.restaurantBalances.map balanceKey).Nodup
  nonneg : ∀ b ∈ db.restaurantBalances, 0 ≤ b.balance
  subtotals : ∀ o ∈ db.orders, 0 ≤ o.subtotal

/-- The writes that cannot make a balance or a subtotal negative. -/
def Growing : Write → Prop
  | .addBalance _ _ _ delta => 0 ≤ delta
  | .insertOrder row => 0 ≤ row.subtotal
  | _ => True

section Rows

theorem balanceKey_bump (restaurantId : Nat) (currency : String) (delta : Int)
    (b : RestaurantBalanceEntity) :
    balanceKey (bump restaurantId currency delta b) = balanceKey b := by
  unfold bump
  split <;> rfl

theorem balanceOf_iff_key {restaurantId : Nat} {currency : String} {b : RestaurantBalanceEntity} :
    balanceOf restaurantId currency b = true ↔ balanceKey b = (restaurantId, currency) := by
  rw [balanceOf_iff, balanceKey, Prod.mk.injEq]

/-- An upsert keeps the primary key, and every row it leaves is an old one, perhaps with the
delta, or a new one with the delta alone. -/
theorem mem_addBalance {restaurantId : Nat} {region currency : String} {delta : Int} {db : Db}
    {b : RestaurantBalanceEntity}
    (h : b ∈ (engine.apply (.addBalance restaurantId region currency delta) db).restaurantBalances) :
    (∃ a ∈ db.restaurantBalances, b = bump restaurantId currency delta a) ∨
      b = ⟨restaurantId, region, currency, delta⟩ := by
  simp only [engine, Write.apply] at h
  split at h
  · obtain ⟨a, ha, rfl⟩ := List.mem_map.mp h
    exact .inl ⟨a, ha, rfl⟩
  · rcases List.mem_append.mp h with hold | hnew
    · refine .inl ⟨b, hold, ?_⟩
      next hany =>
        have hb : ¬balanceOf restaurantId currency b = true :=
          fun hb => hany (List.any_eq_true.mpr ⟨b, hold, hb⟩)
        rw [bump, if_neg hb]
    · exact .inr (List.mem_singleton.mp hnew)

theorem unique_addBalance {restaurantId : Nat} {region currency : String} {delta : Int} {db : Db}
    (h : (db.restaurantBalances.map balanceKey).Nodup) :
    ((engine.apply (.addBalance restaurantId region currency delta) db).restaurantBalances.map
      balanceKey).Nodup := by
  simp only [engine, Write.apply]
  split
  · have hkeys : (db.restaurantBalances.map (bump restaurantId currency delta)).map balanceKey
        = db.restaurantBalances.map balanceKey := by
      rw [List.map_map]
      exact List.map_congr_left fun b _ => balanceKey_bump restaurantId currency delta b
    exact hkeys ▸ h
  · next hany =>
    rw [List.map_append]
    refine List.Nodup.append h (List.nodup_singleton _) ?_
    intro k hk hnew
    obtain ⟨b, hb, rfl⟩ := List.mem_map.mp hk
    rw [List.map_singleton, List.mem_singleton] at hnew
    exact hany (List.any_eq_true.mpr ⟨b, hb, balanceOf_iff_key.mpr hnew⟩)

/-- Under the primary key, a row is the one that its key finds. -/
theorem balance_of_mem {db : Db} (h : (db.restaurantBalances.map balanceKey).Nodup)
    {b : RestaurantBalanceEntity} (hb : b ∈ db.restaurantBalances) :
    db.balance b.restaurantId b.currency = some b := by
  cases hfind : db.balance b.restaurantId b.currency with
  | none =>
    have hself : balanceOf b.restaurantId b.currency b = true := balanceOf_iff.mpr ⟨rfl, rfl⟩
    exact absurd hself (List.find?_eq_none.mp hfind b hb)
  | some a =>
    have ha : balanceKey a = balanceKey b := balanceOf_iff_key.mp (List.find?_some hfind)
    have hmem : a ∈ db.restaurantBalances := List.mem_of_find?_eq_some hfind
    rw [List.inj_on_of_nodup_map h hmem hb ha]

end Rows

section Writes
variable {db : Db}

theorem solvent_apply {x : Write} (hx : Growing x) (h : Solvent db) :
    Solvent (engine.apply x db) := by
  cases x with
  | insertOrder row =>
    refine ⟨h.unique, h.nonneg, fun o ho => ?_⟩
    rcases List.mem_append.mp ho with ho | ho
    · exact h.subtotals o ho
    · rw [List.mem_singleton.mp ho]
      exact hx
  | setOrderStatus publicId status stamp now =>
    refine ⟨h.unique, h.nonneg, fun o ho => ?_⟩
    obtain ⟨a, ha, rfl⟩ := List.mem_map.mp ho
    split
    · rw [withStatus_subtotal]
      exact h.subtotals a ha
    · exact h.subtotals a ha
  | assignOrder publicId agentId now =>
    refine ⟨h.unique, h.nonneg, fun o ho => ?_⟩
    obtain ⟨a, ha, rfl⟩ := List.mem_map.mp ho
    split
    · exact h.subtotals a ha
    · exact h.subtotals a ha
  | addBalance restaurantId region currency delta =>
    refine ⟨unique_addBalance h.unique, fun b hb => ?_, h.subtotals⟩
    have hdelta : 0 ≤ delta := hx
    rcases mem_addBalance hb with ⟨a, ha, rfl⟩ | rfl
    · have hnonneg := h.nonneg a ha
      unfold bump
      split
      · change 0 ≤ a.balance + delta
        omega
      · exact hnonneg
    · exact hdelta
  | _ => exact ⟨h.unique, h.nonneg, h.subtotals⟩

theorem solvent_applyAll {log : List Write} (hlog : ∀ x ∈ log, Growing x) (h : Solvent db) :
    Solvent (engine.applyAll log db) := by
  induction log generalizing db with
  | nil => exact h
  | cons x log ih =>
    rw [applyAll_cons]
    apply ih fun y hy => hlog y (List.mem_cons_of_mem x hy)
    exact solvent_apply (hlog x List.mem_cons_self) h

/-- A debit that the account covers leaves no balance negative. -/
theorem solvent_debit {input : PayoutInput} {row : TransactionEntity}
    (hcover : input.amount ≤ db.amount input.restaurantId input.currency) (h : Solvent db) :
    Solvent (engine.applyAll [payoutDebit input, .insertTransaction row] db) := by
  refine ⟨unique_addBalance h.unique, fun b hb => ?_, h.subtotals⟩
  by_cases hkey : balanceOf input.restaurantId input.currency b = true
  · obtain ⟨hr, hc⟩ := balanceOf_iff.mp hkey
    have hafter : (engine.apply (payoutDebit input) db).balance input.restaurantId input.currency
        = some b := by
      rw [← hr, ← hc]
      exact balance_of_mem (unique_addBalance h.unique) hb
    have hamount := amount_addBalance input.restaurantId input.restaurantId input.region
      input.currency input.currency (-input.amount) db
    have hb : (engine.apply (payoutDebit input) db).amount input.restaurantId input.currency
        = b.balance := by
      rw [Db.amount, hafter]
      rfl
    simp only [and_self, if_true] at hamount
    rw [payoutDebit] at hb
    omega
  · rcases mem_addBalance hb with ⟨a, ha, rfl⟩ | rfl
    · have hsame : bump input.restaurantId input.currency (-input.amount) a = a := by
        rw [balanceOf_bump] at hkey
        rw [bump, if_neg hkey]
      rw [hsame]
      exact h.nonneg a ha
    · exact absurd (balanceOf_iff.mpr ⟨rfl, rfl⟩) hkey

end Writes

section Deliveries

/-- A share of at most 100% is at most the amount. -/
theorem bpsOf_le {amount bps : Int} (hamount : 0 ≤ amount) (hbps : bps ≤ 10000) :
    bpsOf amount bps ≤ amount := by
  have hmul : amount * bps ≤ amount * 10000 := Int.mul_le_mul_of_nonneg_left hbps hamount
  unfold bpsOf
  omega

/-- Core answers a commission rate between 0 and 100%. -/
def CommissionInRange (_ : Pid) (o : Op) (e : Env) (_ : World) : Prop :=
  match o with
  | .getBranch _ => ∀ bps, e.branch.commissionBps = some bps → 0 ≤ bps ∧ bps ≤ 10000
  | _ => True

/-- What a delivery is told: rates in range, and orders without a negative subtotal. -/
def Plausible : (o : Op) → o.Res → Prop
  | .getBranch _, branch => 0 ≤ branch.commissionBps.getD 0 ∧ branch.commissionBps.getD 0 ≤ 10000
  | .sql _ (.updateOrderStatus ..), row => ∀ o, row = some o → 0 ≤ o.subtotal
  | _, _ => True

theorem growing_of_settlementWrite {order : OrderEntity} {agentId : Nat} {x : Write}
    (hsubtotal : 0 ≤ order.subtotal)
    (h : SettlementWrite order agentId (fun bps => 0 ≤ bps ∧ bps ≤ 10000) x) : Growing x := by
  cases h with
  | credit bps hbps =>
    have hle := bpsOf_le hsubtotal hbps.2
    change 0 ≤ order.subtotal - bpsOf order.subtotal bps
    omega
  | _ => trivial

theorem calls_agentDelivered (cfg : Config) (publicId : String) (agentId : Nat)
    (region : String) : (agentUpdateStatus cfg publicId agentId region .delivered).Calls
      (Op.Harmless Growing) Plausible fun _ => True := by
  apply calls_agentUpdateStatus (fun o => 0 ≤ o.subtotal) fun bps => 0 ≤ bps ∧ bps ≤ 10000
  · exact fun _ _ _ _ => trivial
  · exact fun _ _ _ _ _ _ hrow => hrow
  · exact fun _ _ hsubtotal hx => growing_of_settlementWrite hsubtotal hx
  · exact fun _ _ hbranch => hbranch
  · decide

end Deliveries

section Runs

/-- Committed tables stay solvent. -/
def solventInv (db : Db) (_ : List (Pid × List Write)) : Prop := Solvent db

theorem solvent_keptBy (p : Pid) : KeptBy solventInv p Growing :=
  fun _ _ _ h hlog => solvent_applyAll hlog h

theorem solvent_keptByPayout (p : Pid) (input : PayoutInput) :
    KeptByPayout solventInv p input := by
  rintro db history log h (rfl | ⟨row, rfl, _, hcover, _⟩)
  · exact h
  · exact solvent_debit hcover h

theorem subtotal_of_reply {seqs : Seqs} {clock : Time} {db : Db} {publicId : String}
    {status : OrderStatus} {stamp : Option Stamp} {now : Time} {row : Option OrderEntity}
    (h : Solvent db) (hreply : (Sql.eval seqs clock (.updateOrderStatus publicId status stamp now)
      db).reply = .ok row) : ∀ o, row = some o → 0 ≤ o.subtotal := by
  rintro o rfl
  simp only [Sql.eval] at hreply
  cases hfound : db.order publicId with
  | none =>
    rw [hfound] at hreply
    simp [reading] at hreply
  | some a =>
    rw [hfound] at hreply
    simp only [writing, Except.ok.injEq, Option.some.injEq] at hreply
    rw [← hreply, withStatus_subtotal]
    exact h.subtotals a (List.mem_of_find?_eq_some hfound)

/-- What the environment and the tables answer to a delivery is plausible. -/
theorem plausible_exec {p : Pid} {o : Op} {e : Env} {w w' : World} {a : o.Res}
    (hi : (sharedSpec solventInv).inv w) (hlog : ∀ x ∈ w.log p, Growing x)
    (hok : CommissionInRange p o e w) (hx : exec p o e w = some (.ok a, w')) : Plausible o a := by
  cases o with
  | getBranch b =>
    simp only [exec] at hx
    split_ifs at hx
    · simp at hx
    · simp only [Option.some.injEq, Prod.mk.injEq, Except.ok.injEq] at hx
      rw [← hx.1]
      change 0 ≤ e.branch.commissionBps.getD 0 ∧ e.branch.commissionBps.getD 0 ≤ 10000
      cases hbps : e.branch.commissionBps with
      | none => decide
      | some bps => exact hok bps hbps
  | sql c q =>
    cases q with
    | updateOrderStatus publicId status stamp now =>
      rcases exec_sql_reply hx with ⟨_, hreply⟩ | ⟨_, hreply⟩
      · exact subtotal_of_reply hi.2 hreply
      · exact subtotal_of_reply (solvent_applyAll hlog hi.2) hreply
    | _ => trivial
  | _ => trivial

/-- Payouts, and deliveries by agents. -/
def Call.movesBalance : Call → Bool
  | .recordPayout _ => true
  | .agentUpdateStatus _ _ _ .delivered => true
  | _ => false

variable (hmacSha256 : String → String → String) (cfg : Config)

theorem wp_movesBalance {c : Call} (hc : c.movesBalance = true) {p : Pid} {w : World}
    (hlog : ∀ x ∈ w.log p, Growing x) :
    wp machine CommissionInRange (sharedSpec solventInv) p (c.prog hmacSha256 cfg)
      (OnOk fun _ _ => True) w := by
  cases c with
  | recordPayout input =>
    apply wp_seq
    apply wp_mono _ (wp_recordPayout (solvent_keptByPayout p input) w)
    intro r w' _
    cases r <;> trivial
  | agentUpdateStatus publicId agentId region action =>
    cases action with
    | delivered =>
      apply wp_seq
      apply wp_mono _ (wp_harmless (calls_agentDelivered cfg publicId agentId region)
        (solvent_keptBy p) (fun o e w a w' hi hl hok hx => plausible_exec hi hl hok hx) hlog)
      intro r w' _
      cases r <;> trivial
    | _ => cases hc
  | _ => cases hc

/-- In every interleaving of payouts and deliveries, with rates between 0 and 100%, no committed
balance is negative. -/
theorem balances_nonneg (w : World) (hw : w.AtRest) (hdb : Solvent w.store.db)
    (calls : Pid → Option Call) (hcalls : ∀ p c, calls p = some c → c.movesBalance = true)
    {t : Sys Pid Op Op.Res Err World Reply}
    (h : machine.Reaches CommissionInRange (running hmacSha256 cfg calls w) t) :
    ∀ b ∈ t.world.store.db.restaurantBalances, 0 ≤ b.balance := by
  have hwp : ∀ p prog, (running hmacSha256 cfg calls w).procs p = some prog →
      wp machine CommissionInRange (sharedSpec solventInv) p prog (OnOk fun _ _ => True) w := by
    intro p prog hprog
    obtain ⟨c, hc, rfl⟩ := Option.map_eq_some_iff.mp hprog
    refine wp_movesBalance hmacSha256 cfg (hcalls p c hc) fun x hx => ?_
    rw [World.log, hw.txn p] at hx
    cases hx
  have hinit : solventInv w.store.db [] := hdb
  have hinv := shared_reaches hw hinit hwp h
  exact hinv.nonneg

end Runs

/-- Two payouts of 60 from a balance of 100, and the delivery of a cash order. -/
def payoutsAndDelivery : Pid → Option Call
  | 0 => some (.recordPayout payoutOfSixty)
  | 1 => some (.recordPayout { payoutOfSixty with
      providerReferenceId := "bank-2"
      idempotencyKey := "key-2"
      idempotencyKey_ne := by decide })
  | 2 => some (.agentUpdateStatus "order-1" 7 "eg" .delivered)
  | _ => none

/-- The payouts lock, check and debit while the delivery is open. -/
def payoutsAndDeliverySchedule : List (Label Pid Env Ext) :=
  ([2, 2, 2, 2, 2, 2, 2, 2, 2, 2, 0, 1, 0, 1, 0, 1, 0, 0, 0, 0, 0, 1, 1, 2, 2, 2, 2, 2, 2, 2,
    2, 2, 2, 2, 2, 2, 2] : List Pid).map fun p => .act p tenPercent

def inRange : Pid → Op → Env → World → Bool := fun _ _ e _ => e.branch.commissionBps = some 1000

theorem balances_nonneg_payouts_and_delivery :
    ∃ t, machine.run inRange payoutsAndDeliverySchedule
        (running (fun _ _ => "") sampleConfig payoutsAndDelivery pickedOrder) = some t ∧
      ∀ b ∈ t.world.store.db.restaurantBalances, 0 ≤ b.balance := by
  have hcheck : ∀ p o e w, inRange p o e w = true → CommissionInRange p o e w := by
    intro p o e w h
    have hbps : e.branch.commissionBps = some 1000 := by simpa [inRange] using h
    cases o with
    | getBranch b =>
      intro bps hbps'
      rw [hbps, Option.some.injEq] at hbps'
      omega
    | _ => trivial
  have hcalls : ∀ p c, payoutsAndDelivery p = some c → c.movesBalance = true := by
    intro p c hc
    unfold payoutsAndDelivery at hc
    split at hc <;> cases hc <;> rfl
  have hsolvent : Solvent pickedOrder.store.db := ⟨by decide, by decide, by decide⟩
  obtain ⟨t, ht⟩ := Option.isSome_iff_exists.mp (by decide : (machine.run inRange
    payoutsAndDeliverySchedule (running (fun _ _ => "") sampleConfig payoutsAndDelivery
      pickedOrder)).isSome = true)
  exact ⟨t, ht, balances_nonneg _ sampleConfig pickedOrder ⟨rfl, fun _ => rfl, rfl⟩ hsolvent
    payoutsAndDelivery hcalls (Machine.reaches_of_run hcheck _ ht)⟩

end OrderService
