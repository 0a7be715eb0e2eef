import OrderService.Effects
import OrderService.Services.Settlement

/-! The writes of a settlement, part by part, with what each part found. -/
namespace OrderService
open ReadCommitted Interleaving

section Parts

/-- A transfer is booked unless it is not due or the order has a transaction of its type. -/
inductive Booked (seen : Db → Prop) (log : List Write) (order : OrderEntity)
    (transfer : TransactionData) (due : Prop) : List Write → Prop
  | notDue : ¬due → Booked seen log order transfer due []
  | found {db : Db} {t : TransactionEntity} : due → seen db →
      (engine.applyAll log db).transactionOf order.id transfer.transactionType = some t →
      Booked seen log order transfer due []
  | booked {db : Db} (id : Nat) (now : Time) : due → seen db →
      (engine.applyAll log db).transactionOf order.id transfer.transactionType = none →
      Booked seen log order transfer due [.insertTransaction (transfer.toEntity id now)]

/-- The cash of an order is recorded as collected. -/
inductive Collected (seen : Db → Prop) (log : List Write) (order : OrderEntity) :
    List Write → Prop
  | notCash : order.paymentMethod ≠ .cod → Collected seen log order []
  | found {db : Db} {t : TransactionEntity} : order.paymentMethod = .cod → seen db →
      (engine.applyAll log db).transactionOf order.id .codCollection = some t →
      t.status = .succeeded → Collected seen log order []
  | completed {db : Db} {t : TransactionEntity} (now : Time) : order.paymentMethod = .cod →
      seen db → (engine.applyAll log db).transactionOf order.id .codCollection = some t →
      t.status ≠ .succeeded → Collected seen log order [.setTransactionStatus t.id .succeeded now]
  | booked {db : Db} (id : Nat) (now : Time) : order.paymentMethod = .cod → seen db →
      (engine.applyAll log db).transactionOf order.id .codCollection = none →
      Collected seen log order [.insertTransaction ((codCollection order).toEntity id now)]

/-- The earning of the agent is recorded once for an order. -/
inductive Earned (seen : Db → Prop) (log : List Write) (order : OrderEntity) (agentId : Nat)
    (amount : Int) : List Write → Prop
  | notDue : ¬amount > 0 → Earned seen log order agentId amount []
  | found {db : Db} : amount > 0 → seen db →
      ((engine.applyAll log db).agentEarnings.any fun e => e.orderId = order.id) = true →
      Earned seen log order agentId amount []
  | earned (id : Nat) (clock : Time) : amount > 0 →
      Earned seen log order agentId amount [.insertEarning
        ⟨⟨order.region, agentId, order.id, amount, order.currency⟩, id, clock⟩]

def creditWrites (order : OrderEntity) (net : Int) : List Write :=
  if net ≠ 0 then [.addBalance order.restaurantId order.region order.currency net] else []

/-- The parts of a settlement at the commission rate `bps`, in the transaction that has written
`log`. -/
structure Settlement (seen : Db → Prop) (log : List Write) (order : OrderEntity) (agentId : Nat)
    (share bps : Int) where
  cod : List Write
  commission : List Write
  serviceFee : List Write
  deliveryFee : List Write
  earning : List Write
  event : OutboxRow
  collected : Collected seen log order cod
  commissionBooked : Booked seen (log ++ cod) order
    (commissionTransfer order (bpsOf order.subtotal bps)) (bpsOf order.subtotal bps > 0) commission
  serviceFeeBooked : Booked seen (log ++ cod ++ commission) order (serviceFeeTransfer order)
    (order.serviceFee > 0) serviceFee
  deliveryFeeBooked : Booked seen (log ++ cod ++ commission ++ serviceFee) order
    (deliveryFeeTransfer order) (order.deliveryFee > 0) deliveryFee
  earned : Earned seen (log ++ cod ++ commission ++ serviceFee ++ deliveryFee
    ++ creditWrites order (order.subtotal - bpsOf order.subtotal bps)) order agentId
    (bpsOf order.deliveryFee share) earning
  delivered : ∃ id clock deliveredAt, event =
    { deliveredEvent order agentId (bpsOf order.subtotal bps) deliveredAt with
      id := id, createdAt := clock }

/-- The writes of a settlement in their order. -/
def Settlement.writes {seen : Db → Prop} {log : List Write} {order : OrderEntity} {agentId : Nat}
    {share bps : Int} (s : Settlement seen log order agentId share bps) : List Write :=
  s.cod ++ s.commission ++ s.serviceFee ++ s.deliveryFee
    ++ creditWrites order (order.subtotal - bpsOf order.subtotal bps) ++ s.earning
    ++ [.insertOutbox s.event]

/-- The kinds of writes that a settlement consists of. -/
theorem Settlement.forall_writes {seen : Db → Prop} {log : List Write} {order : OrderEntity}
    {agentId : Nat} {share bps : Int} (s : Settlement seen log order agentId share bps)
    {P : Write → Prop} (htransaction : ∀ row, P (.insertTransaction row))
    (hcompleted : ∀ id now, P (.setTransactionStatus id .succeeded now))
    (hcredit : ∀ restaurantId region currency delta,
      P (.addBalance restaurantId region currency delta))
    (hearning : ∀ row, P (.insertEarning row)) (hevent : P (.insertOutbox s.event)) :
    ∀ x ∈ s.writes, P x := by
  have hcollected : ∀ {part}, Collected seen log order part → ∀ x ∈ part, P x := by
    intro part h x hx
    cases h with
    | notCash => cases hx
    | found => cases hx
    | completed now =>
      rw [List.mem_singleton.mp hx]
      exact hcompleted _ _
    | booked id now =>
      rw [List.mem_singleton.mp hx]
      exact htransaction _
  have hbooked : ∀ {log transfer due part}, Booked seen log order transfer due part →
      ∀ x ∈ part, P x := by
    intro log transfer due part h x hx
    cases h with
    | notDue => cases hx
    | found => cases hx
    | booked id now =>
      rw [List.mem_singleton.mp hx]
      exact htransaction _
  have hearned : ∀ {log amount part}, Earned seen log order agentId amount part →
      ∀ x ∈ part, P x := by
    intro log amount part h x hx
    cases h with
    | notDue => cases hx
    | found => cases hx
    | earned id clock =>
      rw [List.mem_singleton.mp hx]
      exact hearning _
  have hcredited : ∀ net, ∀ x ∈ creditWrites order net, P x := by
    intro net x hx
    unfold creditWrites at hx
    split_ifs at hx
    · rw [List.mem_singleton.mp hx]
      exact hcredit _ _ _ _
    · cases hx
  intro x hx
  simp only [Settlement.writes, List.mem_append, List.mem_singleton] at hx
  rcases hx with (((((hx | hx) | hx) | hx) | hx) | hx) | rfl
  · exact hcollected s.collected x hx
  · exact hbooked s.commissionBooked x hx
  · exact hbooked s.serviceFeeBooked x hx
  · exact hbooked s.deliveryFeeBooked x hx
  · exact hcredited _ x hx
  · exact hearned s.earned x hx
  · exact hevent

end Parts

section Rules

/-- The open transaction of `p` has written `log`, and `F` holds. -/
structure Open (F : World → Prop) (p : Pid) (log : List Write) (w : World) : Prop where
  holds : F w
  txn : w.store.txn p = .active log

/-- The committed tables of a world in which `F` holds. -/
def Seen (F : World → Prop) (db : Db) : Prop := ∃ v, F v ∧ v.store.db = db

/-- `F` is not falsified by the others, nor by the operations of an open transaction. -/
structure Kept (S : Spec Pid World) (p : Pid) (F : World → Prop) : Prop where
  rely : ∀ w w', S.rely p w w' → F w → F w'
  step : ∀ o e w r w', o.Appends (fun _ => True) → S.inv w → exec p o e w = some (r, w') →
    F w → F w'

variable {ok : Pid → Op → Env → World → Prop} {S : Spec Pid World} {p : Pid} {F : World → Prop}
  {w : World} {log : List Write} {order : OrderEntity} {agentId : Nat}

theorem wp_open_sql (hS : Isolated S p) (hF : Kept S p F) (h : Open F p log w) {q : Sql}
    {P : q.Res → World → Prop}
    (hP : ∀ v a w', F v → (q.eval v.seqs v.clock (engine.applyAll log v.store.db)).reply = .ok a →
      Open F p (log ++ (q.eval v.seqs v.clock (engine.applyAll log v.store.db)).writes) w' →
      P a w') :
    wp machine ok S p (sql .trx q) (OnOk P) w := by
  apply wp_perform
  intro w₁ hr hi e r w₂ _ hx
  rw [machine_exec] at hx
  have hF₁ : F w₁ := hF.rely w w₁ hr h.holds
  have hF₂ : F w₂ := hF.step (.sql .trx q) e w₁ r w₂ (fun _ _ => trivial) hi hx hF₁
  have hlog₁ : w₁.store.txn p = .active log := (hS.sees w w₁ hr).1.txn.trans h.txn
  refine ⟨hS.quiet (.sql .trx q) e w₁ r w₂ rfl hi hx, hS.guarantee (.sql .trx q) e w₁ r w₂ hi hx, ?_⟩
  by_cases hf : e.fail = true
  · simp only [exec, hf, if_true, Option.some.injEq, Prod.mk.injEq] at hx
    rw [← hx.1]
    trivial
  · obtain ⟨hr', rfl⟩ := exec_trx hlog₁ (Bool.eq_false_iff.mpr hf) hx
    have hview : w₁.view p = engine.applyAll log w₁.store.db := by
      rw [World.view_eq, World.log_of_active hlog₁]
    rw [World.inTrx, hview] at hr'
    cases r with
    | error err => trivial
    | ok a =>
      refine hP w₁ a _ hF₁ hr'.symm ⟨hF₂, ?_⟩
      rw [World.queried_txn, World.log_of_active hlog₁, World.inTrx, hview]

theorem wp_open_read (hS : Isolated S p) (hF : Kept S p F) (h : Open F p log w) {q : Sql}
    (hread : ∀ seqs clock db, (q.eval seqs clock db).writes = []) {P : q.Res → World → Prop}
    (hP : ∀ v a w', F v → (q.eval v.seqs v.clock (engine.applyAll log v.store.db)).reply = .ok a →
      Open F p log w' → P a w') :
    wp machine ok S p (sql .trx q) (OnOk P) w := by
  apply wp_open_sql hS hF h
  intro v a w' hv hreply h'
  rw [hread, List.append_nil] at h'
  exact hP v a w' hv hreply h'

theorem wp_open_outer (hS : Isolated S p) (hF : Kept S p F) (h : Open F p log w) {o : Op}
    (ho : o.outer = true) {P : o.Res → World → Prop}
    (hP : ∀ e v a w', ok p o e v → exec p o e v = some (.ok a, w') → Open F p log w' → P a w') :
    wp machine ok S p (.perform o) (OnOk P) w := by
  apply wp_outer_ok hS ho
  intro w₁ e a w₂ hr hi hok hx _ hstore _ _
  have hF₁ : F w₁ := hF.rely w w₁ hr h.holds
  refine hP e w₁ a w₂ hok hx ⟨hF.step o e w₁ _ w₂ (Op.appends_of_outer ho) hi hx hF₁, ?_⟩
  rw [hstore]
  exact (hS.sees w w₁ hr).1.txn.trans h.txn

theorem wp_open_now (hS : Isolated S p) (hF : Kept S p F) (h : Open F p log w)
    {P : Time → World → Prop} (hP : ∀ t w', Open F p log w' → P t w') :
    wp machine ok S p now (OnOk P) w :=
  wp_open_outer hS hF h rfl fun _ _ t w' _ _ h' => hP t w' h'

/-- An insert that came back with a row wrote it. -/
theorem createTransaction_reply {seqs : Seqs} {clock now : Time} {db : Db} {data : TransactionData}
    {row : TransactionEntity}
    (h : (Sql.eval seqs clock (.createTransaction data now) db).reply = .ok (some row)) :
    (Sql.eval seqs clock (.createTransaction data now) db).writes
      = [.insertTransaction (data.toEntity seqs.transactions now)] := by
  simp only [Sql.eval] at h ⊢
  cases hfind : (orNullText data.idempotencyKey).bind db.idempotent with
  | none => rfl
  | some t =>
    rw [hfind] at h
    simp [reading] at h

theorem wp_open_create (hS : Isolated S p) (hF : Kept S p F) (h : Open F p log w)
    {data : TransactionData} {P : TransactionEntity → World → Prop}
    (hP : ∀ row id now w', Open F p (log ++ [.insertTransaction (data.toEntity id now)]) w' →
      P row w') :
    wp machine ok S p (createTransaction data .trx) (OnOk P) w := by
  apply wp_seq
  apply wp_open_now hS hF h
  intro now w₁ h₁
  apply wp_seq
  apply wp_open_sql hS hF h₁
  intro v found w₂ _ hreply h₂
  apply wp_toEntity
  rintro row rfl
  rw [createTransaction_reply hreply] at h₂
  exact hP row _ now w₂ h₂

theorem wp_open_onlyIf {cond : Prop} [Decidable cond] {body : Svc Unit} {P : Unit → World → Prop}
    (hyes : cond → wp machine ok S p body (OnOk P) w) (hno : ¬cond → P () w) :
    wp machine ok S p (onlyIf cond body) (OnOk P) w := by
  unfold onlyIf
  split_ifs with h
  · exact hyes h
  · exact hno h

theorem wp_collectCod (hS : Isolated S p) (hF : Kept S p F) (h : Open F p log w)
    (hcod : order.paymentMethod = .cod) :
    wp machine ok S p (collectCod order .trx) (OnOk fun _ w' =>
      ∃ part, Collected (Seen F) log order part ∧ Open F p (log ++ part) w') w := by
  apply wp_seq
  apply wp_open_read hS hF h fun _ _ _ => rfl
  intro v found w₁ hv hreply h₁
  have hfound := Except.ok.inj hreply
  cases found with
  | none =>
    apply wp_seq
    apply wp_open_create hS hF h₁
    intro row id now w₂ h₂
    exact ⟨_, .booked id now hcod ⟨v, hv, rfl⟩ hfound, h₂⟩
  | some t =>
    dsimp only
    split_ifs with hstatus
    · apply wp_seq
      apply wp_seq
      apply wp_open_now hS hF h₁
      intro now w₂ h₂
      apply wp_seq
      apply wp_open_sql hS hF h₂
      intro v' row w₃ _ hreply' h₃
      apply wp_toEntity
      rintro t' rfl
      have hwrites : (Sql.eval v'.seqs v'.clock (.updateTransactionStatus t.id .succeeded now)
          (engine.applyAll log v'.store.db)).writes
            = [.setTransactionStatus t.id .succeeded now] := by
        simp only [Sql.eval] at hreply' ⊢
        cases hrow : (engine.applyAll log v'.store.db).transactions.find?
            (fun x => decide (x.id = t.id)) with
        | none =>
          rw [hrow] at hreply'
          simp [reading] at hreply'
        | some x => rfl
      rw [hwrites] at h₃
      exact ⟨_, .completed now hcod ⟨v, hv, rfl⟩ hfound hstatus, h₃⟩
    · refine ⟨[], .found hcod ⟨v, hv, rfl⟩ hfound (by simpa using hstatus), ?_⟩
      rw [List.append_nil]
      exact h₁

theorem wp_bookTransfer (hS : Isolated S p) (hF : Kept S p F) (h : Open F p log w)
    {transfer : TransactionData} {due : Prop} (hdue : due) :
    wp machine ok S p (bookTransfer order transfer .trx) (OnOk fun _ w' =>
      ∃ part, Booked (Seen F) log order transfer due part ∧ Open F p (log ++ part) w') w := by
  apply wp_seq
  apply wp_open_read hS hF h fun _ _ _ => rfl
  intro v found w₁ hv hreply h₁
  have hfound := Except.ok.inj hreply
  cases found with
  | none =>
    apply wp_seq
    apply wp_open_create hS hF h₁
    intro row id now w₂ h₂
    exact ⟨_, .booked id now hdue ⟨v, hv, rfl⟩ hfound, h₂⟩
  | some t =>
    refine ⟨[], .found hdue ⟨v, hv, rfl⟩ hfound, ?_⟩
    rw [List.append_nil]
    exact h₁

theorem wp_bookIfDue (hS : Isolated S p) (hF : Kept S p F) (h : Open F p log w)
    {transfer : TransactionData} {due : Prop} [Decidable due] :
    wp machine ok S p (onlyIf due (bookTransfer order transfer .trx)) (OnOk fun _ w' =>
      ∃ part, Booked (Seen F) log order transfer due part ∧ Open F p (log ++ part) w') w := by
  apply wp_open_onlyIf
  · exact fun hdue => wp_bookTransfer hS hF h hdue
  · intro hdue
    refine ⟨[], .notDue hdue, ?_⟩
    rw [List.append_nil]
    exact h

theorem wp_creditRestaurant (hS : Isolated S p) (hF : Kept S p F) (h : Open F p log w)
    {net : Int} :
    wp machine ok S p (onlyIf (net ≠ 0) (creditRestaurant order net .trx)) (OnOk fun _ w' =>
      Open F p (log ++ creditWrites order net) w') w := by
  unfold creditWrites
  apply wp_open_onlyIf
  · intro hnet
    apply wp_seq
    apply wp_open_sql hS hF h
    intro v found w₁ _ _ h₁
    have hwrites : (Sql.eval v.seqs v.clock (.lockBalance order.restaurantId order.currency)
        (engine.applyAll log v.store.db)).writes = [] := by
      simp only [Sql.eval]
      split <;> rfl
    rw [hwrites, List.append_nil] at h₁
    apply wp_open_sql hS hF h₁
    intro v' _ w₂ _ _ h₂
    rw [if_pos hnet]
    exact h₂
  · intro hnet
    rw [if_neg hnet, List.append_nil]
    exact h

theorem wp_recordEarning (hS : Isolated S p) (hF : Kept S p F) (h : Open F p log w)
    {amount : Int} :
    wp machine ok S p (onlyIf (amount > 0) (recordEarning order agentId amount .trx))
      (OnOk fun _ w' => ∃ part, Earned (Seen F) log order agentId amount part ∧
        Open F p (log ++ part) w') w := by
  apply wp_open_onlyIf
  · intro hdue
    apply wp_seq
    apply wp_seq
    apply wp_open_sql hS hF h
    intro v found w₁ hv hreply h₁
    simp only [Sql.eval] at hreply h₁
    split_ifs at hreply h₁ with hany
    · obtain rfl := Except.ok.inj hreply
      simp only [reading, List.append_nil] at h₁
      apply wp_seq
      apply wp_open_read hS hF h₁ fun _ _ _ => rfl
      intro _ existing w₂ _ _ h₂
      cases existing with
      | none => trivial
      | some e =>
        refine ⟨[], .found hdue ⟨v, hv, rfl⟩ hany, ?_⟩
        rw [List.append_nil]
        exact h₂
    · obtain rfl := Except.ok.inj hreply
      exact ⟨_, .earned v.seqs.agentEarnings v.clock hdue, h₁⟩
  · intro hdue
    refine ⟨[], .notDue hdue, ?_⟩
    rw [List.append_nil]
    exact h

/-- The rate that core answers satisfies `rate`, and so does zero, which stands for no answer. -/
def AllowsRate (ok : Pid → Op → Env → World → Prop) (p : Pid) (rate : Int → Prop) : Prop :=
  rate 0 ∧ ∀ b e w, ok p (.getBranch b) e w → rate (e.branch.commissionBps.getD 0)

theorem wp_fetchCommissionBps (hS : Isolated S p) (hF : Kept S p F) (h : Open F p log w)
    {rate : Int → Prop} (hrate : AllowsRate ok p rate) {branchId : Nat} :
    wp machine ok S p (fetchCommissionBps branchId) (OnOk fun bps w' =>
      rate bps ∧ Open F p log w') w := by
  apply wp_catch
  apply wp_do
  apply wp_outer hS rfl
  intro w₁ e r w₂ hr hi hok hx _ hstore _ _
  have hF₂ : F w₂ := hF.step (.getBranch branchId) e w₁ r w₂ rfl hi hx (hF.rely w w₁ hr h.holds)
  have h₂ : Open F p log w₂ :=
    ⟨hF₂, by rw [hstore]; exact (hS.sees w w₁ hr).1.txn.trans h.txn⟩
  cases r with
  | error err => exact ⟨hrate.1, h₂⟩
  | ok branch =>
    have hbranch : branch = e.branch := by
      simp only [exec] at hx
      split_ifs at hx <;> simp_all
    refine ⟨?_, h₂⟩
    rw [hbranch]
    exact hrate.2 branchId e w₁ hok

/-- A settlement that does not fail has written its parts. -/
theorem wp_settleDeliveredOrder (hS : Isolated S p) (hF : Kept S p F) (h : Open F p log w)
    {rate : Int → Prop} (hrate : AllowsRate ok p rate) (cfg : Config) :
    wp machine ok S p (settleDeliveredOrder cfg order agentId .trx) (OnOk fun _ w' =>
      ∃ bps, rate bps ∧
        ∃ s : Settlement (Seen F) log order agentId cfg.agentEarningShareBps bps,
          Open F p (log ++ s.writes) w') w := by
  apply wp_seq
  apply wp_mono _ (wp_fetchCommissionBps hS hF h hrate)
  rintro (err | bps) w₁ h₁
  · trivial
  obtain ⟨hbps, h₁⟩ := h₁
  apply wp_seq
  apply wp_mono (Q := OnOk fun _ w' => ∃ part, Collected (Seen F) log order part ∧
    Open F p (log ++ part) w')
  · rintro (err | _) w₂ h₂
    · trivial
    obtain ⟨cod, hcod, h₂⟩ := h₂
    apply wp_seq
    apply wp_mono _ (wp_bookIfDue hS hF h₂)
    rintro (err | _) w₃ h₃
    · trivial
    obtain ⟨commission, hcommission, h₃⟩ := h₃
    apply wp_seq
    apply wp_mono _ (wp_bookIfDue hS hF h₃)
    rintro (err | _) w₄ h₄
    · trivial
    obtain ⟨serviceFee, hserviceFee, h₄⟩ := h₄
    apply wp_seq
    apply wp_mono _ (wp_bookIfDue hS hF h₄)
    rintro (err | _) w₅ h₅
    · trivial
    obtain ⟨deliveryFee, hdeliveryFee, h₅⟩ := h₅
    apply wp_seq
    apply wp_mono _ (wp_creditRestaurant hS hF h₅)
    rintro (err | _) w₆ h₆
    · trivial
    apply wp_seq
    apply wp_mono _ (wp_recordEarning hS hF h₆)
    rintro (err | _) w₇ h₇
    · trivial
    obtain ⟨earning, hearning, h₇⟩ := h₇
    apply wp_seq
    apply wp_open_now hS hF h₇
    intro deliveredAt w₈ h₈
    apply wp_seq
    apply wp_open_sql hS hF h₈
    intro v _ w₉ _ _ h₉
    refine wp_pure ⟨bps, hbps, ⟨cod, commission, serviceFee, deliveryFee, earning, _, hcod,
      hcommission, hserviceFee, hdeliveryFee, hearning,
      ⟨v.seqs.eventsOutbox, v.clock, deliveredAt, rfl⟩⟩, ?_⟩
    simpa only [Settlement.writes, List.append_assoc, Sql.eval, writing] using h₉
  · apply wp_open_onlyIf
    · exact fun hcod => wp_collectCod hS hF h₁ hcod
    · intro hcod
      refine ⟨[], .notCash hcod, ?_⟩
      rw [List.append_nil]
      exact h₁

end Rules

end OrderService
