import OrderService.Tables

/-! Which rows a write changes: what a statement reads by a key changes only with writes of
that key. -/
namespace OrderService
open ReadCommitted

/-- An order of restaurant 1, whose owner is user 9, to run the model on. -/
def OrderEntity.sample (publicId : String) (status : OrderStatus) : OrderEntity where
  id := 1
  region := "eg"
  publicId := publicId
  countryCode := "eg"
  restaurantId := 1
  restaurantOwnerId := 9
  branchId := 2
  customerId := 3
  customerAddressId := 4
  deliveryLat := 0
  deliveryLng := 0
  deliveryAddressTextSnapshot := "1, Tahrir, Cairo, Egypt"
  branchLat := 0
  branchLng := 0
  status := status
  subtotal := 10000
  deliveryFee := 2000
  serviceFee := 1000
  total := 13000
  commission := 0
  currency := "EGP"
  paymentMethod := .cod
  deliveryAgentId := some 7
  createdAt := 0
  updatedAt := 0
  acceptedAt := none
  rejectedAt := none
  readyAt := none
  assignedAt := none
  pickedAt := none
  deliveredAt := none
  cancelledAt := none

def sampleConfig : Config where
  regions := ["eg"]
  onlineRegions := ["eg"]
  agentEarningShareBps := 8000
  claimTtlSec := 60
  offerTtlSec := 30
  sessionTimeoutMin := 15
  kashierApiKey := "api-key"
  kashierSecretKey := "secret-key"
  nodeEnv := "production"

/-- A payout of 60 to restaurant 1. -/
def payoutOfSixty : PayoutInput :=
  ⟨1, 60, "EGP", "eg", "bank-1", "key-1", by decide, by decide⟩

section Lists
variable {α : Type} {f : α → α} {test : α → Bool}

/-- A map that keeps the test, and the elements that pass it, does not change what is found. -/
theorem find?_map_of_fixed (htest : ∀ a, test (f a) = test a) (hfix : ∀ a, test a = true → f a = a)
    (l : List α) : (l.map f).find? test = l.find? test := by
  induction l with
  | nil => rfl
  | cons a l ih =>
    rw [List.map_cons]
    by_cases ha : test a = true
    · rw [List.find?_cons_of_pos ha, List.find?_cons_of_pos (by rw [htest]; exact ha), hfix a ha]
    · rw [List.find?_cons_of_neg ha, List.find?_cons_of_neg (by rw [htest]; exact ha), ih]

/-- A map that keeps the test moves what is found. -/
theorem find?_map_of_test (htest : ∀ a, test (f a) = test a) (l : List α) :
    (l.map f).find? test = (l.find? test).map f := by
  induction l with
  | nil => rfl
  | cons a l ih =>
    rw [List.map_cons]
    by_cases ha : test a = true
    · rw [List.find?_cons_of_pos ha, List.find?_cons_of_pos (by rw [htest]; exact ha)]
      rfl
    · rw [List.find?_cons_of_neg ha, List.find?_cons_of_neg (by rw [htest]; exact ha), ih]

theorem find?_append_of_neg {a : α} (ha : test a = false) (l : List α) :
    (l ++ [a]).find? test = l.find? test := by
  have hsingle : [a].find? test = none := List.find?_cons_of_neg (by rw [ha]; exact Bool.false_ne_true)
  rw [List.find?_append, hsingle, Option.or_none]

end Lists

section Tables

inductive Table where
  | orders
  | orderItems
  | paymentSessions
  | transactions
  | restaurantBalances
  | agentEarnings
  | webhookEvents
  | eventsOutbox
  deriving DecidableEq

/-- The table that a write changes. -/
def Write.table : Write → Table
  | .insertOrder _ => .orders
  | .setOrderStatus .. => .orders
  | .assignOrder .. => .orders
  | .insertOrderItem _ => .orderItems
  | .insertSession _ => .paymentSessions
  | .setSessionStatus .. => .paymentSessions
  | .insertTransaction _ => .transactions
  | .setTransactionStatus .. => .transactions
  | .markRefunded .. => .transactions
  | .addBalance .. => .restaurantBalances
  | .insertEarning _ => .agentEarnings
  | .insertWebhookEvent _ => .webhookEvents
  | .setWebhookEvent .. => .webhookEvents
  | .insertOutbox _ => .eventsOutbox

variable {O : Type} {obs : Db → O} {T : Table}

/-- What reads one table does not change with writes to the others. -/
theorem obs_applyAll (hobs : ∀ x db, x.table ≠ T → obs (engine.apply x db) = obs db)
    {log : List Write} (hlog : ∀ x ∈ log, x.table ≠ T) (db : Db) :
    obs (engine.applyAll log db) = obs db := by
  induction log generalizing db with
  | nil => rfl
  | cons x log ih =>
    rw [applyAll_cons, ih fun y hy => hlog y (List.mem_cons_of_mem x hy)]
    exact hobs x db (hlog x List.mem_cons_self)

theorem orders_applyAll {log : List Write} (hlog : ∀ x ∈ log, x.table ≠ .orders) (db : Db) :
    (engine.applyAll log db).orders = db.orders :=
  obs_applyAll (fun x _ hx => by cases x <;> first | rfl | exact absurd rfl hx) hlog db

end Tables

section Orders

@[simp] theorem stamp_publicId (o : OrderEntity) (now : Time) (c : Stamp) :
    (o.stamp now c).publicId = o.publicId := by
  cases c <;> rfl

@[simp] theorem stamp_status (o : OrderEntity) (now : Time) (c : Stamp) :
    (o.stamp now c).status = o.status := by
  cases c <;> rfl

@[simp] theorem withStatus_publicId (o : OrderEntity) (status : OrderStatus) (stamp : Option Stamp)
    (now : Time) : (o.withStatus status stamp now).publicId = o.publicId := by
  cases stamp with
  | none => rfl
  | some c => exact stamp_publicId _ now c

@[simp] theorem withStatus_status (o : OrderEntity) (status : OrderStatus) (stamp : Option Stamp)
    (now : Time) : (o.withStatus status stamp now).status = status := by
  cases stamp with
  | none => rfl
  | some c => exact stamp_status _ now c

/-- What a status update leaves alone: whatever is read off the other columns. -/
theorem withStatus_field {α : Type} (f : OrderEntity → α)
    (hstatus : ∀ (o : OrderEntity) s u, f { o with status := s, updatedAt := u } = f o)
    (hstamp : ∀ (o : OrderEntity) now c, f (o.stamp now c) = f o) (o : OrderEntity)
    (status : OrderStatus) (stamp : Option Stamp) (now : Time) :
    f (o.withStatus status stamp now) = f o := by
  cases stamp with
  | none => exact hstatus o status now
  | some c => exact (hstamp _ now c).trans (hstatus o status now)

section Fixed
variable (o : OrderEntity) (status : OrderStatus) (stamp : Option Stamp) (now : Time)

@[simp] theorem withStatus_id : (o.withStatus status stamp now).id = o.id :=
  withStatus_field OrderEntity.id (fun _ _ _ => rfl) (fun _ _ c => by cases c <;> rfl) o _ _ _

@[simp] theorem withStatus_restaurantOwnerId :
    (o.withStatus status stamp now).restaurantOwnerId = o.restaurantOwnerId :=
  withStatus_field OrderEntity.restaurantOwnerId (fun _ _ _ => rfl)
    (fun _ _ c => by cases c <;> rfl) o _ _ _

@[simp] theorem withStatus_customerId :
    (o.withStatus status stamp now).customerId = o.customerId :=
  withStatus_field OrderEntity.customerId (fun _ _ _ => rfl) (fun _ _ c => by cases c <;> rfl)
    o _ _ _

@[simp] theorem withStatus_subtotal : (o.withStatus status stamp now).subtotal = o.subtotal :=
  withStatus_field OrderEntity.subtotal (fun _ _ _ => rfl) (fun _ _ c => by cases c <;> rfl) o _ _ _

@[simp] theorem withStatus_deliveryFee :
    (o.withStatus status stamp now).deliveryFee = o.deliveryFee :=
  withStatus_field OrderEntity.deliveryFee (fun _ _ _ => rfl) (fun _ _ c => by cases c <;> rfl)
    o _ _ _

@[simp] theorem withStatus_serviceFee :
    (o.withStatus status stamp now).serviceFee = o.serviceFee :=
  withStatus_field OrderEntity.serviceFee (fun _ _ _ => rfl) (fun _ _ c => by cases c <;> rfl)
    o _ _ _

@[simp] theorem withStatus_total : (o.withStatus status stamp now).total = o.total :=
  withStatus_field OrderEntity.total (fun _ _ _ => rfl) (fun _ _ c => by cases c <;> rfl) o _ _ _

@[simp] theorem withStatus_currency : (o.withStatus status stamp now).currency = o.currency :=
  withStatus_field OrderEntity.currency (fun _ _ _ => rfl) (fun _ _ c => by cases c <;> rfl) o _ _ _

@[simp] theorem withStatus_paymentMethod :
    (o.withStatus status stamp now).paymentMethod = o.paymentMethod :=
  withStatus_field OrderEntity.paymentMethod (fun _ _ _ => rfl) (fun _ _ c => by cases c <;> rfl)
    o _ _ _

@[simp] theorem withStatus_deliveryAgentId :
    (o.withStatus status stamp now).deliveryAgentId = o.deliveryAgentId :=
  withStatus_field OrderEntity.deliveryAgentId (fun _ _ _ => rfl) (fun _ _ c => by cases c <;> rfl)
    o _ _ _

end Fixed

@[simp] theorem assignTo_publicId (o : OrderEntity) (agentId : Nat) (now : Time) :
    (o.assignTo agentId now).publicId = o.publicId := rfl

/-- The writes that do not insert an order. -/
def Write.KeepsOrders : Write → Prop
  | .insertOrder _ => False
  | _ => True

/-- What neither a status update nor an assignment changes is the same in every order, until one is
inserted. -/
theorem map_orders_apply {α : Type} {f : OrderEntity → α}
    (hstatus : ∀ o status stamp now, f (OrderEntity.withStatus o status stamp now) = f o)
    (hassign : ∀ o agentId now, f (OrderEntity.assignTo o agentId now) = f o) {x : Write}
    (hx : x.KeepsOrders) (db : Db) :
    (engine.apply x db).orders.map f = db.orders.map f := by
  cases x with
  | insertOrder row => exact absurd hx id
  | assignOrder other agentId now =>
    change (db.orders.map _).map _ = _
    rw [List.map_map]
    apply List.map_congr_left
    intro o _
    change f (if o.publicId = other ∧ o.claimable then _ else o) = f o
    split
    · exact hassign o agentId now
    · rfl
  | setOrderStatus other status stamp now =>
    change (db.orders.map _).map _ = _
    rw [List.map_map]
    apply List.map_congr_left
    intro o _
    change f (if o.publicId = other then _ else o) = f o
    split
    · exact hstatus o status stamp now
    · rfl
  | _ => rfl

theorem map_orders_applyAll {α : Type} {f : OrderEntity → α}
    (hstatus : ∀ o status stamp now, f (OrderEntity.withStatus o status stamp now) = f o)
    (hassign : ∀ o agentId now, f (OrderEntity.assignTo o agentId now) = f o) {log : List Write}
    (hlog : ∀ x ∈ log, x.KeepsOrders) (db : Db) :
    (engine.applyAll log db).orders.map f = db.orders.map f := by
  induction log generalizing db with
  | nil => rfl
  | cons x log ih =>
    rw [applyAll_cons, ih fun y hy => hlog y (List.mem_cons_of_mem x hy)]
    exact map_orders_apply hstatus hassign (hlog x List.mem_cons_self) db

theorem order_reads (publicId : String) :
    Reads engine (fun db => db.order publicId) (.order publicId) := by
  intro w db hkey
  have hne : ∀ other, some (Key.order other) ≠ some (Key.order publicId) → other ≠ publicId :=
    fun other h heq => h (by rw [heq])
  cases w with
  | insertOrder row =>
    have hrow : row.publicId ≠ publicId := hne _ hkey
    exact find?_append_of_neg (by simpa using hrow) db.orders
  | setOrderStatus other status stamp now =>
    have hother : other ≠ publicId := hne _ hkey
    refine find?_map_of_fixed (fun o => ?_) (fun o ho => ?_) db.orders
    · split <;> simp
    · have hpid : o.publicId = publicId := by simpa using ho
      rw [if_neg (fun h => hother (h.symm.trans hpid))]
  | assignOrder other agentId now =>
    have hother : other ≠ publicId := hne _ hkey
    refine find?_map_of_fixed (fun o => ?_) (fun o ho => ?_) db.orders
    · split <;> rfl
    · have hpid : o.publicId = publicId := by simpa using ho
      rw [if_neg (fun h => hother (h.1.symm.trans hpid))]
  | _ => rfl

/-- What the status update makes of the row it names. -/
theorem order_setOrderStatus (publicId : String) (status : OrderStatus) (stamp : Option Stamp)
    (now : Time) (db : Db) :
    (engine.apply (.setOrderStatus publicId status stamp now) db).order publicId
      = (db.order publicId).map fun o => o.withStatus status stamp now := by
  refine (find?_map_of_test (fun o => ?_) db.orders).trans ?_
  · split <;> simp
  cases ho : db.orders.find? fun o => decide (o.publicId = publicId) with
  | none => simp only [Db.order, ho, Option.map_none]
  | some o =>
    have hpid : o.publicId = publicId := by simpa using List.find?_some ho
    simp only [Db.order, ho, Option.map_some, hpid, if_true]

/-- What an assignment makes of the row it names. -/
theorem order_assignOrder (publicId : String) (agentId : Nat) (now : Time) (db : Db) :
    (engine.apply (.assignOrder publicId agentId now) db).order publicId
      = (db.order publicId).map fun o => if o.claimable then o.assignTo agentId now else o := by
  refine (find?_map_of_test (fun o => ?_) db.orders).trans ?_
  · split <;> rfl
  cases ho : db.orders.find? fun o => decide (o.publicId = publicId) with
  | none => simp only [Db.order, ho, Option.map_none]
  | some o =>
    have hpid : o.publicId = publicId := by simpa using List.find?_some ho
    simp only [Db.order, ho, Option.map_some, hpid, true_and]

theorem order_setOrderStatus_other {other publicId : String} (hother : other ≠ publicId)
    (status : OrderStatus) (stamp : Option Stamp) (now : Time) (db : Db) :
    (engine.apply (.setOrderStatus other status stamp now) db).order publicId
      = db.order publicId := by
  apply order_reads publicId
  simp only [engine, Write.key, ne_eq, Option.some.injEq, Key.order.injEq]
  exact hother

theorem order_assignOrder_other {other publicId : String} (hother : other ≠ publicId)
    (agentId : Nat) (now : Time) (db : Db) :
    (engine.apply (.assignOrder other agentId now) db).order publicId = db.order publicId := by
  apply order_reads publicId
  simp only [engine, Write.key, ne_eq, Option.some.injEq, Key.order.injEq]
  exact hother

theorem claimable_reads (publicId : String) :
    Reads engine (fun db => db.claimableOrder publicId) (.order publicId) := by
  intro w db hkey
  have hne : ∀ other, some (Key.order other) ≠ some (Key.order publicId) → other ≠ publicId :=
    fun other h heq => h (by rw [heq])
  have hpid : ∀ o : OrderEntity, decide (o.publicId = publicId ∧ o.claimable) = true →
      o.publicId = publicId := fun o ho => (of_decide_eq_true ho).1
  cases w with
  | insertOrder row =>
    have hrow : row.publicId ≠ publicId := hne _ hkey
    refine find?_append_of_neg ?_ db.orders
    rw [Bool.eq_false_iff]
    exact fun ho => hrow (hpid row ho)
  | setOrderStatus other status stamp now =>
    have hother : other ≠ publicId := hne _ hkey
    have hfix : ∀ o : OrderEntity, o.publicId = publicId →
        (if o.publicId = other then o.withStatus status stamp now else o) = o := by
      intro o ho
      rw [if_neg (fun h => hother (h.symm.trans ho))]
    refine find?_map_of_fixed (fun o => ?_) (fun o ho => hfix o (hpid o ho)) db.orders
    by_cases ho : o.publicId = publicId
    · rw [hfix o ho]
    · split
      · simp [ho]
      · rfl
  | assignOrder other agentId now =>
    have hother : other ≠ publicId := hne _ hkey
    have hfix : ∀ o : OrderEntity, o.publicId = publicId →
        (if o.publicId = other ∧ o.claimable then o.assignTo agentId now else o) = o := by
      intro o ho
      rw [if_neg (fun h => hother (h.1.symm.trans ho))]
    refine find?_map_of_fixed (fun o => ?_) (fun o ho => hfix o (hpid o ho)) db.orders
    by_cases ho : o.publicId = publicId
    · rw [hfix o ho]
    · split
      · simp [ho]
      · rfl
  | _ => rfl

/-- An order that came back was written. -/
theorem createOrder_reply {seqs : Seqs} {clock now : Time} {db : Db} {data : OrderData}
    {order : OrderEntity}
    (h : (Sql.eval seqs clock (.createOrder data now) db).reply = .ok order) :
    (Sql.eval seqs clock (.createOrder data now) db).writes = [.insertOrder order] ∧
      order.status = data.status := by
  simp only [Sql.eval] at h ⊢
  split at h
  · cases h
  · obtain rfl := Except.ok.inj h
    exact ⟨rfl, rfl⟩

/-- What a status update that came back with a row found and wrote. -/
theorem updateOrderStatus_reply {seqs : Seqs} {clock now : Time} {db : Db} {publicId : String}
    {status : OrderStatus} {stamp : Option Stamp} {row : OrderEntity}
    (h : (Sql.eval seqs clock (.updateOrderStatus publicId status stamp now) db).reply
      = .ok (some row)) :
    (Sql.eval seqs clock (.updateOrderStatus publicId status stamp now) db).writes
      = [.setOrderStatus publicId status stamp now] ∧
    ∃ o, db.order publicId = some o ∧ row = o.withStatus status stamp now := by
  simp only [Sql.eval] at h ⊢
  cases hfind : db.order publicId with
  | none =>
    rw [hfind] at h
    simp [reading] at h
  | some o =>
    rw [hfind] at h
    simp only [writing, Except.ok.injEq, Option.some.injEq] at h
    exact ⟨rfl, o, rfl, h.symm⟩

end Orders

section Balances

/-- The balance of an account; an absent row counts as zero. -/
def Db.amount (db : Db) (restaurantId : Nat) (currency : String) : Int :=
  ((db.balance restaurantId currency).map RestaurantBalanceEntity.balance).getD 0

theorem balanceOf_iff {restaurantId : Nat} {currency : String} {b : RestaurantBalanceEntity} :
    balanceOf restaurantId currency b = true ↔
      b.restaurantId = restaurantId ∧ b.currency = currency := by
  simp [balanceOf]

/-- What an upsert does to a row. -/
def bump (restaurantId : Nat) (currency : String) (delta : Int) (b : RestaurantBalanceEntity) :
    RestaurantBalanceEntity :=
  if balanceOf restaurantId currency b then { b with balance := b.balance + delta } else b

theorem balanceOf_bump (restaurantId r : Nat) (currency c : String) (delta : Int)
    (b : RestaurantBalanceEntity) :
    balanceOf r c (bump restaurantId currency delta b) = balanceOf r c b := by
  unfold bump
  split <;> rfl

theorem balance_reads (restaurantId : Nat) (currency : String) :
    Reads engine (fun db => db.balance restaurantId currency) (.balance restaurantId currency) := by
  intro w db hkey
  cases w with
  | addBalance r region c delta =>
    have hne : ∀ b, balanceOf restaurantId currency b = true → balanceOf r c b = false := by
      intro b hb
      obtain ⟨hr, hc⟩ := balanceOf_iff.mp hb
      rw [Bool.eq_false_iff]
      intro hrc
      obtain ⟨hr', hc'⟩ := balanceOf_iff.mp hrc
      exact hkey (by simp only [engine, Write.key, ← hr, ← hc, hr', hc'])
    have hnew : balanceOf restaurantId currency ⟨r, region, c, delta⟩ = false := by
      rw [Bool.eq_false_iff]
      intro hrow
      have hself := hne _ hrow
      simp [balanceOf] at hself
    change Db.balance _ _ _ = _
    simp only [Db.balance, engine, Write.apply]
    split
    · refine find?_map_of_fixed (f := bump r c delta) (fun b => balanceOf_bump _ _ _ _ _ b)
        (fun b hb => ?_) db.restaurantBalances
      unfold bump
      rw [hne b hb]
      rfl
    · exact find?_append_of_neg hnew _
  | _ => rfl

theorem balance_addBalance (restaurantId : Nat) (region currency : String) (delta : Int) (db : Db) :
    (engine.apply (.addBalance restaurantId region currency delta) db).balance restaurantId currency
      = some (match db.balance restaurantId currency with
        | some b => { b with balance := b.balance + delta }
        | none => ⟨restaurantId, region, currency, delta⟩) := by
  simp only [Db.balance, engine, Write.apply]
  cases hb : db.restaurantBalances.find? (balanceOf restaurantId currency) with
  | none =>
    have hany : ¬(db.restaurantBalances.any (balanceOf restaurantId currency)) = true := by
      intro h
      obtain ⟨b, hmem, hb'⟩ := List.any_eq_true.mp h
      exact List.find?_eq_none.mp hb b hmem hb'
    have hself : balanceOf restaurantId currency ⟨restaurantId, region, currency, delta⟩ = true :=
      balanceOf_iff.mpr ⟨rfl, rfl⟩
    rw [if_neg hany, List.find?_append, hb, List.find?_cons_of_pos hself]
    rfl
  | some b =>
    have hany : db.restaurantBalances.any (balanceOf restaurantId currency) = true :=
      List.any_eq_true.mpr ⟨b, List.mem_of_find?_eq_some hb, List.find?_some hb⟩
    rw [if_pos hany]
    refine (find?_map_of_test (f := bump restaurantId currency delta)
      (fun a => balanceOf_bump _ _ _ _ _ a) db.restaurantBalances).trans ?_
    rw [hb, Option.map_some, bump, List.find?_some hb]
    rfl

/-- An upsert adds its delta to one account and leaves the others. -/
theorem amount_addBalance (restaurantId r : Nat) (region currency c : String) (delta : Int)
    (db : Db) :
    (engine.apply (.addBalance restaurantId region currency delta) db).amount r c
      = db.amount r c + if r = restaurantId ∧ c = currency then delta else 0 := by
  unfold Db.amount
  by_cases h : r = restaurantId ∧ c = currency
  · obtain ⟨rfl, rfl⟩ := h
    rw [balance_addBalance]
    cases db.balance r c <;> simp
  · have hkey : engine.key (.addBalance restaurantId region currency delta)
        ≠ some (.balance r c) := by
      simp only [engine, Write.key, ne_eq, Option.some.injEq, Key.balance.injEq]
      exact fun heq => h ⟨heq.1.symm, heq.2.symm⟩
    have hsame := balance_reads r c (.addBalance restaurantId region currency delta) db hkey
    simp only at hsame
    rw [hsame, if_neg h, Int.add_zero]

end Balances

section Transactions

theorem orNull_of_ne {n : Nat} (h : n ≠ 0) : orNull (some n) = some n := by
  unfold orNull
  split
  · next heq => exact absurd (Option.some.inj heq) h
  · rfl

theorem orNull_eq_some {n m : Nat} : orNull (some n) = some m ↔ n = m ∧ m ≠ 0 := by
  cases n with
  | zero => simp [orNull]; omega
  | succ n => simp [orNull]; omega

theorem orNullText_of_ne {s : String} (h : s ≠ "") : orNullText (some s) = some s := by
  unfold orNullText
  split
  · next heq => exact absurd (Option.some.inj heq) h
  · rfl

theorem idempotent_reads (key : String) :
    Reads engine (fun db => (db.idempotent key).isSome) (.idempotency key) := by
  intro w db hkey
  cases w with
  | insertTransaction row =>
    have hrow : row.idempotencyKey ≠ some key := by
      intro h
      exact hkey (by simp only [engine, Write.key, h, Option.map_some])
    exact congrArg Option.isSome (find?_append_of_neg (by simpa using hrow) db.transactions)
  | setTransactionStatus id status now =>
    have hfind := @find?_map_of_test TransactionEntity
      (fun t => if t.id = id then { t with status := status, updatedAt := now } else t)
      (fun t => t.idempotencyKey = some key) (fun t => by split <;> rfl) db.transactions
    exact (congrArg Option.isSome hfind).trans Option.isSome_map
  | markRefunded id now =>
    have hfind := @find?_map_of_test TransactionEntity
      (fun t => if t.id = id then { t with isRefunded := true, updatedAt := now } else t)
      (fun t => t.idempotencyKey = some key) (fun t => by split <;> rfl) db.transactions
    exact (congrArg Option.isSome hfind).trans Option.isSome_map
  | _ => rfl

end Transactions

end OrderService
