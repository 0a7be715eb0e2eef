import OrderService.CallEffects
import OrderService.DeliveryAlone
import OrderService.SerialIds
import OrderService.SettlementResult

/-! Calls one after another: a delivered order is a settled one, unless its agent reported the
delivery through the order route. -/
namespace OrderService
open ReadCommitted Interleaving

section Statement

/-- The settlement of an order at the commission rate `bps` was performed: one commit moved the
order to delivered and credited the restaurant, and the rows that are due are there. -/
structure SettledAt (share bps : Int) (o : OrderEntity) (db : Db)
    (history : List (Pid × List Write)) : Prop where
  credited : ∃ b ∈ history, (∃ stamp now, .setOrderStatus o.publicId .delivered stamp now ∈ b.2) ∧
    b.2.filter (fun x => x.table = .restaurantBalances)
      = creditWrites o (o.subtotal - bpsOf o.subtotal bps)
  commission : 0 < bpsOf o.subtotal bps → ∃ t ∈ db.transactions,
    t.orderId = some o.id ∧ t.transactionType = .commission
  cash : o.paymentMethod = .cod → ∃ t ∈ db.transactions,
    t.orderId = some o.id ∧ t.transactionType = .codCollection ∧ t.status = .succeeded
  earning : 0 < bpsOf o.deliveryFee share → ∃ e ∈ db.agentEarnings, e.orderId = o.id
  event : ∃ row ∈ db.eventsOutbox, row.eventType = .orderDelivered ∧ row.aggregateId = o.publicId

/-- A call that runs by itself, with the answers that it gets before it ends or dies, or a move
of the environment. -/
inductive Moment where
  | call (c : Call) (answers : List Env)
  | ext (x : Ext)

section Runs
variable (hmacSha256 : String → String → String) (cfg : Config)

/-- One thing after another; the calls are numbered from `n` on. -/
def runInTurn : Pid → List Moment → World → World
  | _, [], w => w
  | n, .call c es :: rest, w =>
    runInTurn (n + 1) rest (machine.runAlone n (c.prog hmacSha256 cfg) es w).2
  | n, .ext x :: rest, w => runInTurn n rest (machine.ext x w)

end Runs

end Statement

section Keeping

/-- The writes that leave a succeeded transaction as one. -/
def Write.Completing : Write → Prop
  | .setTransactionStatus _ status _ => status = .succeeded
  | _ => True

/-- A property of a transaction that its later updates keep. -/
structure Lasting (P : TransactionEntity → Prop) : Prop where
  succeeded : ∀ t now, P t → P { t with status := .succeeded, updatedAt := now }
  refunded : ∀ t now, P t → P { t with isRefunded := true, updatedAt := now }

variable {db : Db} {x : Write} {ws : List Write} {P : TransactionEntity → Prop}

theorem transaction_apply (hP : Lasting P) (hx : x.Completing) (h : ∃ t ∈ db.transactions, P t) :
    ∃ t ∈ (engine.apply x db).transactions, P t := by
  obtain ⟨t, ht, hPt⟩ := h
  cases x with
  | insertTransaction row => exact ⟨t, List.mem_append_left _ ht, hPt⟩
  | setTransactionStatus id status now =>
    have hstatus : status = .succeeded := hx
    subst hstatus
    refine ⟨_, List.mem_map.mpr ⟨t, ht, rfl⟩, ?_⟩
    split
    · exact hP.succeeded t now hPt
    · exact hPt
  | markRefunded id now =>
    refine ⟨_, List.mem_map.mpr ⟨t, ht, rfl⟩, ?_⟩
    split
    · exact hP.refunded t now hPt
    · exact hPt
  | _ => exact ⟨t, ht, hPt⟩

theorem transaction_applyAll (hP : Lasting P) (hws : ∀ x ∈ ws, x.Completing)
    (h : ∃ t ∈ db.transactions, P t) : ∃ t ∈ (engine.applyAll ws db).transactions, P t := by
  induction ws generalizing db with
  | nil => exact h
  | cons x ws ih =>
    rw [applyAll_cons]
    exact ih (fun y hy => hws y (List.mem_cons_of_mem x hy))
      (transaction_apply hP (hws x List.mem_cons_self) h)

theorem earnings_grow (ws : List Write) {e : AgentEarningEntity} (h : e ∈ db.agentEarnings) :
    e ∈ (engine.applyAll ws db).agentEarnings := by
  induction ws generalizing db with
  | nil => exact h
  | cons x ws ih =>
    rw [applyAll_cons]
    apply ih
    cases x with
    | insertEarning row => exact List.mem_append_left _ h
    | _ => exact h

theorem outbox_grows (ws : List Write) {row : OutboxRow} (h : row ∈ db.eventsOutbox) :
    row ∈ (engine.applyAll ws db).eventsOutbox := by
  induction ws generalizing db with
  | nil => exact h
  | cons x ws ih =>
    rw [applyAll_cons]
    apply ih
    cases x with
    | insertOutbox row => exact List.mem_append_left _ h
    | _ => exact h

variable {share bps : Int} {o : OrderEntity} {history : List (Pid × List Write)} {p : Pid}

theorem lasting_of {orderId : Nat} {kind : TransactionType} :
    Lasting fun t => t.orderId = some orderId ∧ t.transactionType = kind :=
  ⟨fun _ _ h => h, fun _ _ h => h⟩

theorem lasting_succeeded {orderId : Nat} {kind : TransactionType} :
    Lasting fun t => t.orderId = some orderId ∧ t.transactionType = kind ∧
      t.status = .succeeded :=
  ⟨fun _ _ h => ⟨h.1, h.2.1, rfl⟩, fun _ _ h => h⟩

/-- A settled order stays settled. -/
theorem SettledAt.mono (h : SettledAt share bps o db history) (hws : ∀ x ∈ ws, x.Completing)
    (bs : List (Pid × List Write)) :
    SettledAt share bps o (engine.applyAll ws db) (history ++ bs) where
  credited := by
    obtain ⟨b, hb, hdone⟩ := h.credited
    exact ⟨b, List.mem_append_left _ hb, hdone⟩
  commission hpos := transaction_applyAll lasting_of hws (h.commission hpos)
  cash hcod := transaction_applyAll lasting_succeeded hws (h.cash hcod)
  earning hpos := by
    obtain ⟨e, he, hof⟩ := h.earning hpos
    exact ⟨e, earnings_grow ws he, hof⟩
  event := by
    obtain ⟨row, hrow, hkind⟩ := h.event
    exact ⟨row, outbox_grows ws hrow, hkind⟩

end Keeping

section Settling
variable {seen : Db → Prop} {log part : List Write} {order : OrderEntity} {agentId : Nat}
  {share bps amount : Int} {transfer : TransactionData} {due : Prop} {db : Db}

theorem transactionOf_some {orderId : Nat} {kind : TransactionType} {t : TransactionEntity}
    (h : db.transactionOf orderId kind = some t) :
    t ∈ db.transactions ∧ t.orderId = some orderId ∧ t.transactionType = kind :=
  ⟨List.mem_of_find?_eq_some h, by simpa using List.find?_some h⟩

/-- A transfer that is due has its row, found or booked. -/
theorem Booked.recorded (h : Booked seen log order transfer due part) (hdue : due)
    (hseen : ∀ d, seen d → d = db) (hid : order.id ≠ 0) (hof : transfer.orderId = some order.id) :
    ∃ t ∈ (engine.applyAll (log ++ part) db).transactions,
      t.orderId = some order.id ∧ t.transactionType = transfer.transactionType := by
  cases h with
  | notDue hno => exact absurd hdue hno
  | found _ hdb ht =>
    rw [hseen _ hdb] at ht
    rw [List.append_nil]
    exact ⟨_, transactionOf_some ht⟩
  | booked id now _ _ _ =>
    rw [applyAll_append]
    refine ⟨transfer.toEntity id now, List.mem_append_right _ List.mem_cons_self, ?_, rfl⟩
    exact (congrArg orNull hof).trans (orNull_of_ne hid)

/-- The cash of a cash order is recorded, found, completed or booked. -/
theorem Collected.recorded (h : Collected seen log order part) (hcod : order.paymentMethod = .cod)
    (hseen : ∀ d, seen d → d = db) (hid : order.id ≠ 0) :
    ∃ t ∈ (engine.applyAll (log ++ part) db).transactions,
      t.orderId = some order.id ∧ t.transactionType = .codCollection ∧ t.status = .succeeded := by
  cases h with
  | notCash hno => exact absurd hcod hno
  | found _ hdb ht hstatus =>
    rw [hseen _ hdb] at ht
    rw [List.append_nil]
    obtain ⟨hmem, hof, hkind⟩ := transactionOf_some ht
    exact ⟨_, hmem, hof, hkind, hstatus⟩
  | completed now _ hdb ht _ =>
    rw [hseen _ hdb] at ht
    obtain ⟨hmem, hof, hkind⟩ := transactionOf_some ht
    rw [applyAll_append]
    refine ⟨_, List.mem_map.mpr ⟨_, hmem, rfl⟩, ?_⟩
    rw [if_pos rfl]
    exact ⟨hof, hkind, rfl⟩
  | booked id now _ _ _ =>
    rw [applyAll_append]
    refine ⟨(codCollection order).toEntity id now, List.mem_append_right _ List.mem_cons_self,
      orNull_of_ne hid, rfl, rfl⟩

theorem Earned.recorded (h : Earned seen log order agentId amount part) (hdue : 0 < amount)
    (hseen : ∀ d, seen d → d = db) :
    ∃ e ∈ (engine.applyAll (log ++ part) db).agentEarnings, e.orderId = order.id := by
  cases h with
  | notDue hno => exact absurd hdue hno
  | found _ hdb hany =>
    rw [hseen _ hdb] at hany
    rw [List.append_nil]
    obtain ⟨e, he, hof⟩ := List.any_eq_true.mp hany
    exact ⟨e, he, by simpa using hof⟩
  | earned id clock _ =>
    rw [applyAll_append]
    exact ⟨_, List.mem_append_right _ List.mem_cons_self, rfl⟩

end Settling

section Calls
variable {p : Pid} {db db' : Db} {history history' : List (Pid × List Write)} {share : Int}

/-- The calls that may write the status of a delivered order. -/
def Call.delivers : Call → Bool
  | .agentUpdateStatus _ _ _ .delivered => true
  | .updateStatus _ dto _ _ => dto.status = .delivered
  | _ => false

end Calls

section Runs
variable (hmacSha256 : String → String → String) (cfg : Config)

/-- What a call keeps while others run, it keeps by itself. -/
theorem runAlone_shared {I : Db → List (Pid × List Write) → Prop} {p : Pid} {α : Type}
    {prog : Svc α} {es : List Env} {w : World} {Q : Except Err α → World → Prop}
    (hi : (sharedSpec I).inv w) (hwp : wp machine anyOp (sharedSpec I) p prog Q w) :
    I (machine.runAlone p prog es w).2.store.db (machine.runAlone p prog es w).2.store.history := by
  have hmeets : RunMeets machine anyOp (fun _ => True) p prog es w :=
    runMeets_of_answers prog (fun _ _ _ _ => trivial) w
  have hsound := runAlone_sound (fun v => (sharedSpec_fits I).refl p v) hi hwp hmeets
  cases hrun : machine.runAlone p prog es w with
  | mk outcome w' =>
    rw [hrun] at hsound
    cases outcome with
    | returned a => exact hsound.1.2
    | threw e => exact hsound.1.2
    | crashed =>
      obtain ⟨v, hv, _, rfl⟩ := hsound
      exact hv.2

end Runs

section Samples

def emptyShard : World := { store := Store.ofDb {} }

theorem emptyShard_atRest : emptyShard.AtRest := ⟨rfl, fun _ => rfl, rfl⟩

/-- One dish of 100.00 pounds, brought for 15.00. -/
def kosharyAnswers : Env :=
  { uuid := "order-1"
    branch := ⟨1, 1, "active", some 9, "eg", 0, 0, true, true, 1500, "EGP", some 1000, "", ""⟩
    address := ⟨1, 5, "", "", "", "", 0, 0⟩
    products := [⟨3, "koshary", none, 10000, 4, true⟩] }

def placeCashOrder : Call :=
  .placeOrder ⟨5, .other "customer", none, none, none⟩ (some "eg") ⟨1, 1, .cod, [⟨3, 1⟩]⟩

def restaurantOwner : ActorContext := ⟨9, .restaurantUser, some 1, some "owner", none⟩

end Samples

end OrderService
