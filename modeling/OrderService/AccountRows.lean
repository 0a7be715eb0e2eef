import OrderService.LedgerRows
import OrderService.Services.Refund

/-! The account of the restaurant in the rows of the ledger: what a row may say about it, by what
the rows that it refers to say. -/
namespace OrderService
open ReadCommitted Interleaving

section Terms

/-- The columns of an order that the accounts are taken from. -/
structure AccountTerms where
  id : Nat
  restaurantId : Nat
  restaurantOwnerId : Nat

def OrderEntity.accounts (o : OrderEntity) : AccountTerms :=
  ⟨o.id, o.restaurantId, o.restaurantOwnerId⟩

/-- What a refund repeats of its charge. -/
structure ChargeTerms where
  orderId : Option Nat
  dstAccId : Option Nat

def TransactionEntity.chargeTerms (t : TransactionEntity) : ChargeTerms := ⟨t.orderId, t.dstAccId⟩

def Db.HasAccounts (db : Db) (o : AccountTerms) : Prop := ∃ row ∈ db.orders, row.accounts = o

def Db.HasCharge (db : Db) (c : ChargeTerms) : Prop :=
  ∃ row ∈ db.transactions, row.transactionType = .charge ∧ row.chargeTerms = c

/-- The side of a row that is the restaurant's. -/
def TransactionEntity.restaurantAccount (t : TransactionEntity) : Option Nat :=
  match t.transactionType with
  | .charge => t.dstAccId
  | .codCollection => t.dstAccId
  | .payout => t.dstAccId
  | .commission => t.srcAccId
  | .adjustment => t.srcAccId
  | .refund => t.srcAccId

/-- The account that a charge names when core answers with this owner, or with none. -/
def accountGiven (owner : Option Nat) (o : AccountTerms) : Nat :=
  (orNull owner).getD o.restaurantId

end Terms

section Rows
variable (owners : String → Option Nat)

/-- A row names the restaurant as its source does: a charge by the answer to its webhook, a refund
by the charge, a settlement by the order. A payout is for no order. -/
structure TransactionEntity.Accounted (db : Db) (t : TransactionEntity) : Prop where
  charge : t.transactionType = .charge → ∃ o, db.HasAccounts o ∧ t.orderId = orNull (some o.id) ∧
    t.dstAccId = orNull (some (accountGiven (owners (t.providerReferenceId.getD "")) o))
  refund : t.transactionType = .refund → ∃ c, db.HasCharge c ∧ t.orderId = c.orderId ∧
    t.srcAccId = c.dstAccId
  settled : t.transactionType ≠ .charge → t.transactionType ≠ .refund →
    t.transactionType ≠ .payout → ∃ o, db.HasAccounts o ∧ t.orderId = orNull (some o.id) ∧
      t.restaurantAccount = orNull (some o.restaurantOwnerId)
  payout : t.transactionType = .payout → t.orderId = none

def Db.RowsAccounted (db : Db) : Prop := ∀ t ∈ db.transactions, t.Accounted owners db

/-- Nothing of what the accounts are taken from goes away. -/
structure Db.KeepsAccounts (db db' : Db) : Prop where
  orders : ∀ o, db.HasAccounts o → db'.HasAccounts o
  charges : ∀ c, db.HasCharge c → db'.HasCharge c

def Write.FitsAccounts : Write → Db → Prop
  | .insertTransaction row, db => row.Accounted owners db
  | _, _ => True

end Rows

section Writes
variable {owners : String → Option Nat} {db db' : Db} {x : Write}

theorem withStatus_accounts (o : OrderEntity) (status : OrderStatus) (stamp : Option Stamp)
    (now : Time) : (o.withStatus status stamp now).accounts = o.accounts :=
  withStatus_field OrderEntity.accounts (fun _ _ _ => rfl) (fun _ _ c => by cases c <;> rfl) o _ _ _

theorem hasAccounts_apply (x : Write) (db : Db) (o : AccountTerms) :
    (engine.apply x db).HasAccounts o ↔
      db.HasAccounts o ∨ ∃ row, x = .insertOrder row ∧ row.accounts = o :=
  exists_order_apply withStatus_accounts (fun _ _ _ => rfl) x db o

theorem hasCharge_apply (x : Write) (db : Db) (c : ChargeTerms) :
    (engine.apply x db).HasCharge c ↔ db.HasCharge c ∨
      ∃ row, x = .insertTransaction row ∧ row.transactionType = .charge ∧ row.chargeTerms = c := by
  have hmap : ∀ f : TransactionEntity → TransactionEntity,
      (∀ row, (f row).transactionType = row.transactionType ∧
        (f row).chargeTerms = row.chargeTerms) →
      ((∃ row ∈ db.transactions.map f, row.transactionType = .charge ∧ row.chargeTerms = c) ↔
        ∃ row ∈ db.transactions, row.transactionType = .charge ∧ row.chargeTerms = c) := by
    intro f hf
    simp only [List.mem_map, exists_exists_and_eq_and, (hf _).1, (hf _).2]
  cases x with
  | insertTransaction row =>
    simp [Db.HasCharge, engine, Write.apply, or_and_right, exists_or]
  | setTransactionStatus id status now =>
    have hsame := hmap (fun t => if t.id = id then { t with status := status, updatedAt := now }
      else t) (fun row => by split <;> exact ⟨rfl, rfl⟩)
    simpa [Db.HasCharge, engine, Write.apply] using hsame
  | markRefunded id now =>
    have hsame := hmap (fun t => if t.id = id then { t with isRefunded := true, updatedAt := now }
      else t) (fun row => by split <;> exact ⟨rfl, rfl⟩)
    simpa [Db.HasCharge, engine, Write.apply] using hsame
  | _ => simp [Db.HasCharge, engine, Write.apply]

theorem Db.KeepsAccounts.apply (h : db.KeepsAccounts db') (x : Write) :
    (engine.apply x db).KeepsAccounts (engine.apply x db') := by
  refine ⟨fun o => ?_, fun c => ?_⟩
  · rw [hasAccounts_apply, hasAccounts_apply]
    exact Or.imp_left (h.orders o)
  · rw [hasCharge_apply, hasCharge_apply]
    exact Or.imp_left (h.charges c)

theorem keepsAccounts_apply (x : Write) (db : Db) : db.KeepsAccounts (engine.apply x db) where
  orders o ho := (hasAccounts_apply x db o).mpr (.inl ho)
  charges c hc := (hasCharge_apply x db c).mpr (.inl hc)

theorem TransactionEntity.Accounted.mono {t : TransactionEntity} (ht : t.Accounted owners db)
    (h : db.KeepsAccounts db') : t.Accounted owners db' where
  charge hkind := by
    obtain ⟨o, ho, hrow⟩ := ht.charge hkind
    exact ⟨o, h.orders o ho, hrow⟩
  refund hkind := by
    obtain ⟨c, hc, hrow⟩ := ht.refund hkind
    exact ⟨c, h.charges c hc, hrow⟩
  settled hcharge hrefund hpayout := by
    obtain ⟨o, ho, hrow⟩ := ht.settled hcharge hrefund hpayout
    exact ⟨o, h.orders o ho, hrow⟩
  payout := ht.payout

/-- The status and the refund mark say nothing about accounts. -/
theorem accounted_apply {t : TransactionEntity} (ht : t ∈ (engine.apply x db).transactions) :
    x = .insertTransaction t ∨ ∃ t₀ ∈ db.transactions,
      ∀ db', t₀.Accounted owners db' → t.Accounted owners db' := by
  cases x with
  | insertTransaction row =>
    rcases List.mem_append.mp ht with ht | ht
    · exact .inr ⟨t, ht, fun _ h => h⟩
    · exact .inl (by rw [List.mem_singleton.mp ht])
  | setTransactionStatus id status now =>
    obtain ⟨t₀, ht₀, rfl⟩ := List.mem_map.mp ht
    refine .inr ⟨t₀, ht₀, fun db' h => ?_⟩
    split
    · exact ⟨h.charge, h.refund, h.settled, h.payout⟩
    · exact h
  | markRefunded id now =>
    obtain ⟨t₀, ht₀, rfl⟩ := List.mem_map.mp ht
    refine .inr ⟨t₀, ht₀, fun db' h => ?_⟩
    split
    · exact ⟨h.charge, h.refund, h.settled, h.payout⟩
    · exact h
  | _ => exact .inr ⟨t, ht, fun _ h => h⟩

theorem Write.FitsAccounts.mono (hx : x.FitsAccounts owners db) (h : db.KeepsAccounts db') :
    x.FitsAccounts owners db' := by
  cases x with
  | insertTransaction row => exact TransactionEntity.Accounted.mono hx h
  | _ => trivial

theorem Db.RowsAccounted.apply (h : db.RowsAccounted owners) (hx : x.FitsAccounts owners db) :
    (engine.apply x db).RowsAccounted owners := by
  have hkeeps := keepsAccounts_apply x db
  intro t ht
  rcases accounted_apply ht with rfl | ⟨t₀, ht₀, hsame⟩
  · exact TransactionEntity.Accounted.mono hx hkeeps
  · exact hsame _ ((h t₀ ht₀).mono hkeeps)

end Writes

/-- The ledger grows by rows that name the restaurant as their source does. -/
def accountGrowth (owners : String → Option Nat) : Growth engine where
  le := Db.KeepsAccounts
  fits := Write.FitsAccounts owners
  sound := Db.RowsAccounted owners
  le_refl _ := ⟨fun _ h => h, fun _ h => h⟩
  le_trans h h' := ⟨fun o ho => h'.orders o (h.orders o ho),
    fun c hc => h'.charges c (h.charges c hc)⟩
  apply_mono x h := h.apply x
  fits_mono h hx := hx.mono h
  grows _ := keepsAccounts_apply _ _
  sound_apply h hx := h.apply hx

section Sources
variable (owners : String → Option Nat) {order : OrderEntity}

theorem orNull_orNull (n : Option Nat) : orNull (orNull n) = orNull n := by
  cases n with
  | none => rfl
  | some n => cases n <;> rfl

/-- A row that settles the order. -/
theorem accounted_settled {t : TransactionEntity} {db : Db} (hdb : db.HasAccounts order.accounts)
    (hcharge : t.transactionType ≠ .charge) (hrefund : t.transactionType ≠ .refund)
    (hpayout : t.transactionType ≠ .payout) (horder : t.orderId = orNull (some order.id))
    (haccount : t.restaurantAccount = orNull (some order.restaurantOwnerId)) :
    t.Accounted owners db :=
  ⟨fun h => absurd h hcharge, fun h => absurd h hrefund,
    fun _ _ _ => ⟨order.accounts, hdb, horder, haccount⟩, fun h => absurd h hpayout⟩

theorem accounted_charge {db : Db} (hdb : db.HasAccounts order.accounts) {ctx : WebhookContext}
    {session : PaymentSessionEntity} {status : TransactionStatus} {dstAccId : Nat}
    (hdst : dstAccId = accountGiven (owners ctx.transactionId) order.accounts) (id : Nat)
    (now : Time) :
    ((chargeData ctx order session status dstAccId).toEntity id now).Accounted owners db := by
  refine ⟨fun _ => ⟨order.accounts, hdb, rfl, ?_⟩, (fun h => by cases h), (fun h => absurd rfl h),
    fun h => by cases h⟩
  have hreference : (orNullText (some ctx.transactionId)).getD "" = ctx.transactionId := by
    by_cases hempty : ctx.transactionId = ""
    · rw [hempty]
      rfl
    · rw [orNullText_of_ne hempty]
      rfl
  change orNull (some dstAccId)
    = orNull (some (accountGiven (owners ((orNullText (some ctx.transactionId)).getD "")) _))
  rw [hreference, hdst]

/-- The refund of a charge whose columns are as they are stored. -/
theorem accounted_refund {tx : TransactionEntity} {db : Db} (hdb : db.HasCharge tx.chargeTerms)
    (horder : orNull tx.orderId = tx.orderId) (hdst : orNull tx.dstAccId = tx.dstAccId)
    {region : String} {result : RefundResult} {amount : Int} (id : Nat) (now : Time) :
    ((refundData region tx result amount).toEntity id now).Accounted owners db :=
  ⟨(fun h => by cases h), fun _ => ⟨tx.chargeTerms, hdb, horder, hdst⟩, (fun _ h => absurd rfl h),
    fun h => by cases h⟩

/-- Charges are stored through `orNull`. -/
theorem TransactionEntity.Accounted.stored {t : TransactionEntity} {db : Db}
    (h : t.Accounted owners db) (hkind : t.transactionType = .charge) :
    orNull t.orderId = t.orderId ∧ orNull t.dstAccId = t.dstAccId := by
  obtain ⟨o, _, horder, hdst⟩ := h.charge hkind
  rw [horder, hdst, orNull_orNull, orNull_orNull]
  exact ⟨rfl, rfl⟩

end Sources

end OrderService
