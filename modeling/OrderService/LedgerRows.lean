import OrderService.Knowledge
import OrderService.Rows

/-! What the rows of the ledger must say, and the writes that keep it: a row may appear once the
rows that it refers to are there. -/
namespace OrderService
open ReadCommitted Interleaving

section Terms

/-- The columns of an order that no statement changes, as far as the ledger repeats them. -/
structure OrderTerms where
  id : Nat
  publicId : String
  subtotal : Int
  total : Int
  currency : String
  paymentMethod : PaymentMethod

def OrderEntity.terms (o : OrderEntity) : OrderTerms :=
  ⟨o.id, o.publicId, o.subtotal, o.total, o.currency, o.paymentMethod⟩

structure SessionTerms where
  id : Nat
  orderId : Nat
  amount : Int
  currency : String

def PaymentSessionEntity.terms (s : PaymentSessionEntity) : SessionTerms :=
  ⟨s.id, s.orderId, s.amount, s.currency⟩

def Db.HasOrder (db : Db) (o : OrderTerms) : Prop := ∃ row ∈ db.orders, row.terms = o

def Db.HasSession (db : Db) (s : SessionTerms) : Prop := ∃ row ∈ db.paymentSessions, row.terms = s

def Db.HasCaptured (db : Db) (s : SessionTerms) : Prop :=
  ∃ row ∈ db.paymentSessions, row.terms = s ∧ row.status = .captured

end Terms

section WellFormed

structure OrderTerms.WellFormed (o : OrderTerms) : Prop where
  subtotal : 0 ≤ o.subtotal
  total : 0 < o.total

/-- The session asks for the total of an order that is paid online. -/
structure SessionTerms.PaysFor (s : SessionTerms) (o : OrderTerms) : Prop where
  orderId : s.orderId = o.id
  online : o.paymentMethod = .online
  amount : s.amount = o.total
  currency : s.currency = o.currency

structure SessionTerms.WellFormed (db : Db) (s : SessionTerms) : Prop where
  amount : 0 < s.amount
  order : ∃ o, db.HasOrder o ∧ s.PaysFor o

/-- The charge books a captured session. -/
structure TransactionEntity.Charges (t : TransactionEntity) (s : SessionTerms) : Prop where
  orderId : t.orderId = orNull (some s.orderId)
  amount : t.amount = s.amount
  currency : t.currency = s.currency

structure TransactionEntity.Collects (t : TransactionEntity) (o : OrderTerms) : Prop where
  orderId : t.orderId = orNull (some o.id)
  cod : o.paymentMethod = .cod
  amount : t.amount = o.total
  key : t.idempotencyKey = some ("cod-collect:" ++ o.publicId)

structure TransactionEntity.TakesShare (t : TransactionEntity) (o : OrderTerms) : Prop where
  orderId : t.orderId = orNull (some o.id)
  amount : t.amount ≤ o.subtotal
  key : t.idempotencyKey = some ("commission:" ++ o.publicId)

structure TransactionEntity.WellFormed (db : Db) (t : TransactionEntity) : Prop where
  amount : 0 < t.amount
  charge : t.transactionType = .charge →
    ∃ s, db.HasCaptured s ∧ s.WellFormed db ∧ t.Charges s
  cod : t.transactionType = .codCollection → ∃ o, db.HasOrder o ∧ t.Collects o
  commission : t.transactionType = .commission → ∃ o, db.HasOrder o ∧ t.TakesShare o

/-- Every row of the tables says what it must. -/
structure Db.RowsWellFormed (db : Db) : Prop where
  orders : ∀ o, db.HasOrder o → o.WellFormed
  sessions : ∀ s, db.HasSession s → s.WellFormed db
  transactions : ∀ t ∈ db.transactions, t.WellFormed db

/-- Nothing of what is there goes away. -/
structure Db.GrowsTo (db db' : Db) : Prop where
  orders : ∀ o, db.HasOrder o → db'.HasOrder o
  sessions : ∀ s, db.HasSession s → db'.HasSession s
  captured : ∀ s, db.HasCaptured s → db'.HasCaptured s

/-- A row is inserted only where it is well formed, and a session only becomes captured. -/
def Write.FitsLedger : Write → Db → Prop
  | .insertOrder row, _ => row.terms.WellFormed
  | .insertSession row, db => row.terms.WellFormed db
  | .setSessionStatus _ status _, _ => status = .captured
  | .insertTransaction row, db => row.WellFormed db
  | _, _ => True

end WellFormed

section Writes
variable {db db' : Db} {x : Write}

theorem withStatus_terms (o : OrderEntity) (status : OrderStatus) (stamp : Option Stamp)
    (now : Time) : (o.withStatus status stamp now).terms = o.terms := by
  cases stamp with
  | none => rfl
  | some c => cases c <;> rfl

/-- A column that no update changes has the values of before, and that of an inserted order. -/
theorem exists_order_apply {α : Type} {f : OrderEntity → α}
    (hstatus : ∀ o status stamp now, f (o.withStatus status stamp now) = f o)
    (hassign : ∀ (o : OrderEntity) agentId now, f (o.assignTo agentId now) = f o) (x : Write)
    (db : Db) (a : α) : (∃ row ∈ (engine.apply x db).orders, f row = a) ↔
      (∃ row ∈ db.orders, f row = a) ∨ ∃ row, x = .insertOrder row ∧ f row = a := by
  have hmap : ∀ g : OrderEntity → OrderEntity, (∀ row, f (g row) = f row) →
      ((∃ row ∈ db.orders.map g, f row = a) ↔ ∃ row ∈ db.orders, f row = a) := by
    intro g hg
    simp only [List.mem_map, exists_exists_and_eq_and, hg]
  cases x with
  | insertOrder row =>
    simp [engine, Write.apply, or_and_right, exists_or, eq_comm]
  | setOrderStatus publicId status stamp now =>
    have hsame := hmap (fun row => if row.publicId = publicId then
      row.withStatus status stamp now else row) (fun row => by
        split
        · exact hstatus row status stamp now
        · rfl)
    simpa [engine, Write.apply] using hsame
  | assignOrder publicId agentId now =>
    have hsame := hmap (fun row => if row.publicId = publicId ∧ row.claimable then
      row.assignTo agentId now else row) (fun row => by
        split
        · exact hassign row agentId now
        · rfl)
    simpa [engine, Write.apply] using hsame
  | _ => simp [engine, Write.apply]

theorem hasOrder_apply (x : Write) (db : Db) (o : OrderTerms) :
    (engine.apply x db).HasOrder o ↔
      db.HasOrder o ∨ ∃ row, x = .insertOrder row ∧ row.terms = o :=
  exists_order_apply withStatus_terms (fun _ _ _ => rfl) x db o

theorem hasSession_apply (x : Write) (db : Db) (s : SessionTerms) :
    (engine.apply x db).HasSession s ↔
      db.HasSession s ∨ ∃ row, x = .insertSession row ∧ row.terms = s := by
  cases x with
  | insertSession row =>
    simp [Db.HasSession, engine, Write.apply, or_and_right, exists_or, eq_comm]
  | setSessionStatus id status now =>
    have hterms : ∀ row : PaymentSessionEntity,
        (if row.id = id then { row with status := status, updatedAt := now } else row).terms
          = row.terms := fun row => by split <;> rfl
    simp [Db.HasSession, engine, Write.apply, hterms]
  | _ => simp [Db.HasSession, engine, Write.apply]

theorem hasCaptured_insertSession (row : PaymentSessionEntity) (db : Db) (s : SessionTerms) :
    (engine.apply (.insertSession row) db).HasCaptured s ↔
      db.HasCaptured s ∨ (row.terms = s ∧ row.status = .captured) := by
  simp [Db.HasCaptured, engine, Write.apply, or_and_right, exists_or]

theorem hasCaptured_setSessionStatus (id : Nat) (status : PaymentSessionStatus) (now : Time)
    (db : Db) (s : SessionTerms) :
    (engine.apply (.setSessionStatus id status now) db).HasCaptured s ↔
      (s.id = id ∧ status = .captured ∧ db.HasSession s) ∨ (s.id ≠ id ∧ db.HasCaptured s) := by
  have hterms : ∀ row : PaymentSessionEntity,
      (if row.id = id then { row with status := status, updatedAt := now } else row).terms
        = row.terms := fun row => by split <;> rfl
  have hid : ∀ row : PaymentSessionEntity, row.terms = s → row.id = s.id := by
    rintro row rfl
    rfl
  simp only [Db.HasCaptured, Db.HasSession, engine, Write.apply, List.mem_map,
    exists_exists_and_eq_and, hterms]
  constructor
  · rintro ⟨row, hrow, hs, hstatus⟩
    by_cases h : row.id = id
    · rw [if_pos h] at hstatus
      exact .inl ⟨(hid row hs).symm.trans h, hstatus, row, hrow, hs⟩
    · rw [if_neg h] at hstatus
      exact .inr ⟨fun heq => h ((hid row hs).trans heq), row, hrow, hs, hstatus⟩
  · rintro (⟨h, hstatus, row, hrow, hs⟩ | ⟨h, row, hrow, hs, hstatus⟩)
    · exact ⟨row, hrow, hs, by rw [if_pos ((hid row hs).trans h)]; exact hstatus⟩
    · exact ⟨row, hrow, hs,
        by rw [if_neg fun heq => h ((hid row hs).symm.trans heq)]; exact hstatus⟩

theorem Db.GrowsTo.apply (h : db.GrowsTo db') (x : Write) :
    (engine.apply x db).GrowsTo (engine.apply x db') := by
  refine ⟨fun o => ?_, fun s => ?_, fun s => ?_⟩
  · rw [hasOrder_apply, hasOrder_apply]
    exact Or.imp_left (h.orders o)
  · rw [hasSession_apply, hasSession_apply]
    exact Or.imp_left (h.sessions s)
  · cases x with
    | insertSession row =>
      rw [hasCaptured_insertSession, hasCaptured_insertSession]
      exact Or.imp_left (h.captured s)
    | setSessionStatus id status now =>
      rw [hasCaptured_setSessionStatus, hasCaptured_setSessionStatus]
      exact Or.imp (fun ⟨hid, hstatus, hs⟩ => ⟨hid, hstatus, h.sessions s hs⟩)
        fun ⟨hid, hs⟩ => ⟨hid, h.captured s hs⟩
    | _ => exact h.captured s

theorem SessionTerms.WellFormed.mono {s : SessionTerms} (hs : s.WellFormed db)
    (h : db.GrowsTo db') : s.WellFormed db' := by
  obtain ⟨o, ho, hpays⟩ := hs.order
  exact ⟨hs.amount, o, h.orders o ho, hpays⟩

theorem TransactionEntity.WellFormed.mono {t : TransactionEntity} (ht : t.WellFormed db)
    (h : db.GrowsTo db') : t.WellFormed db' := by
  refine ⟨ht.amount, fun hkind => ?_, fun hkind => ?_, fun hkind => ?_⟩
  · obtain ⟨s, hcaptured, hs, hcharges⟩ := ht.charge hkind
    exact ⟨s, h.captured s hcaptured, hs.mono h, hcharges⟩
  · obtain ⟨o, ho, hcollects⟩ := ht.cod hkind
    exact ⟨o, h.orders o ho, hcollects⟩
  · obtain ⟨o, ho, hshare⟩ := ht.commission hkind
    exact ⟨o, h.orders o ho, hshare⟩

/-- Only these columns count. -/
theorem TransactionEntity.WellFormed.of_same {t t' : TransactionEntity} (ht : t.WellFormed db)
    (hkind : t'.transactionType = t.transactionType) (horder : t'.orderId = t.orderId)
    (hamount : t'.amount = t.amount) (hcurrency : t'.currency = t.currency)
    (hkey : t'.idempotencyKey = t.idempotencyKey) : t'.WellFormed db := by
  refine ⟨hamount ▸ ht.amount, fun h => ?_, fun h => ?_, fun h => ?_⟩
  · obtain ⟨s, hcaptured, hs, hcharges⟩ := ht.charge (hkind.symm.trans h)
    exact ⟨s, hcaptured, hs, horder.trans hcharges.orderId, hamount.trans hcharges.amount,
      hcurrency.trans hcharges.currency⟩
  · obtain ⟨o, ho, hcollects⟩ := ht.cod (hkind.symm.trans h)
    exact ⟨o, ho, horder.trans hcollects.orderId, hcollects.cod, hamount.trans hcollects.amount,
      hkey.trans hcollects.key⟩
  · obtain ⟨o, ho, hshare⟩ := ht.commission (hkind.symm.trans h)
    exact ⟨o, ho, horder.trans hshare.orderId, hamount.symm ▸ hshare.amount,
      hkey.trans hshare.key⟩

theorem Write.FitsLedger.mono (hx : x.FitsLedger db) (h : db.GrowsTo db') : x.FitsLedger db' := by
  cases x with
  | insertSession row => exact SessionTerms.WellFormed.mono hx h
  | insertTransaction row => exact TransactionEntity.WellFormed.mono hx h
  | insertOrder row => exact hx
  | setSessionStatus id status now => exact hx
  | _ => trivial

theorem Write.FitsLedger.grows (hx : x.FitsLedger db) : db.GrowsTo (engine.apply x db) := by
  refine ⟨fun o ho => (hasOrder_apply x db o).mpr (.inl ho),
    fun s hs => (hasSession_apply x db s).mpr (.inl hs), fun s hs => ?_⟩
  cases x with
  | insertSession row => exact (hasCaptured_insertSession row db s).mpr (.inl hs)
  | setSessionStatus id status now =>
    rw [hasCaptured_setSessionStatus]
    by_cases hid : s.id = id
    · obtain ⟨row, hrow, hterms, _⟩ := hs
      exact .inl ⟨hid, hx, row, hrow, hterms⟩
    · exact .inr ⟨hid, hs⟩
  | _ => exact hs

/-- The transactions after a write: the inserted one, or one that was there with another status
or refund mark. -/
theorem transactions_apply {t : TransactionEntity} (ht : t ∈ (engine.apply x db).transactions) :
    x = .insertTransaction t ∨ ∃ t₀ ∈ db.transactions,
      ∀ db', t₀.WellFormed db' → t.WellFormed db' := by
  cases x with
  | insertTransaction row =>
    rcases List.mem_append.mp ht with ht | ht
    · exact .inr ⟨t, ht, fun _ h => h⟩
    · exact .inl (by rw [List.mem_singleton.mp ht])
  | setTransactionStatus id status now =>
    obtain ⟨t₀, ht₀, rfl⟩ := List.mem_map.mp ht
    refine .inr ⟨t₀, ht₀, fun db' h => ?_⟩
    split
    · exact h.of_same rfl rfl rfl rfl rfl
    · exact h
  | markRefunded id now =>
    obtain ⟨t₀, ht₀, rfl⟩ := List.mem_map.mp ht
    refine .inr ⟨t₀, ht₀, fun db' h => ?_⟩
    split
    · exact h.of_same rfl rfl rfl rfl rfl
    · exact h
  | _ => exact .inr ⟨t, ht, fun _ h => h⟩

theorem Db.RowsWellFormed.apply (h : db.RowsWellFormed) (hx : x.FitsLedger db) :
    (engine.apply x db).RowsWellFormed := by
  have hgrows := hx.grows
  refine ⟨fun o ho => ?_, fun s hs => ?_, fun t ht => ?_⟩
  · rcases (hasOrder_apply x db o).mp ho with ho | ⟨row, rfl, rfl⟩
    · exact h.orders o ho
    · exact hx
  · rcases (hasSession_apply x db s).mp hs with hs | ⟨row, rfl, rfl⟩
    · exact (h.sessions s hs).mono hgrows
    · exact SessionTerms.WellFormed.mono hx hgrows
  · rcases transactions_apply ht with rfl | ⟨t₀, ht₀, hsame⟩
    · exact TransactionEntity.WellFormed.mono hx hgrows
    · exact hsame _ ((h.transactions t₀ ht₀).mono hgrows)

end Writes

/-- The ledger grows by rows that are well formed. -/
def ledgerGrowth : Growth engine where
  le := Db.GrowsTo
  fits := Write.FitsLedger
  sound := Db.RowsWellFormed
  le_refl _ := ⟨fun _ h => h, fun _ h => h, fun _ h => h⟩
  le_trans h h' := ⟨fun o ho => h'.orders o (h.orders o ho),
    fun s hs => h'.sessions s (h.sessions s hs), fun s hs => h'.captured s (h.captured s hs)⟩
  apply_mono x h := h.apply x
  fits_mono h hx := hx.mono h
  grows hx := hx.grows
  sound_apply h hx := h.apply hx

end OrderService
