import OrderService.ArchivalOrphans

/-! The ids and years of the rows that the worker sweeps: the other operations add to them, and a
batch takes the rows of former years away. -/
namespace OrderService
open ReadCommitted Interleaving

section Statement

/-- What the worker goes by: the id of a row, and when it was created. -/
def ArchivalRow.key (row : ArchivalRow) : Nat × Time := (row.id, row.tsColumn)

def Db.keys (db : Db) (table : ArchivalTable) : List (Nat × Time) :=
  (db.rows table).map ArchivalRow.key

/-- The keys of the rows from before a year. -/
def Db.prior (db : Db) (year : Time) (table : ArchivalTable) : List (Nat × Time) :=
  (db.keys table).filter fun k => k.2 < year

/-- No two rows of a table have the same id. -/
def Db.UniqueIds (db : Db) : Prop :=
  ∀ table ∈ archivalTables, ((db.rows table).map ArchivalRow.id).Nodup

instance (db : Db) : Decidable db.UniqueIds :=
  inferInstanceAs (Decidable (∀ table ∈ archivalTables, ((db.rows table).map ArchivalRow.id).Nodup))

/-- The row that a write adds to a table that the worker sweeps. -/
def Write.inserted : Write → Option (ArchivalTable × ArchivalRow)
  | .insertOrder row => some (.orders, .order row)
  | .insertOrderItem row => some (.orderItems, .orderItem row)
  | .insertSession row => some (.paymentSessions, .paymentSession row)
  | .insertTransaction row => some (.transactions, .transaction row)
  | .insertEarning row => some (.agentEarnings, .agentEarning row)
  | .insertWebhookEvent row => some (.paymentWebhookEvents, .webhookEvent row)
  | _ => none

/-- No write adds a row from before a year. -/
def Current (year : Time) (log : List Write) : Prop :=
  ∀ x ∈ log, ∀ added ∈ x.inserted, year ≤ added.2.tsColumn

instance (year : Time) (log : List Write) : Decidable (Current year log) :=
  inferInstanceAs (Decidable (∀ x ∈ log, ∀ added ∈ x.inserted, year ≤ added.2.tsColumn))

end Statement

section Writes

variable {db : Db} {year : Time} {table : ArchivalTable} {x : Write}

def Write.added (x : Write) (table : ArchivalTable) : List (Nat × Time) :=
  match x.inserted with
  | some (other, row) => if other = table then [row.key] else []
  | none => []

theorem withStatus_createdAt (o : OrderEntity) (status : OrderStatus) (stamp : Option Stamp)
    (now : Time) : (o.withStatus status stamp now).createdAt = o.createdAt :=
  withStatus_field OrderEntity.createdAt (fun _ _ _ => rfl) (fun _ _ c => by cases c <;> rfl) o _ _ _

/-- A write keeps the keys of a table and adds at most the one of its new row. -/
theorem keys_apply (x : Write) (db : Db) (table : ArchivalTable) :
    (x.apply db).keys table = db.keys table ++ x.added table := by
  cases x <;> cases table <;>
    simp [Write.apply, Db.keys, Db.rows, Write.added, Write.inserted, ArchivalRow.key,
      ArchivalRow.id, ArchivalRow.tsColumn]
  all_goals
    intro a _
    split_ifs
    · exact ⟨by simp [OrderEntity.assignTo], by simp [OrderEntity.assignTo, withStatus_createdAt]⟩
    · exact ⟨rfl, rfl⟩

theorem prior_apply (hcurrent : ∀ added ∈ x.inserted, year ≤ added.2.tsColumn) :
    (x.apply db).prior year table = db.prior year table := by
  have hadded : (x.added table).filter (fun k => k.2 < year) = [] := by
    rw [List.filter_eq_nil_iff]
    intro k hk
    unfold Write.added at hk
    cases hx : x.inserted with
    | none => simp [hx] at hk
    | some added =>
      simp only [hx] at hk
      split_ifs at hk
      · have hyear := hcurrent added hx
        rw [List.mem_singleton.mp hk]
        exact fun h => Nat.not_lt.mpr hyear (of_decide_eq_true h)
      · cases hk
  unfold Db.prior
  rw [keys_apply, List.filter_append, hadded, List.append_nil]

theorem mem_keys_apply {k : Nat × Time} (h : k ∈ db.keys table) : k ∈ (x.apply db).keys table := by
  rw [keys_apply]
  exact List.mem_append_left _ h

variable {log : List Write}

/-- The other calls leave the rows of former years as they are, and take no row away. -/
theorem keys_applyAll (hcurrent : Current year log) :
    (engine.applyAll log db).prior year table = db.prior year table ∧
      db.keys table ⊆ (engine.applyAll log db).keys table := by
  induction log generalizing db with
  | nil => exact ⟨rfl, fun _ h => h⟩
  | cons x log ih =>
    have hrest : Current year log := fun y hy => hcurrent y (List.mem_cons_of_mem x hy)
    obtain ⟨hprior, hkept⟩ := @ih (x.apply db) hrest
    rw [applyAll_cons]
    refine ⟨hprior.trans (prior_apply (hcurrent x List.mem_cons_self)), fun k hk => ?_⟩
    exact hkept (mem_keys_apply hk)

end Writes

section Deletes

variable {db : Db} {year now : Time} {table : ArchivalTable} {ids : List Nat} {limit : Nat}
  {rows : List ArchivalRow}

theorem keys_deleteIds (other : ArchivalTable) : (db.deleteIds ids table).keys other
    = if other = table then (db.keys other).filter fun k => k.1 ∉ ids else db.keys other := by
  unfold Db.keys
  rw [rows_deleteIds]
  split_ifs
  · rw [List.filter_map]
    rfl
  · rfl

theorem Db.UniqueIds.keys (h : db.UniqueIds) (table : ArchivalTable) :
    ((db.keys table).map Prod.fst).Nodup := by
  have hids := h table (mem_archivalTables table)
  unfold Db.keys
  rw [List.map_map]
  exact hids

/-- Of two keys of a table with the same id there is only one. -/
theorem Db.UniqueIds.eq (h : db.UniqueIds) {k k' : Nat × Time} (hk : k ∈ db.keys table)
    (hk' : k' ∈ db.keys table) (hid : k.1 = k'.1) : k = k' :=
  List.inj_on_of_nodup_map (h.keys table) hk hk' hid

/-- Rows of former years that are in the table, no two of them with one id. -/
structure Batch (year : Time) (table : ArchivalTable) (rows : List ArchivalRow) (db : Db) : Prop where
  ids : (rows.map ArchivalRow.id).Nodup
  prior : ∀ row ∈ rows, row.key ∈ db.prior year table

theorem batch_priorYears (hunique : db.UniqueIds) :
    Batch (dateTruncYear now) table (db.priorYears table now limit) db := by
  constructor
  · have hsorted : ((((db.rows table).filter fun r => r.tsColumn < dateTruncYear now).insertionSort
        fun a b => a.id ≤ b.id).map ArchivalRow.id).Nodup := by
      have hperm := (List.perm_insertionSort (fun a b : ArchivalRow => a.id ≤ b.id)
        ((db.rows table).filter fun r => r.tsColumn < dateTruncYear now)).map ArchivalRow.id
      apply hperm.nodup_iff.mpr
      exact (hunique table (mem_archivalTables table)).sublist (List.filter_sublist.map _)
    exact hsorted.sublist ((List.take_sublist _ _).map _)
  · intro row hrow
    obtain ⟨hmem, hprior⟩ := mem_priorYears hrow
    exact List.mem_filter.mpr ⟨List.mem_map_of_mem hmem, decide_eq_true hprior⟩

theorem mem_prior {k : Nat × Time} : k ∈ db.prior year table ↔ k ∈ db.keys table ∧ k.2 < year := by
  simp [Db.prior, List.mem_filter]

/-- A row of this year has none of the ids of a batch. -/
theorem Batch.spares (h : Batch year table rows db) (hunique : db.UniqueIds) {k : Nat × Time}
    (hk : k ∈ db.keys table) (hcurrent : year ≤ k.2) : k.1 ∉ rows.map ArchivalRow.id := by
  intro hid
  obtain ⟨row, hrow, hsame⟩ := List.mem_map.mp hid
  obtain ⟨hold, hprior⟩ := mem_prior.mp (h.prior row hrow)
  have heq : row.key = k := hunique.eq hold hk hsame
  rw [heq] at hprior
  exact Nat.not_lt.mpr hcurrent hprior

theorem Batch.keys (h : Batch year table rows db) : (rows.map ArchivalRow.key).Nodup := by
  apply List.Nodup.of_map Prod.fst
  rw [List.map_map]
  exact h.ids

theorem Batch.length_le (h : Batch year table rows db) :
    rows.length ≤ (db.prior year table).length := by
  have hsubset : rows.map ArchivalRow.key ⊆ db.prior year table := by
    intro k hk
    obtain ⟨row, hrow, rfl⟩ := List.mem_map.mp hk
    exact h.prior row hrow
  have hle := (List.subperm_of_subset h.keys hsubset).length_le
  rwa [List.length_map] at hle

/-- Deleting a batch takes as many rows of former years as it has. -/
theorem Batch.count (h : Batch year table rows db) (hunique : db.UniqueIds) :
    ((db.deleteIds (rows.map ArchivalRow.id) table).prior year table).length + rows.length
      = (db.prior year table).length := by
  have hkeys : (db.prior year table).Nodup :=
    ((hunique.keys table).of_map _).filter _
  -- The keys that go are those of the batch.
  have hgone : ((db.prior year table).filter fun k => k.1 ∈ rows.map ArchivalRow.id).length
      = rows.length := by
    rw [← List.length_map ArchivalRow.key]
    apply List.Perm.length_eq
    rw [List.perm_ext_iff_of_nodup (hkeys.filter _) h.keys]
    intro k
    simp only [List.mem_filter, decide_eq_true_eq]
    constructor
    · rintro ⟨hk, hid⟩
      obtain ⟨row, hrow, hsame⟩ := List.mem_map.mp hid
      have heq : row.key = k :=
        hunique.eq (mem_prior.mp (h.prior row hrow)).1 (mem_prior.mp hk).1 hsame
      exact List.mem_map.mpr ⟨row, hrow, heq⟩
    · intro hk
      obtain ⟨row, hrow, rfl⟩ := List.mem_map.mp hk
      exact ⟨h.prior row hrow, List.mem_map.mpr ⟨row, hrow, rfl⟩⟩
  have hstay : (db.deleteIds (rows.map ArchivalRow.id) table).prior year table
      = (db.prior year table).filter fun k => k.1 ∉ rows.map ArchivalRow.id := by
    unfold Db.prior
    rw [keys_deleteIds, if_pos rfl, List.filter_comm]
  have hsplit := List.length_eq_length_filter_add (l := db.prior year table)
    fun k => decide (k.1 ∈ rows.map ArchivalRow.id)
  rw [hstay, hsplit, hgone]
  simp only [decide_not]
  omega

end Deletes

end OrderService
