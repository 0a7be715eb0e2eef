import OrderService.ArchivalCopies
import OrderService.Interleaving.Finishing

/-! A run of the worker leaves a row in the hot cluster without its order, unless every row of an
order of a former year was itself created in one. -/
namespace OrderService
open Interleaving

section Calendar

theorem newYear_mono {m n : Nat} (h : m ≤ n) : newYear m ≤ newYear n := by
  have hsucc : ∀ k, newYear k ≤ newYear (k + 1) := by
    intro k
    apply Nat.mul_le_mul_left
    omega
  exact monotone_nat_of_le_succ hsucc h

theorem dateTruncYear_mono {s t : Time} (h : s ≤ t) : dateTruncYear s ≤ dateTruncYear t := by
  apply newYear_mono
  apply Nat.findGreatest_mono
  · intro n hn
    exact Nat.le_trans hn h
  · exact Nat.div_le_div_right h

end Calendar

section Statement

/-- The order that a row belongs to. -/
def ArchivalRow.orderId : ArchivalRow → Option Nat
  | .agentEarning row => some row.orderId
  | .webhookEvent _ => none
  | .paymentSession row => some row.orderId
  | .transaction row => row.orderId
  | .orderItem row => some row.orderId
  | .order _ => none

/-- Every row that belongs to an order has it in the same cluster. -/
def Db.NoOrphans (db : Db) : Prop :=
  ∀ table, ∀ row ∈ db.rows table, ∀ orderId, row.orderId = some orderId →
    ∃ o ∈ db.orders, o.id = orderId

/-- The rows of the orders from before the year in which a run ends are from before the year in
which it starts. -/
def Db.StampedWithin (db : Db) (start stop : Time) : Prop :=
  ∀ table, ∀ row ∈ db.rows table, ∀ o ∈ db.orders, row.orderId = some o.id →
    o.createdAt < dateTruncYear stop → row.tsColumn < dateTruncYear start

/-- Wherever a run of the worker by itself stands, stops or dies until then, no row has lost its
order. -/
def NeverOrphans (w : Clusters) (stop : Time) : Prop :=
  ∀ (settings : ArchivalSettings) (fuel : Nat) (region : String) (opts : ArchiveRunOptions)
    (p : Nat) (es : List ArchivalEnv),
    (archivalMachine.runAlone p (archiveRegion settings fuel region opts) es w).2.clock ≤ stop →
    (archivalMachine.runAlone p (archiveRegion settings fuel region opts) es w).2.hot.NoOrphans

end Statement

section Tables

variable {db : Db} {ids : List Nat} {table : ArchivalTable} {row : ArchivalRow}

theorem rows_deleteIds (other : ArchivalTable) : (db.deleteIds ids table).rows other
    = if other = table then (db.rows other).filter fun r => r.id ∉ ids else db.rows other := by
  cases table <;> cases other <;>
    simp only [Db.deleteIds, Db.rows, List.filter_map, Function.comp_def, ArchivalRow.id, if_true,
      reduceCtorEq, if_false] <;> rfl

theorem mem_rows_deleteIds {other : ArchivalTable} :
    row ∈ (db.deleteIds ids table).rows other ↔
      row ∈ db.rows other ∧ (other = table → row.id ∉ ids) := by
  rw [rows_deleteIds]
  split_ifs with h
  · simp [List.mem_filter, h]
  · simp [h]

theorem order_row_mem {o : OrderEntity} : .order o ∈ db.rows .orders ↔ o ∈ db.orders := by
  simp [Db.rows]

theorem orders_deleteIds {o : OrderEntity} : o ∈ (db.deleteIds ids table).orders ↔
    o ∈ db.orders ∧ (table = .orders → o.id ∉ ids) := by
  have h : .order o ∈ (db.deleteIds ids table).rows .orders ↔
      .order o ∈ db.rows .orders ∧ (.orders = table → o.id ∉ ids) := mem_rows_deleteIds
  rw [order_row_mem, order_row_mem] at h
  rw [h]
  constructor
  · rintro ⟨hmem, hout⟩
    exact ⟨hmem, fun heq => hout heq.symm⟩
  · rintro ⟨hmem, hout⟩
    exact ⟨hmem, fun heq => hout heq.symm⟩

theorem mem_priorYears {now : Time} {limit : Nat} (h : row ∈ db.priorYears table now limit) :
    row ∈ db.rows table ∧ row.tsColumn < dateTruncYear now := by
  have hmem := (List.mem_insertionSort _).mp (List.mem_of_mem_take h)
  simpa using List.mem_filter.mp hmem

/-- A batch that has room for all of them holds every row of a former year. -/
theorem mem_priorYears_of_le {now : Time} {limit : Nat} (hlimit : (db.rows table).length ≤ limit)
    (hrow : row ∈ db.rows table) (hprior : row.tsColumn < dateTruncYear now) :
    row ∈ db.priorYears table now limit := by
  unfold Db.priorYears
  rw [List.take_of_length_le]
  · exact (List.mem_insertionSort _).mpr (List.mem_filter.mpr ⟨hrow, by simpa using hprior⟩)
  · rw [List.length_insertionSort]
    exact Nat.le_trans (List.length_filter_le _ _) hlimit

/-- An empty batch leaves no row of a former year, or had no room. -/
theorem priorYears_empty {now : Time} {limit : Nat} (h : (db.priorYears table now limit).length = 0) :
    limit = 0 ∨ ∀ row ∈ db.rows table, dateTruncYear now ≤ row.tsColumn := by
  rw [List.length_eq_zero_iff] at h
  unfold Db.priorYears at h
  rcases List.take_eq_nil_iff.mp h with hlimit | hnone
  · exact .inl hlimit
  · right
    intro row hrow
    by_contra hlt
    have hmem : row ∈ ((db.rows table).filter fun r => r.tsColumn < dateTruncYear now).insertionSort
        fun a b => a.id ≤ b.id :=
      (List.mem_insertionSort _).mpr (List.mem_filter.mpr ⟨hrow, by simpa using Nat.lt_of_not_le hlt⟩)
    rw [hnone] at hmem
    cases hmem

end Tables

section Sweeping

variable {p batchSize maxRuntimeMs startedAt : Nat} {o : ArchivalOp} {e : ArchivalEnv}
  {w₀ w w' : Clusters} {r : Except Err o.Res} {done : List ArchivalTable} {table : ArchivalTable}

/-- How far a run has come that started from `w₀`: nothing is new in the hot cluster, `done` are
the tables without rows of former years, and an order is gone only after all others were swept. -/
structure Sweeping (w₀ : Clusters) (batchSize : Nat) (done : List ArchivalTable) (w : Clusters) :
    Prop where
  later : w₀.clock ≤ w.clock
  kept : ∀ table, ∀ row ∈ w.hot.rows table, row ∈ w₀.hot.rows table
  swept : batchSize = 0 ∨
    ∀ table ∈ done, ∀ row ∈ w.hot.rows table, dateTruncYear w₀.clock ≤ row.tsColumn
  moved : ∀ o ∈ w₀.hot.orders, o ∈ w.hot.orders ∨
    batchSize ≠ 0 ∧ (∀ table, table ≠ .orders → table ∈ done) ∧
      ∃ o' ∈ w₀.hot.orders, o'.id = o.id ∧ o'.createdAt < dateTruncYear w.clock

theorem Sweeping.start (w₀ : Clusters) (batchSize : Nat) : Sweeping w₀ batchSize [] w₀ where
  later := Nat.le_refl _
  kept _ _ h := h
  swept := .inr fun _ h => absurd h List.not_mem_nil
  moved _ h := .inl h

/-- Where the rows of old orders are old too, no row has lost its order on the way. -/
theorem Sweeping.noOrphans (h : Sweeping w₀ batchSize done w) (hw₀ : w₀.hot.NoOrphans)
    {stop : Time} (hstamped : w₀.hot.StampedWithin w₀.clock stop) (hstop : w.clock ≤ stop) :
    w.hot.NoOrphans := by
  intro table row hrow orderId horder
  have hrow₀ : row ∈ w₀.hot.rows table := h.kept table row hrow
  obtain ⟨o, ho, hid⟩ := hw₀ table row hrow₀ orderId horder
  rcases h.moved o ho with hstays | ⟨hbatch, hall, o', ho', hid', hold⟩
  · exact ⟨o, hstays, hid⟩
  · -- The row's own table was swept before the orders, so the row is too young.
    have hchild : table ≠ .orders := by
      rintro rfl
      obtain ⟨order, _, rfl⟩ := List.mem_map.mp hrow
      cases horder
    have hyoung := h.swept.resolve_left hbatch table (hall table hchild) row hrow
    have hprior : o'.createdAt < dateTruncYear stop :=
      Nat.lt_of_lt_of_le hold (dateTruncYear_mono hstop)
    have horder' : row.orderId = some o'.id := by rw [horder, hid', hid]
    have hrowOld := hstamped table row hrow₀ o' ho' horder' hprior
    exact absurd hyoung (Nat.not_le.mpr hrowOld)

theorem archivalExec_clock (hx : archivalExec p o e w = some (r, w')) : w.clock ≤ w'.clock := by
  cases o with
  | clock =>
    cases hx
    exact Nat.le_add_right _ _
  | selectBatch table limit =>
    simp only [archivalExec] at hx
    split_ifs at hx <;> cases hx <;> exact Nat.le_add_right _ _
  | insertIgnoring rows =>
    simp only [archivalExec, Clusters.written] at hx
    split_ifs at hx <;> cases hx <;> exact Nat.le_add_right _ _
  | deleteIds table ids =>
    simp only [archivalExec, Clusters.written] at hx
    split_ifs at hx <;> cases hx <;> exact Nat.le_add_right _ _

theorem archivalExec_hot (hx : archivalExec p o e w = some (r, w')) : w'.hot = w.hot ∨
    ∃ table ids, o = .deleteIds table ids ∧ w'.hot = w.hot.deleteIds ids table := by
  cases o with
  | clock =>
    cases hx
    exact .inl rfl
  | selectBatch table limit =>
    simp only [archivalExec] at hx
    split_ifs at hx <;> cases hx <;> exact .inl rfl
  | insertIgnoring rows =>
    simp only [archivalExec, Clusters.written] at hx
    split_ifs at hx <;> cases hx <;> exact .inl rfl
  | deleteIds table ids =>
    simp only [archivalExec, Clusters.written] at hx
    split_ifs at hx <;> cases hx
    · exact .inr ⟨table, ids, rfl, rfl⟩
    · exact .inl rfl
    · exact .inr ⟨table, ids, rfl, rfl⟩

/-- What a run deletes: rows of former years, and orders last. -/
structure Deletes (w₀ : Clusters) (batchSize : Nat) (done : List ArchivalTable)
    (table : ArchivalTable) (ids : List Nat) (w : Clusters) : Prop where
  batch : batchSize ≠ 0
  last : table = .orders → ∀ other, other ≠ .orders → other ∈ done
  prior : ∀ id ∈ ids, ∃ row ∈ w₀.hot.rows table, row.id = id ∧
    row.tsColumn < dateTruncYear w.clock

theorem Sweeping.exec (h : Sweeping w₀ batchSize done w)
    (hx : archivalExec p o e w = some (r, w'))
    (hdeletes : ∀ table ids, o = .deleteIds table ids → Deletes w₀ batchSize done table ids w) :
    Sweeping w₀ batchSize done w' := by
  have hclock := archivalExec_clock hx
  have hyear : dateTruncYear w.clock ≤ dateTruncYear w'.clock := dateTruncYear_mono hclock
  have hkept : ∀ table, ∀ row ∈ w'.hot.rows table, row ∈ w.hot.rows table := by
    intro table row hrow
    rcases archivalExec_hot hx with hhot | ⟨table', ids, _, hhot⟩
    · rwa [hhot] at hrow
    · rw [hhot] at hrow
      exact (mem_rows_deleteIds.mp hrow).1
  refine ⟨Nat.le_trans h.later hclock, fun table row hrow => h.kept table row (hkept table row hrow),
    ?_, fun order horder => ?_⟩
  · rcases h.swept with hbatch | hswept
    · exact .inl hbatch
    · exact .inr fun table htable row hrow => hswept table htable row (hkept table row hrow)
  · rcases h.moved order horder with hthere | ⟨hbatch, hall, o', ho', hid, hold⟩
    · rcases archivalExec_hot hx with hhot | ⟨table, ids, rfl, hhot⟩
      · rw [hhot]
        exact .inl hthere
      · by_cases hgone : table = .orders ∧ order.id ∈ ids
        · -- The order goes with the batch, which has an old row of its id.
          obtain ⟨rfl, hmem⟩ := hgone
          have hd := hdeletes .orders ids rfl
          obtain ⟨row, hrow, hid, hold⟩ := hd.prior order.id hmem
          obtain ⟨o', ho', rfl⟩ := List.mem_map.mp hrow
          exact .inr ⟨hd.batch, hd.last rfl, o', ho', hid, Nat.lt_of_lt_of_le hold hyear⟩
        · rw [hhot]
          exact .inl (orders_deleteIds.mpr ⟨hthere, fun heq hmem => hgone ⟨heq, hmem⟩⟩)
    · exact .inr ⟨hbatch, hall, o', ho', hid, Nat.lt_of_lt_of_le hold hyear⟩

/-- Somewhere on the way of a run from `w₀`. -/
def OnTheWay (w₀ : Clusters) (batchSize : Nat) (w : Clusters) : Prop :=
  ∃ done, Sweeping w₀ batchSize done w

/-- One operation of a run by itself. -/
theorem wp_onTheWay {o : ArchivalOp} {Q : Except Err o.Res → Clusters → Prop}
    (h : Sweeping w₀ batchSize done w)
    (hdeletes : ∀ table ids, o = .deleteIds table ids → Deletes w₀ batchSize done table ids w)
    (hQ : ∀ e r w₂, archivalExec p o e w = some (r, w₂) → Sweeping w₀ batchSize done w₂ → Q r w₂) :
    wp archivalMachine (fun _ _ _ _ => True) (soloSpec (OnTheWay w₀ batchSize) p) p
      (awaitArchival o) Q w := by
  apply wp_perform
  intro w₁ hr _ e r w₂ _ hexec
  have hw₁ : w₁ = w := hr rfl
  subst hw₁
  have hx : archivalExec p o e w₁ = some (r, w₂) := hexec
  have h₂ := h.exec hx hdeletes
  exact ⟨⟨done, h₂⟩, fun q hq heq => absurd heq hq, hQ e r w₂ hx h₂⟩

theorem archivalExec_batch {limit : Nat} {rows : List ArchivalRow}
    (hx : archivalExec p (.selectBatch table limit) e w = some (.ok rows, w')) :
    rows = w.hot.priorYears table w'.clock limit ∧ w'.hot = w.hot := by
  cases hf : e.fail with
  | true => simp [archivalExec, hf] at hx
  | false =>
    simp only [archivalExec, hf, Bool.false_eq_true, if_false, Option.some.injEq, Prod.mk.injEq,
      Except.ok.injEq] at hx
    obtain ⟨rfl, rfl⟩ := hx
    exact ⟨rfl, rfl⟩

/-- Sweeping a table leaves no row of a former year in it, unless the time is up. -/
theorem wp_sweepTable_onTheWay (fuel moved : Nat) (h : Sweeping w₀ batchSize done w)
    (hlast : table = .orders → ∀ other, other ≠ .orders → other ∈ done) :
    wp archivalMachine (fun _ _ _ _ => True) (soloSpec (OnTheWay w₀ batchSize) p) p
      (sweepTable batchSize maxRuntimeMs startedAt table fuel moved)
      (OnOk fun swept w' => OnTheWay w₀ batchSize w' ∧
        (swept.2 = false → Sweeping w₀ batchSize (table :: done) w')) w := by
  induction fuel generalizing moved w with
  | zero => trivial
  | succ fuel ih =>
    apply wp_do
    refine wp_onTheWay h (fun _ _ heq => by cases heq) fun e₁ r₁ w₁ _ h₁ => ?_
    cases r₁ with
    | error err => trivial
    | ok clock =>
      dsimp only
      split_ifs
      · exact ⟨⟨done, h₁⟩, fun hfalse => by cases hfalse⟩
      apply wp_do
      refine wp_onTheWay h₁ (fun _ _ heq => by cases heq) fun e₂ r₂ w₂ hx₂ h₂ => ?_
      cases r₂ with
      | error err => trivial
      | ok rows =>
        obtain ⟨hrows, hhot⟩ := archivalExec_batch hx₂
        dsimp only
        split_ifs with hempty
        · refine ⟨⟨done, h₂⟩, fun _ => ⟨h₂.later, h₂.kept, ?_, fun o ho => ?_⟩⟩
          · rw [hrows] at hempty
            rcases priorYears_empty hempty with hbatch | hyoung
            · exact .inl hbatch
            · rcases h₂.swept with hbatch | hswept
              · exact .inl hbatch
              · right
                intro other hother row hrow
                rcases List.mem_cons.mp hother with rfl | hother
                · rw [hhot] at hrow
                  exact Nat.le_trans (dateTruncYear_mono h₂.later) (hyoung row hrow)
                · exact hswept other hother row hrow
          · rcases h₂.moved o ho with hthere | ⟨hbatch, hall, hold⟩
            · exact .inl hthere
            · exact .inr ⟨hbatch, fun t ht => List.mem_cons_of_mem _ (hall t ht), hold⟩
        have hbatch : batchSize ≠ 0 := by
          rintro rfl
          apply hempty
          rw [hrows]
          simp [Db.priorYears]
        apply wp_do
        refine wp_onTheWay h₂ (fun _ _ heq => by cases heq) fun e₃ r₃ w₃ hx₃ h₃ => ?_
        cases r₃ with
        | error err => trivial
        | ok _ =>
          apply wp_do
          have hdeletes : Deletes w₀ batchSize done table (rows.map ArchivalRow.id) w₃ := by
            refine ⟨hbatch, hlast, fun id hid => ?_⟩
            obtain ⟨row, hrow, rfl⟩ := List.mem_map.mp hid
            rw [hrows] at hrow
            obtain ⟨hmem, hprior⟩ := mem_priorYears hrow
            exact ⟨row, h₁.kept table row hmem, rfl,
              Nat.lt_of_lt_of_le hprior (dateTruncYear_mono (archivalExec_clock hx₃))⟩
          refine wp_onTheWay h₃ (fun _ _ heq => by cases heq; exact hdeletes)
            fun e₄ r₄ w₄ _ h₄ => ?_
          cases r₄ with
          | error err => trivial
          | ok _ => exact ih (moved + rows.length) h₄

/-- The orders come after all other tables. -/
def childrenFirst : List ArchivalTable → List ArchivalTable → Bool
  | _, [] => true
  | done, table :: tables =>
    (table ≠ .orders || (archivalTables.all fun other => other = .orders || other ∈ done)) &&
      childrenFirst (table :: done) tables

theorem mem_archivalTables (table : ArchivalTable) : table ∈ archivalTables := by
  cases table <;> decide

theorem wp_sweepTables_onTheWay {fuel : Nat} (tables : List ArchivalTable)
    (moved : List (ArchivalTable × Nat)) (hfirst : childrenFirst done tables = true)
    (h : Sweeping w₀ batchSize done w) :
    wp archivalMachine (fun _ _ _ _ => True) (soloSpec (OnTheWay w₀ batchSize) p) p
      (sweepTables batchSize maxRuntimeMs startedAt fuel tables moved) (OnOk fun _ w' => OnTheWay w₀ batchSize w') w := by
  induction tables generalizing done moved w with
  | nil => exact ⟨done, h⟩
  | cons table tables ih =>
    obtain ⟨hall, hrest⟩ := Bool.and_eq_true_iff.mp hfirst
    apply wp_do
    apply wp_mono _ (wp_sweepTable_onTheWay fuel 0 h ?_)
    · intro r w₁ h₁
      cases r with
      | error err => trivial
      | ok swept =>
        dsimp only
        split_ifs with htime
        · exact h₁.1
        · exact ih _ hrest (h₁.2 (by simpa using htime))
    · rintro rfl other hother
      have hdone : other = .orders ∨ other ∈ done := by
        simpa using (List.all_eq_true.mp hall) other (mem_archivalTables other)
      exact hdone.resolve_left hother

theorem onTheWay_runAlone (settings : ArchivalSettings) (fuel : Nat) (region : String)
    (opts : ArchiveRunOptions) (es : List ArchivalEnv) :
    OnTheWay w₀ (opts.batchSize.getD settings.batchSize)
      (archivalMachine.runAlone p (archiveRegion settings fuel region opts) es w₀).2 := by
  have hstart := Sweeping.start w₀ (opts.batchSize.getD settings.batchSize)
  have hwp : wp archivalMachine (fun _ _ _ _ => True)
      (soloSpec (OnTheWay w₀ (opts.batchSize.getD settings.batchSize)) p) p
      (archiveRegion settings fuel region opts) (OnOk fun _ _ => True) w₀ := by
    apply wp_do
    refine wp_onTheWay hstart (fun _ _ heq => by cases heq) fun e₁ r₁ w₁ _ h₁ => ?_
    cases r₁ with
    | error err => trivial
    | ok startedAt =>
      apply wp_do
      apply wp_mono _ (wp_sweepTables_onTheWay archivalTables [] (by decide) h₁)
      intro r₂ w₂ h₂
      cases r₂ with
      | error err => trivial
      | ok swept =>
        obtain ⟨done, h₂⟩ := h₂
        apply wp_do
        refine wp_onTheWay h₂ (fun _ _ heq => by cases heq) fun e₃ r₃ w₃ _ _ => ?_
        cases r₃ <;> trivial
  have hinit : (soloSpec (OnTheWay w₀ (opts.batchSize.getD settings.batchSize)) p).inv w₀ :=
    ⟨[], hstart⟩
  have hsound := runAlone_sound (fun _ _ => rfl) hinit hwp (runMeets_true _ es w₀)
  cases hrun : archivalMachine.runAlone p (archiveRegion settings fuel region opts) es w₀ with
  | mk outcome w' =>
    rw [hrun] at hsound
    cases outcome with
    | returned a => exact hsound.1
    | threw err => exact hsound.1
    | crashed =>
      obtain ⟨v, hv, _, rfl⟩ := hsound
      exact hv

end Sweeping

section Orphaning

variable {p batchSize maxRuntimeMs startedAt stop : Nat} {w₀ w : Clusters} {table : ArchivalTable}
  {row : ArchivalRow} {o : OrderEntity}

theorem deleteIds_nil (db : Db) (table : ArchivalTable) : db.deleteIds [] table = db := by
  cases table <;> simp [Db.deleteIds]

theorem finishes_clock (p d : Nat) (w : Clusters) : archivalMachine.Finishes p
    (awaitArchival .clock) w (w.clock + d) { w with clock := w.clock + d } :=
  Machine.finishes_perform (e := { elapsed := d }) rfl

theorem finishes_selectBatch (p : Nat) (table : ArchivalTable) (limit : Nat) (w : Clusters) :
    ∃ w', archivalMachine.Finishes p (awaitArchival (.selectBatch table limit)) w
      (w.hot.priorYears table w.clock limit) w' ∧ w'.clock = w.clock ∧ w'.hot = w.hot := by
  have hx : archivalMachine.exec p (.selectBatch table limit) {} w
      = some (.ok (w.hot.priorYears table w.clock limit), { w with
        picked := Function.update w.picked p (w.hot.priorYears table w.clock limit) }) := rfl
  exact ⟨_, Machine.finishes_perform hx, rfl, rfl⟩

theorem finishes_insertIgnoring (p : Nat) (rows : List ArchivalRow) (w : Clusters) :
    ∃ w', archivalMachine.Finishes p (awaitArchival (.insertIgnoring rows)) w () w' ∧
      w'.clock = w.clock ∧ w'.hot = w.hot := by
  have hx : archivalMachine.exec p (.insertIgnoring rows) {} w = some (.ok (), { w with
      archive := insertIgnoring ArchivalRow.conflicts w.archive rows }) := rfl
  exact ⟨_, Machine.finishes_perform hx, rfl, rfl⟩

theorem finishes_deleteIds (p : Nat) (table : ArchivalTable) (ids : List Nat) (w : Clusters) :
    ∃ w', archivalMachine.Finishes p (awaitArchival (.deleteIds table ids)) w () w' ∧
      w'.clock = w.clock ∧ w'.hot = w.hot.deleteIds ids table := by
  have hx : archivalMachine.exec p (.deleteIds table ids) {} w = some (.ok (), { w with
      hot := w.hot.deleteIds ids table
      deleted := w.deleted ++ (w.hot.rows table).filter fun r => r.id ∈ ids }) := rfl
  exact ⟨_, Machine.finishes_perform hx, rfl, rfl⟩

/-- A table without rows of former years is left after one round. -/
theorem finishes_emptyTable (d fuel moved : Nat)
    (hnone : w.hot.priorYears table (w.clock + d) batchSize = [])
    (htime : w.clock + d < startedAt + maxRuntimeMs) :
    ∃ w', archivalMachine.Finishes p
        (sweepTable batchSize maxRuntimeMs startedAt table (fuel + 1) moved) w (moved, false) w' ∧
      w'.clock = w.clock + d ∧ w'.hot = w.hot := by
  have hgoesOn : ¬startedAt + maxRuntimeMs ≤ w.clock + d := Nat.not_le.mpr htime
  obtain ⟨w₂, hselect, hclock₂, hhot₂⟩ := finishes_selectBatch p table batchSize
    { w with clock := w.clock + d }
  refine ⟨w₂, ?_, hclock₂, hhot₂⟩
  apply (finishes_clock p d w).bind
  rw [if_neg hgoesOn]
  apply hselect.bind
  rw [if_pos (by rw [hnone]; rfl)]
  exact .pure _ _

/-- A table of which every row fits into one batch is swept in two rounds. -/
theorem finishes_sweepTable (d moved : Nat) (hbatch : (w.hot.rows table).length ≤ batchSize)
    (htime : w.clock + d < startedAt + maxRuntimeMs) :
    ∃ n w', archivalMachine.Finishes p
        (sweepTable batchSize maxRuntimeMs startedAt table 2 moved) w (n, false) w' ∧
      w'.clock = w.clock + d ∧ w'.hot = w.hot.deleteIds
        ((w.hot.priorYears table (w.clock + d) batchSize).map ArchivalRow.id) table := by
  by_cases hnone : w.hot.priorYears table (w.clock + d) batchSize = []
  · obtain ⟨w', hfinish, hclock, hhot⟩ := finishes_emptyTable d 1 moved hnone htime
    refine ⟨moved, w', hfinish, hclock, ?_⟩
    rw [hhot, hnone, List.map_nil, deleteIds_nil]
  have hgoesOn : ¬startedAt + maxRuntimeMs ≤ w.clock + d := Nat.not_le.mpr htime
  obtain ⟨w₂, hselect, hclock₂, hhot₂⟩ := finishes_selectBatch p table batchSize
    { w with clock := w.clock + d }
  obtain ⟨w₃, hinsert, hclock₃, hhot₃⟩ := finishes_insertIgnoring p
    (w.hot.priorYears table (w.clock + d) batchSize) w₂
  obtain ⟨w₄, hdelete, hclock₄, hhot₄⟩ := finishes_deleteIds p table
    ((w.hot.priorYears table (w.clock + d) batchSize).map ArchivalRow.id) w₃
  have hclock : w₄.clock = w.clock + d := by rw [hclock₄, hclock₃, hclock₂]
  have hhot : w₄.hot = w.hot.deleteIds
      ((w.hot.priorYears table (w.clock + d) batchSize).map ArchivalRow.id) table := by
    rw [hhot₄, hhot₃, hhot₂]
  -- Whatever was old went with the batch.
  have hswept : w₄.hot.priorYears table (w₄.clock + 0) batchSize = [] := by
    rw [List.eq_nil_iff_forall_not_mem]
    intro row hrow
    obtain ⟨hmem, hprior⟩ := mem_priorYears hrow
    rw [hhot] at hmem
    obtain ⟨hold, hkept⟩ := mem_rows_deleteIds.mp hmem
    rw [Nat.add_zero, hclock] at hprior
    have hpicked := mem_priorYears_of_le hbatch hold hprior
    exact hkept rfl (List.mem_map.mpr ⟨row, hpicked, rfl⟩)
  have htime₄ : w₄.clock + 0 < startedAt + maxRuntimeMs := by
    rw [Nat.add_zero, hclock]
    exact htime
  obtain ⟨w₅, hround, hclock₅, hhot₅⟩ := finishes_emptyTable 0 0
    (moved + (w.hot.priorYears table (w.clock + d) batchSize).length) hswept htime₄
  refine ⟨moved + (w.hot.priorYears table (w.clock + d) batchSize).length, w₅, ?_,
    by rw [hclock₅, hclock, Nat.add_zero], by rw [hhot₅, hhot]⟩
  apply (finishes_clock p d w).bind
  rw [if_neg hgoesOn]
  apply hselect.bind
  rw [if_neg (by rw [List.length_eq_zero_iff]; exact hnone)]
  apply hinsert.bind
  exact hdelete.bind hround

/-- A row of this year with its order of a former one, in tables that fit into one batch. -/
structure Young (batchSize start : Nat) (table : ArchivalTable) (row : ArchivalRow) (o : OrderEntity)
    (w : Clusters) : Prop where
  clock : w.clock = start
  rowThere : row ∈ w.hot.rows table
  orderThere : o ∈ w.hot.orders
  unique : ((w.hot.rows table).map ArchivalRow.id).Nodup
  fits : ∀ other, (w.hot.rows other).length ≤ batchSize

theorem row_survives {now : Time} {limit : Nat} {other : ArchivalTable}
    (hrow : row ∈ w.hot.rows table) (hunique : ((w.hot.rows table).map ArchivalRow.id).Nodup)
    (hyoung : dateTruncYear now ≤ row.tsColumn) : row ∈ (w.hot.deleteIds
      ((w.hot.priorYears other now limit).map ArchivalRow.id) other).rows table := by
  refine mem_rows_deleteIds.mpr ⟨hrow, ?_⟩
  rintro rfl hid
  obtain ⟨old, hold, hsame⟩ := List.mem_map.mp hid
  obtain ⟨hmem, hprior⟩ := mem_priorYears hold
  have heq : old = row := List.inj_on_of_nodup_map hunique hmem hrow hsame
  rw [heq] at hprior
  exact absurd hyoung (Nat.not_le.mpr hprior)

theorem Young.sweep {start : Nat} (h : Young batchSize start table row o w)
    (hyoung : dateTruncYear start ≤ row.tsColumn) {other : ArchivalTable} (hother : other ≠ .orders)
    {w' : Clusters} (hclock : w'.clock = start) (hhot : w'.hot = w.hot.deleteIds
      ((w.hot.priorYears other start batchSize).map ArchivalRow.id) other) :
    Young batchSize start table row o w' := by
  refine ⟨hclock, ?_, ?_, ?_, fun t => ?_⟩
  · rw [hhot]
    exact row_survives h.rowThere h.unique hyoung
  · rw [hhot]
    exact orders_deleteIds.mpr ⟨h.orderThere, fun heq => absurd heq hother⟩
  · rw [hhot, rows_deleteIds]
    split_ifs
    · exact h.unique.sublist (List.filter_sublist.map _)
    · exact h.unique
  · rw [hhot, rows_deleteIds]
    split_ifs
    · exact Nat.le_trans (List.length_filter_le _ _) (h.fits t)
    · exact h.fits t

/-- The children are swept at the start, the orders at the end; then the row stands alone. -/
theorem finishes_sweepTables {start : Nat} (tables : List ArchivalTable)
    (moved : List (ArchivalTable × Nat)) (hchildren : ∀ t ∈ tables, t ≠ .orders)
    (h : Young batchSize start table row o w) (hle : start ≤ stop) (htable : table ≠ .orders)
    (hyoung : dateTruncYear start ≤ row.tsColumn) (hold : o.createdAt < dateTruncYear stop)
    (htime : stop < startedAt + maxRuntimeMs) :
    ∃ swept w', archivalMachine.Finishes p
        (sweepTables batchSize maxRuntimeMs startedAt 2 (tables ++ [.orders]) moved) w swept w' ∧
      w'.clock = stop ∧ row ∈ w'.hot.rows table ∧ ∀ o' ∈ w'.hot.orders, o'.id ≠ o.id := by
  induction tables generalizing moved w with
  | nil =>
    have hstop : w.clock + (stop - start) = stop := by
      rw [h.clock]
      exact Nat.add_sub_of_le hle
    have hend : w.clock + (stop - start) < startedAt + maxRuntimeMs := by
      rw [hstop]
      exact htime
    obtain ⟨n, w', hfinish, hclock, hhot⟩ := finishes_sweepTable (stop - start) 0 (h.fits .orders)
      hend
    rw [hstop] at hclock hhot
    have hlast : archivalMachine.Finishes p
        (sweepTables batchSize maxRuntimeMs startedAt 2 [.orders] moved) w
        (moved ++ [(.orders, n)], false) w' := hfinish.bind (.pure _ _)
    refine ⟨_, w', hlast, hclock, ?_, fun o' ho' hsame => ?_⟩
    · rw [hhot]
      exact mem_rows_deleteIds.mpr ⟨h.rowThere, fun heq => absurd heq htable⟩
    · rw [hhot] at ho'
      obtain ⟨_, hkept⟩ := orders_deleteIds.mp ho'
      apply hkept rfl
      rw [hsame]
      have hpicked := mem_priorYears_of_le (h.fits .orders) (order_row_mem.mpr h.orderThere) hold
      exact List.mem_map.mpr ⟨_, hpicked, rfl⟩
  | cons first tables ih =>
    have hfirst : first ≠ .orders := hchildren first List.mem_cons_self
    have hstart : w.clock + 0 < startedAt + maxRuntimeMs := by
      rw [Nat.add_zero, h.clock]
      exact Nat.lt_of_le_of_lt hle htime
    obtain ⟨n, w₁, hfinish, hclock, hhot⟩ := finishes_sweepTable 0 0 (h.fits first) hstart
    rw [Nat.add_zero, h.clock] at hclock hhot
    obtain ⟨swept, w', hrest, hend⟩ := ih (moved ++ [(first, n)])
      (fun t ht => hchildren t (List.mem_cons_of_mem first ht)) (h.sweep hyoung hfirst hclock hhot)
    exact ⟨swept, w', hfinish.bind hrest, hend⟩

theorem length_rows_le (db : Db) (table : ArchivalTable) : (db.rows table).length ≤
    (archivalTables.map fun other => (db.rows other).length).sum := by
  simp only [archivalTables, List.map_cons, List.map_nil, List.sum_cons, List.sum_nil]
  cases table <;> omega

/-- A young row of an old order is left without it by a run that sweeps everything. -/
theorem orphaned_of_young (hrow : row ∈ w.hot.rows table)
    (ho : o ∈ w.hot.orders) (horder : row.orderId = some o.id)
    (hunique : ((w.hot.rows table).map ArchivalRow.id).Nodup) (hle : w.clock ≤ stop)
    (hold : o.createdAt < dateTruncYear stop) (hyoung : dateTruncYear w.clock ≤ row.tsColumn) :
    ¬NeverOrphans w stop := by
  intro hnever
  have htable : table ≠ .orders := by
    rintro rfl
    obtain ⟨order, _, rfl⟩ := List.mem_map.mp hrow
    cases horder
  have h : Young (archivalTables.map fun other => (w.hot.rows other).length).sum w.clock table row o
      w := ⟨rfl, hrow, ho, hunique, length_rows_le w.hot⟩
  have hchildren : ∀ t ∈ [ArchivalTable.agentEarnings, .paymentWebhookEvents, .paymentSessions,
      .transactions, .orderItems], t ≠ .orders := by decide
  have htime : stop < w.clock + (stop + 1) := by omega
  obtain ⟨swept, w₁, hsweep, hclock, hthere, hgone⟩ :=
    finishes_sweepTables _ [] hchildren h hle htable hyoung hold htime
  let opts : ArchiveRunOptions :=
    ⟨some (archivalTables.map fun other => (w.hot.rows other).length).sum, some (stop + 1)⟩
  have hrun : archivalMachine.Finishes 0 (archiveRegion ⟨0, 0⟩ 2 "" opts) w
      ⟨"", swept.1, (swept.1.map Prod.snd).sum, swept.2⟩ { w₁ with clock := w₁.clock + 0 } :=
    (finishes_clock 0 0 w).bind (hsweep.bind ((finishes_clock 0 0 w₁).bind (.pure _ _)))
  obtain ⟨es, hes⟩ := hrun.runAlone
  have hall := hnever ⟨0, 0⟩ 2 "" opts 0 es
  rw [hes] at hall
  obtain ⟨o', ho', hid⟩ := hall (Nat.le_of_eq hclock) table row hthere o.id horder
  exact hgone o' ho' hid

end Orphaning

section Result

/-- Every row of the tables other than `orders` has its own id. -/
def Db.UniqueRowIds (db : Db) : Prop :=
  ∀ table, table ≠ .orders → ((db.rows table).map ArchivalRow.id).Nodup

/-- From a hot cluster without orphans no run of the worker leaves one, wherever it stands until
`stop`, if and only if the rows of the orders of former years (as of `stop`) are themselves of
former years (as of now). -/
theorem never_orphans_iff {w : Clusters} {stop : Time} (hhot : w.hot.NoOrphans)
    (hunique : w.hot.UniqueRowIds) (hstop : w.clock ≤ stop) :
    NeverOrphans w stop ↔ w.hot.StampedWithin w.clock stop := by
  constructor
  · intro hnever table row hrow o ho horder hold
    by_contra hyoung
    have htable : table ≠ .orders := by
      rintro rfl
      obtain ⟨order, _, rfl⟩ := List.mem_map.mp hrow
      cases horder
    exact orphaned_of_young hrow ho horder (hunique table htable) hstop hold
      (Nat.le_of_not_lt hyoung) hnever
  · intro hstamped settings fuel region opts p es hbefore
    have hway : OnTheWay w (opts.batchSize.getD settings.batchSize)
        (archivalMachine.runAlone p (archiveRegion settings fuel region opts) es w).2 :=
      onTheWay_runAlone settings fuel region opts es
    obtain ⟨done, hsweeping⟩ := hway
    exact hsweeping.noOrphans hhot hstamped hbefore

end Result

section Samples

/-- An order of the last day of 2025, and what its agent earned with it at a moment of his own. -/
def lastOrderOf2025 (earnedAt : Time) : Clusters where
  hot :=
    { orders := [{ OrderEntity.sample "order-1" .delivered with createdAt := newYear 56 - 1 }]
      agentEarnings := [⟨⟨"eg", 7, 1, 1600, "EGP"⟩, 1, earnedAt⟩] }
  clock := newYear 56 + 3 * 60 * 60 * 1000

theorem lastOrderOf2025_noOrphans (earnedAt : Time) : (lastOrderOf2025 earnedAt).hot.NoOrphans := by
  intro table row hrow orderId horder
  have hid : orderId = 1 := by
    cases table <;> simp [lastOrderOf2025, Db.rows] at hrow <;> subst hrow <;>
      simp_all [ArchivalRow.orderId]
  exact ⟨_, List.mem_singleton.mpr rfl, hid.symm⟩

theorem lastOrderOf2025_unique (earnedAt : Time) :
    (lastOrderOf2025 earnedAt).hot.UniqueRowIds := by
  intro table _
  cases table <;> simp [lastOrderOf2025, Db.rows]

/-- Delivered in the year in which it was ordered, it goes together with the earning. -/
theorem never_orphans_same_year :
    NeverOrphans (lastOrderOf2025 (newYear 56 - 1)) (newYear 56 + 4 * 60 * 60 * 1000) := by
  apply (never_orphans_iff (lastOrderOf2025_noOrphans _) (lastOrderOf2025_unique _) (by decide)).mpr
  intro table row hrow o _ _ _
  have hearly : row.tsColumn = newYear 56 - 1 := by
    cases table <;> simp [lastOrderOf2025, Db.rows] at hrow <;> subst hrow <;> rfl
  rw [hearly]
  decide +kernel

/-- Delivered after midnight, the earning is left without its order. -/
theorem orphaned_after_midnight :
    (lastOrderOf2025 (newYear 56 + 1)).hot.NoOrphans ∧
      ∃ es, ¬(archivalMachine.runAlone 0 (archiveRegion archivalSettings 3 "eg" {}) es
        (lastOrderOf2025 (newYear 56 + 1))).2.hot.NoOrphans := by
  refine ⟨lastOrderOf2025_noOrphans _, List.replicate 20 {}, fun h => ?_⟩
  have hend : ((archivalMachine.runAlone 0 (archiveRegion archivalSettings 3 "eg" {})
      (List.replicate 20 {}) (lastOrderOf2025 (newYear 56 + 1))).2.hot.orders.length,
      (archivalMachine.runAlone 0 (archiveRegion archivalSettings 3 "eg" {})
        (List.replicate 20 {}) (lastOrderOf2025 (newYear 56 + 1))).2.hot.agentEarnings)
      = (0, [⟨⟨"eg", 7, 1, 1600, "EGP"⟩, 1, newYear 56 + 1⟩]) := by
    decide +kernel
  obtain ⟨horders, hearnings⟩ := Prod.mk.inj hend
  have hrow : ArchivalRow.agentEarning ⟨⟨"eg", 7, 1, 1600, "EGP"⟩, 1, newYear 56 + 1⟩ ∈
      (archivalMachine.runAlone 0 (archiveRegion archivalSettings 3 "eg" {})
        (List.replicate 20 {}) (lastOrderOf2025 (newYear 56 + 1))).2.hot.rows .agentEarnings := by
    rw [Db.rows, hearnings]
    exact List.mem_singleton.mpr rfl
  obtain ⟨o, ho, _⟩ := h .agentEarnings _ hrow 1 rfl
  rw [List.length_eq_zero_iff.mp horders] at ho
  cases ho

end Samples

end OrderService
