import OrderService.Rows
import OrderService.Services.Archival

/-! What the worker deletes from the hot cluster is in the archive as it was, as long as no batch
meets another row there under one of its unique keys, and no row changes between its selection and
its deletion. -/
namespace OrderService
open ReadCommitted Interleaving

section Statement

/-- What the worker deleted is in the archive, as it was in the hot cluster. -/
def Clusters.Archived (w : Clusters) : Prop := ∀ row ∈ w.deleted, row ∈ w.archive

instance (w : Clusters) : Decidable w.Archived :=
  inferInstanceAs (Decidable (∀ row ∈ w.deleted, row ∈ w.archive))

/-- An insert meets no row in the archive but its own ones; what a delete finds is as it was
selected. A statement that fails without a trace may do as it likes. -/
def keepsLatest (p : Nat) (o : ArchivalOp) (e : ArchivalEnv) (w : Clusters) : Bool :=
  match o with
  | .insertIgnoring rows =>
    (e.fail && !e.applied) || fitsIn ArchivalRow.conflicts w.archive rows
  | .deleteIds table ids =>
    (e.fail && !e.applied) || (w.hot.rows table).all fun row => row.id ∉ ids || row ∈ w.picked p
  | _ => true

/-- A run of the worker on a region: how many rounds it may take, and its options. -/
structure ArchivalRun where
  fuel : Nat
  opts : ArchiveRunOptions

/-- The runs on a region, none of which has started. -/
def archiving (settings : ArchivalSettings) (region : String) (runs : Nat → Option ArchivalRun)
    (w : Clusters) : Sys Nat ArchivalOp ArchivalOp.Res Err Clusters ArchiveRunResult :=
  ⟨w, fun p => (runs p).map fun r => archiveRegion settings r.fuel region r.opts⟩

end Statement

section Steps

variable {p q : Nat} {o : ArchivalOp} {e : ArchivalEnv} {w w' : Clusters} {r : Except Err o.Res}
  {row : ArchivalRow}

/-- Nothing is ever taken from the archive. -/
theorem archivalExec_archive (hx : archivalExec p o e w = some (r, w')) (h : row ∈ w.archive) :
    row ∈ w'.archive := by
  cases o with
  | clock =>
    cases hx
    exact h
  | selectBatch table limit =>
    simp only [archivalExec] at hx
    split_ifs at hx <;> cases hx <;> exact h
  | insertIgnoring rows =>
    simp only [archivalExec, Clusters.written] at hx
    split_ifs at hx <;> cases hx
    · exact mem_insertIgnoring h
    · exact h
    · exact mem_insertIgnoring h
  | deleteIds table ids =>
    simp only [archivalExec, Clusters.written] at hx
    split_ifs at hx <;> cases hx <;> exact h

/-- A run selects its own batches. -/
theorem archivalExec_picked (hx : archivalExec p o e w = some (r, w'))
    (hq : q ≠ p ∨ ∀ table limit, o ≠ .selectBatch table limit) : w'.picked q = w.picked q := by
  cases o with
  | clock =>
    cases hx
    rfl
  | selectBatch table limit =>
    have hne : q ≠ p := hq.resolve_right fun h => h table limit rfl
    simp only [archivalExec] at hx
    split_ifs at hx <;> cases hx
    · rfl
    · exact Function.update_of_ne hne _ _
  | insertIgnoring rows =>
    simp only [archivalExec, Clusters.written] at hx
    split_ifs at hx <;> cases hx <;> rfl
  | deleteIds table ids =>
    simp only [archivalExec, Clusters.written] at hx
    split_ifs at hx <;> cases hx <;> rfl

/-- What was not deleted before was found by this delete. -/
theorem archivalExec_deleted (hx : archivalExec p o e w = some (r, w')) (h : row ∈ w'.deleted) :
    row ∈ w.deleted ∨ ∃ table ids, o = .deleteIds table ids ∧ (e.fail && !e.applied) = false ∧
      row ∈ w.hot.rows table ∧ row.id ∈ ids := by
  cases o with
  | clock =>
    cases hx
    exact .inl h
  | selectBatch table limit =>
    simp only [archivalExec] at hx
    split_ifs at hx <;> cases hx <;> exact .inl h
  | insertIgnoring rows =>
    simp only [archivalExec, Clusters.written] at hx
    split_ifs at hx <;> cases hx <;> exact .inl h
  | deleteIds table ids =>
    have hfound : (e.fail && !e.applied) = false →
        row ∈ w.deleted ++ (w.hot.rows table).filter (fun r => r.id ∈ ids) →
        row ∈ w.deleted ∨ ∃ table' ids', ArchivalOp.deleteIds table ids = .deleteIds table' ids' ∧
          (e.fail && !e.applied) = false ∧ row ∈ w.hot.rows table' ∧ row.id ∈ ids' := by
      intro hdone hmem
      rcases List.mem_append.mp hmem with hmem | hmem
      · exact .inl hmem
      · obtain ⟨hrow, hid⟩ := List.mem_filter.mp hmem
        exact .inr ⟨table, ids, rfl, hdone, hrow, of_decide_eq_true hid⟩
    simp only [archivalExec, Clusters.written] at hx
    split_ifs at hx with hfail happlied <;> cases hx
    · exact hfound (by simp [happlied]) h
    · exact .inl h
    · exact hfound (by simp [hfail]) h

theorem archivalExec_selected {table : ArchivalTable} {limit : Nat} {rows : List ArchivalRow}
    (hx : archivalExec p (.selectBatch table limit) e w = some (.ok rows, w')) :
    w'.picked p = rows := by
  simp only [archivalExec] at hx
  split_ifs at hx <;> simp only [Option.some.injEq, Prod.mk.injEq, reduceCtorEq, false_and] at hx
  obtain ⟨hrows, rfl⟩ := hx
  rw [← Except.ok.inj hrows]
  exact Function.update_self ..

theorem archivalExec_inserted {rows : List ArchivalRow}
    (hx : archivalExec p (.insertIgnoring rows) e w = some (.ok (), w')) :
    e.fail = false ∧ w'.archive = insertIgnoring ArchivalRow.conflicts w.archive rows := by
  cases hf : e.fail with
  | true => simp [archivalExec, Clusters.written, hf] at hx
  | false =>
    simp only [archivalExec, Clusters.written, hf, Bool.false_eq_true, if_false, Option.some.injEq,
      Prod.mk.injEq, true_and] at hx
    rw [← hx]
    exact ⟨rfl, rfl⟩

end Steps

section Runs

variable {p : Nat} {w : Clusters} {batchSize maxRuntimeMs startedAt : Nat} {table : ArchivalTable}

/-- The operations of the runs meet the condition. -/
def KeepsLatest (p : Nat) (o : ArchivalOp) (e : ArchivalEnv) (w : Clusters) : Prop :=
  keepsLatest p o e w = true

/-- A run relies on its batch staying the one it selected, and on the archive keeping its rows. -/
def archivalSpec : Spec Nat Clusters where
  inv := Clusters.Archived
  rely p w w' := w'.picked p = w.picked p ∧ ∀ row ∈ w.archive, row ∈ w'.archive

theorem archivalSpec_fits : archivalSpec.Fits archivalMachine where
  refl _ _ := ⟨rfl, fun _ h => h⟩
  trans _ _ _ _ h h' := ⟨h'.1.trans h.1, fun row hrow => h'.2 row (h.2 row hrow)⟩
  crash _ _ hi := ⟨hi, fun _ _ => ⟨rfl, fun _ h => h⟩⟩
  ext _ _ hi := ⟨hi, fun _ => ⟨rfl, fun _ h => h⟩⟩

/-- The batch that the run selected is in the archive. -/
def Copied (p : Nat) (rows : List ArchivalRow) (w : Clusters) : Prop :=
  w.picked p = rows ∧ ∀ row ∈ rows, row ∈ w.archive

/-- An operation that deletes nothing but copied rows. -/
theorem wp_archival {o : ArchivalOp} {Q : Except Err o.Res → Clusters → Prop}
    (hcopied : ∀ table ids, o = .deleteIds table ids → ∃ rows, Copied p rows w)
    (h : ∀ w₁ e r w₂, archivalSpec.rely p w w₁ → KeepsLatest p o e w₁ →
      archivalExec p o e w₁ = some (r, w₂) → Q r w₂) :
    wp archivalMachine KeepsLatest archivalSpec p (awaitArchival o) Q w := by
  apply wp_perform
  intro w₁ hr hi e r w₂ hok hexec
  have hx : archivalExec p o e w₁ = some (r, w₂) := hexec
  refine ⟨fun row hrow => ?_, fun q hq => ?_, h w₁ e r w₂ hr hok hx⟩
  · rcases archivalExec_deleted hx hrow with hold | ⟨table, ids, rfl, hdone, hfound, hid⟩
    · exact archivalExec_archive hx (hi row hold)
    · obtain ⟨rows, hpicked, harchived⟩ := hcopied table ids rfl
      -- The row is as the run selected it, so it was copied.
      have hmem : row ∈ w₁.picked p := by
        have hall : (w₁.hot.rows table).all (fun row => row.id ∉ ids || row ∈ w₁.picked p) = true := by
          simpa [KeepsLatest, keepsLatest, hdone] using hok
        have hone := List.all_eq_true.mp hall row hfound
        simpa [hid] using hone
      rw [hr.1, hpicked] at hmem
      exact archivalExec_archive hx (hr.2 row (harchived row hmem))
  · exact ⟨archivalExec_picked hx (.inl hq), fun row hrow => archivalExec_archive hx hrow⟩

theorem wp_sweepTable (fuel moved : Nat) :
    wp archivalMachine KeepsLatest archivalSpec p
      (sweepTable batchSize maxRuntimeMs startedAt table fuel moved) (fun _ _ => True) w := by
  induction fuel generalizing moved w with
  | zero => trivial
  | succ fuel ih =>
    apply wp_do
    apply wp_archival fun _ _ h => by cases h
    intro w₁ e₁ r₁ w₂ _ _ _
    cases r₁ with
    | error err => trivial
    | ok clock =>
      dsimp only
      split_ifs
      · trivial
      apply wp_do
      apply wp_archival fun _ _ h => by cases h
      intro w₃ e₂ r₂ w₄ _ _ hx₂
      cases r₂ with
      | error err => trivial
      | ok rows =>
        have hpicked : w₄.picked p = rows := archivalExec_selected hx₂
        dsimp only
        split_ifs
        · trivial
        apply wp_do
        apply wp_archival fun _ _ h => by cases h
        intro w₅ e₃ r₃ w₆ hr₃ hok₃ hx₃
        cases r₃ with
        | error err => trivial
        | ok _ =>
          have hcopied : Copied p rows w₆ := by
            have hsame := archivalExec_picked (q := p) hx₃ (.inr fun _ _ h => by cases h)
            refine ⟨hsame.trans (hr₃.1.trans hpicked), fun row hrow => ?_⟩
            obtain ⟨hfail, harchive⟩ := archivalExec_inserted hx₃
            have hfits : fitsIn ArchivalRow.conflicts w₅.archive rows = true := by
              simpa [KeepsLatest, keepsLatest, hfail] using hok₃
            rw [harchive]
            exact mem_insertIgnoring_of_fits hfits hrow
          apply wp_do
          apply wp_archival fun _ _ _ => ⟨rows, hcopied⟩
          intro w₇ e₄ r₄ w₈ _ _ _
          cases r₄ with
          | error err => trivial
          | ok _ => exact ih (moved + rows.length)

theorem wp_sweepTables {fuel : Nat} (tables : List ArchivalTable)
    (moved : List (ArchivalTable × Nat)) :
    wp archivalMachine KeepsLatest archivalSpec p
      (sweepTables batchSize maxRuntimeMs startedAt fuel tables moved) (fun _ _ => True) w := by
  induction tables generalizing moved w with
  | nil => trivial
  | cons table tables ih =>
    apply wp_do
    apply wp_mono _ (wp_sweepTable fuel 0)
    intro r w₁ _
    cases r with
    | error err => trivial
    | ok swept =>
      dsimp only
      split_ifs
      · trivial
      · exact ih _

theorem wp_archiveRegion (settings : ArchivalSettings) (fuel : Nat) (region : String)
    (opts : ArchiveRunOptions) :
    wp archivalMachine KeepsLatest archivalSpec p (archiveRegion settings fuel region opts)
      (fun _ _ => True) w := by
  apply wp_do
  apply wp_archival fun _ _ h => by cases h
  intro w₁ e₁ r₁ w₂ _ _ _
  cases r₁ with
  | error err => trivial
  | ok startedAt =>
    apply wp_do
    apply wp_mono _ (wp_sweepTables archivalTables [])
    intro r₂ w₃ _
    cases r₂ with
    | error err => trivial
    | ok swept =>
      apply wp_do
      apply wp_archival fun _ _ h => by cases h
      intro w₄ e₃ r₃ w₅ _ _ _
      cases r₃ <;> trivial

/-- In every interleaving of any runs of the worker with anything the other operations commit,
crashes included: what was deleted from the hot cluster is in the archive as it was, as long as an
insert meets no other row there and what is deleted is as it was selected. -/
theorem deleted_is_archived (settings : ArchivalSettings) (region : String)
    (runs : Nat → Option ArchivalRun) {w : Clusters} (hw : w.deleted = [])
    {t : Sys Nat ArchivalOp ArchivalOp.Res Err Clusters ArchiveRunResult}
    (h : archivalMachine.Reaches KeepsLatest (archiving settings region runs w) t) :
    t.world.Archived := by
  have hsound : Sound archivalMachine KeepsLatest archivalSpec (fun _ _ _ => True)
      (archiving settings region runs w) := by
    refine ⟨fun row hrow => ?_, fun p prog hprog => ?_⟩
    · have hrow' : row ∈ w.deleted := hrow
      rw [hw] at hrow'
      cases hrow'
    · obtain ⟨r, _, rfl⟩ := Option.map_eq_some_iff.mp hprog
      exact wp_archiveRegion settings r.fuel region r.opts
  exact (sound_reaches archivalSpec_fits (fun _ _ _ _ _ _ _ => trivial) hsound h).1

end Runs

section Samples

def archivalSettings : ArchivalSettings := ⟨1000, 60⟩

/-- One run, which has rounds enough. -/
def oneRun : Nat → Option ArchivalRun
  | 0 => some ⟨3, {}⟩
  | _ => none

/-- The first night of the year 2026; an order of the year before is on its way. -/
def newYearNight : Clusters where
  hot := { orders := [OrderEntity.sample "order-1" .picked] }
  clock := newYear 56 + 3 * 60 * 60 * 1000

def runSteps (n : Nat) : List (Label Nat ArchivalEnv (List Write)) := List.replicate n (.act 0 {})

/-- The order is delivered. -/
def deliveredThatNight : Label Nat ArchivalEnv (List Write) :=
  .ext [.setOrderStatus "order-1" .delivered (some .deliveredAt) 7]

/-- Status of the orders that were deleted and of those in the archive. -/
def movedOrders (t : Sys Nat ArchivalOp ArchivalOp.Res Err Clusters ArchiveRunResult) :
    List OrderStatus × List OrderStatus :=
  let statusOf := fun
    | ArchivalRow.order row => some row.status
    | _ => none
  (t.world.deleted.filterMap statusOf, t.world.archive.filterMap statusOf)

/-- The delivery comes before the selection. -/
theorem deleted_is_archived_night : ∃ t : Sys Nat ArchivalOp ArchivalOp.Res Err Clusters
      ArchiveRunResult,
    movedOrders t = ([.delivered], [.delivered]) ∧ t.world.Archived := by
  have hrun : (archivalMachine.run keepsLatest (runSteps 12 ++ [deliveredThatNight] ++ runSteps 4)
      (archiving archivalSettings "eg" oneRun newYearNight)).map movedOrders
        = some ([.delivered], [.delivered]) := by
    decide +kernel
  obtain ⟨t, ht, hend⟩ := Option.map_eq_some_iff.mp hrun
  have hreach : archivalMachine.Reaches KeepsLatest
      (archiving archivalSettings "eg" oneRun newYearNight) t :=
    Machine.reaches_of_run (fun _ _ _ _ h => h) _ ht
  exact ⟨t, hend, deleted_is_archived archivalSettings "eg" oneRun rfl hreach⟩

def payoutUnderKey (id : Nat) (createdAt : Time) : TransactionEntity where
  id := id
  region := "eg"
  orderId := none
  transactionType := .payout
  method := .bankTransfer
  providerId := none
  providerReferenceId := some "transfer"
  status := .succeeded
  amount := 500
  currency := "EGP"
  srcAccId := none
  dstAccId := some 9
  idempotencyKey := some "key"
  createdAt := createdAt
  updatedAt := createdAt

/-- A payout of last year; the archive has an older one with the same key. -/
def reusedKey : Clusters where
  hot := { transactions := [payoutUnderKey 5 (newYear 55)] }
  archive := [.transaction (payoutUnderKey 2 0)]
  clock := newYear 56

def lostAfter (steps : List (Label Nat ArchivalEnv (List Write))) (w : Clusters) : Option Bool :=
  (archivalMachine.run (fun _ _ _ _ => true) steps (archiving archivalSettings "eg" oneRun w)).map
    fun t => !decide t.world.Archived

theorem lost_of_lostAfter {steps : List (Label Nat ArchivalEnv (List Write))} {w : Clusters}
    (h : lostAfter steps w = some true) : ∃ t, archivalMachine.Reaches (fun _ _ _ _ => True)
      (archiving archivalSettings "eg" oneRun w) t ∧ ¬t.world.Archived := by
  obtain ⟨t, ht, hlost⟩ := Option.map_eq_some_iff.mp h
  have hreach := Machine.reaches_of_run (fun _ _ _ _ _ => trivial) _ ht
  exact ⟨t, hreach, by simpa using hlost⟩

/-- A delivery between copy and deletion is lost, and so is a payout whose key the archive has. -/
theorem delivery_lost_and_payout_lost :
    (∃ t, archivalMachine.Reaches (fun _ _ _ _ => True)
      (archiving archivalSettings "eg" oneRun newYearNight) t ∧ ¬t.world.Archived) ∧
    ∃ t, archivalMachine.Reaches (fun _ _ _ _ => True)
      (archiving archivalSettings "eg" oneRun reusedKey) t ∧ ¬t.world.Archived := by
  have hdelivery : lostAfter (runSteps 14 ++ [deliveredThatNight] ++ runSteps 1) newYearNight
      = some true := by decide +kernel
  have hpayout : lostAfter (runSteps 11) reusedKey = some true := by decide +kernel
  exact ⟨lost_of_lostAfter hdelivery, lost_of_lostAfter hpayout⟩

end Samples

end OrderService
