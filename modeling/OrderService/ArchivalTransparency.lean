import OrderService.ArchivalOrphans
import OrderService.ArchivedRows
import OrderService.Calls
import OrderService.DeliverySpec
import OrderService.Interleaving.Lockstep

/-! Whether the worker ran before a call or not: a call that looks at rows of the current year only
does the same. -/
namespace OrderService
open ReadCommitted Interleaving

section Statement

/-- The rows that an operation looks at; a statement that is not sent looks at none. -/
def World.lookedAt (w : World) (p : Pid) (e : Env) : Op → List ArchivalRow
  | .sql .pool q => if e.fail then [] else q.found w.store.db
  | .sql .trx q => if e.fail then [] else q.found (w.view p)
  | _ => []

def LooksAt (kind : ArchivalRow → Prop) (p : Pid) (o : Op) (e : Env) (w : World) : Prop :=
  ∀ row ∈ w.lookedAt p e o, kind row

instance (kind : ArchivalRow → Prop) [DecidablePred kind] (p : Pid) (o : Op) (e : Env) (w : World) :
    Decidable (LooksAt kind p o e w) :=
  inferInstanceAs (Decidable (∀ row ∈ w.lookedAt p e o, kind row))

/-- The same world on other committed tables. -/
def World.onHot (w : World) (db : Db) : World := { w with store := { w.store with db := db } }

/-- The second world has the same history, but some rows are gone from its tables; the transaction
of `p` has changed none of them. -/
def Missing (gone : List ArchivalRow) (p : Pid) (w v : World) : Prop :=
  ∃ db', v = w.onHot db' ∧ Trims gone w.store.db db' ∧ ∀ x ∈ w.log p, ∀ row ∈ gone, ¬x.touches row

end Statement

section Steps
variable {gone : List ArchivalRow} {p : Pid} {o : Op} {e : Env} {w v : World}

theorem Missing.keep (h : Missing gone p w v) {f : World → World}
    (hf : ∀ u db, f (u.onHot db) = (f u).onHot db) (hstore : ∀ u, (f u).store = u.store) :
    Missing gone p (f w) (f v) := by
  obtain ⟨db', rfl, htrims, hlog⟩ := h
  refine ⟨db', hf w db', by rwa [hstore], ?_⟩
  rw [World.log, hstore]
  exact hlog

theorem Missing.rollback (h : Missing gone p w v) : Missing gone p
    { w with store := w.store.rollback p } { v with store := v.store.rollback p } := by
  obtain ⟨db', rfl, htrims, _⟩ := h
  refine ⟨db', rfl, htrims, fun x hx => ?_⟩
  simp [World.log, Store.rollback, Txn.log] at hx

theorem missing_pool (h : Missing gone p w v) {q : Sql}
    (hlook : ∀ row ∈ q.found w.store.db, row ∉ gone) :
    Option.Rel (fun a b => a.1 = b.1 ∧ Missing gone p a.2 b.2) (execSql p .pool q w)
      (execSql p .pool q v) := by
  obtain ⟨db', rfl, htrims, hlog⟩ := h
  have heval : q.eval w.seqs w.clock db' = q.eval w.seqs w.clock w.store.db :=
    eval_trims htrims hlook w.seqs w.clock
  by_cases hheld : (engine.keys (q.eval w.seqs w.clock w.store.db)).any
      (fun k => w.store.locks.any fun l => l.1 = k) = true
  · simp only [execSql, Store.autocommit, World.onHot, heval, if_pos hheld]
    exact .none
  · simp only [execSql, Store.autocommit, World.onHot, heval, if_neg hheld]
    refine .some ⟨rfl, engine.applyAll (q.eval w.seqs w.clock w.store.db).writes db', rfl, ?_, hlog⟩
    apply trims_applyAll htrims
    intro x hx
    exact untouched_of_found htrims.held hlook (Sql.mayWrite_of_mem hx)

theorem missing_trx (h : Missing gone p w v) {q : Sql}
    (hlook : ∀ row ∈ q.found (w.view p), row ∉ gone) :
    Option.Rel (fun a b => a.1 = b.1 ∧ Missing gone p a.2 b.2) (execSql p .trx q w)
      (execSql p .trx q v) := by
  obtain ⟨db', rfl, htrims, hlog⟩ := h
  cases htxn : w.store.txn p with
  | active log =>
    rw [World.log, htxn] at hlog
    have hview : w.store.view engine p = engine.applyAll log w.store.db := by
      rw [Store.view, htxn]
      rfl
    have htrims' : Trims gone (engine.applyAll log w.store.db) (engine.applyAll log db') :=
      trims_applyAll htrims hlog
    rw [World.view, hview] at hlook
    have heval : q.eval w.seqs w.clock (engine.applyAll log db')
        = q.eval w.seqs w.clock (engine.applyAll log w.store.db) :=
      eval_trims htrims' hlook w.seqs w.clock
    by_cases hheld : (engine.keys (q.eval w.seqs w.clock (engine.applyAll log w.store.db))).any
        (w.store.heldByOther p) = true
    · have hheld' : (engine.keys (q.eval w.seqs w.clock (engine.applyAll log w.store.db))).any
          ((w.onHot db').store.heldByOther p) = true := hheld
      simp only [execSql, Store.query, Store.view, htxn, Txn.log, if_pos hheld]
      simp only [World.onHot] at hheld' ⊢
      simp only [htxn]
      rw [heval, if_pos hheld']
      exact .none
    · have hheld' : ¬(engine.keys (q.eval w.seqs w.clock (engine.applyAll log w.store.db))).any
          ((w.onHot db').store.heldByOther p) = true := hheld
      simp only [execSql, Store.query, Store.view, htxn, Txn.log, if_neg hheld]
      simp only [World.onHot] at hheld' ⊢
      simp only [htxn]
      rw [heval, if_neg hheld']
      refine .some ⟨rfl, db', rfl, htrims, fun x hx => ?_⟩
      simp only [World.log, Function.update_self, Txn.log, List.mem_append] at hx
      rcases hx with hx | hx
      · exact hlog x hx
      · exact untouched_of_found htrims'.held hlook (Sql.mayWrite_of_mem hx)
  | _ =>
    simp only [execSql, Store.query, World.onHot, htxn]
    exact .some ⟨rfl, db', rfl, htrims, hlog⟩

theorem missing_commit (h : Missing gone p w v) :
    Option.Rel (fun a b => a.1 = b.1 ∧ Missing gone p a.2 b.2) (exec p .commit e w)
      (exec p .commit e v) := by
  by_cases hfail : e.fail = true
  · simp only [exec, if_pos hfail]
    exact .some ⟨rfl, h.rollback⟩
  · obtain ⟨db', rfl, htrims, hlog⟩ := h
    simp only [exec, if_neg hfail, Store.commit, World.onHot]
    cases htxn : w.store.txn p with
    | active log =>
      rw [World.log, htxn] at hlog
      refine .some ⟨rfl, engine.applyAll log db', rfl, trims_applyAll htrims hlog, fun x hx => ?_⟩
      simp [World.log, Txn.log] at hx
    | _ => exact .some ⟨rfl, db', rfl, htrims, hlog⟩

/-- An operation that looks at no row that is gone does the same in both worlds. -/
theorem missing_exec (h : Missing gone p w v) (hlook : LooksAt (· ∉ gone) p o e w) :
    Option.Rel (fun a b => a.1 = b.1 ∧ Missing gone p a.2 b.2) (exec p o e w) (exec p o e v) := by
  cases o with
  | sql c q =>
    by_cases hfail : e.fail = true
    · simp only [exec, if_pos hfail]
      exact .some ⟨rfl, h⟩
    · simp only [exec, if_neg hfail]
      cases c with
      | pool =>
        simp only [LooksAt, World.lookedAt, if_neg hfail] at hlook
        exact missing_pool h hlook
      | trx =>
        simp only [LooksAt, World.lookedAt, if_neg hfail] at hlook
        exact missing_trx h hlook
  | commit => exact missing_commit h
  | rollback => exact .some ⟨rfl, h.rollback⟩
  | start =>
    by_cases hfail : e.fail = true
    · simp only [exec, if_pos hfail]
      exact .some ⟨rfl, h⟩
    · simp only [exec, if_neg hfail]
      obtain ⟨db', rfl, htrims, _⟩ := h
      refine .some ⟨rfl, db', rfl, htrims, fun x hx => ?_⟩
      simp [World.log, Store.start, Txn.log] at hx
  | randomUUID =>
    obtain ⟨db', rfl, htrims, hlog⟩ := h
    by_cases hused : e.uuid ∈ w.uuids
    · have hused' : e.uuid ∈ (w.onHot db').uuids := hused
      simp only [exec, if_pos hused, if_pos hused']
      exact .none
    · have hused' : e.uuid ∉ (w.onHot db').uuids := hused
      simp only [exec, if_neg hused, if_neg hused']
      exact .some ⟨rfl, db', rfl, htrims, hlog⟩
  | reserveStock b items key =>
    obtain ⟨db', rfl, htrims, hlog⟩ := h
    by_cases hfail : e.fail = true <;> simp only [exec, hfail] <;>
      exact .some ⟨rfl, db', rfl, htrims, hlog⟩
  | undoReserveStock b items key =>
    obtain ⟨db', rfl, htrims, hlog⟩ := h
    by_cases hfail : e.fail = true <;> simp only [exec, hfail] <;>
      exact .some ⟨rfl, db', rfl, htrims, hlog⟩
  | cache c =>
    obtain ⟨db', rfl, htrims, hlog⟩ := h
    by_cases hfail : e.fail = true <;> simp only [exec, hfail] <;>
      exact .some ⟨rfl, db', rfl, htrims, hlog⟩
  | _ =>
    obtain ⟨db', rfl, htrims, hlog⟩ := h
    exact .some ⟨rfl, db', rfl, htrims, hlog⟩

theorem missing_lockstep (gone : List ArchivalRow) (p : Pid) :
    Lockstep machine (LooksAt (· ∉ gone)) p (Missing gone p) where
  exec _ _ _ _ h hlook := missing_exec h hlook
  crash _ _ h := h.rollback
  ext x w v h := by
    obtain ⟨db', rfl, htrims, hlog⟩ := h
    cases x <;> exact ⟨db', rfl, htrims, hlog⟩

end Steps

section Worker
variable {gone : List ArchivalRow} {hot db : Db}

theorem Trims.mono {gone' : List ArchivalRow} (h : Trims gone hot db) (hgone : gone ⊆ gone')
    (hheld : ∀ row ∈ gone', ∃ table, row ∈ hot.rows table) : Trims gone' hot db where
  orders := h.orders.mono fun _ hr => hgone hr
  orderItems := h.orderItems.mono fun _ hr => hgone hr
  paymentSessions := h.paymentSessions.mono fun _ hr => hgone hr
  transactions := h.transactions.mono fun _ hr => hgone hr
  agentEarnings := h.agentEarnings.mono fun _ hr => hgone hr
  webhookEvents := h.webhookEvents.mono fun _ hr => hgone hr
  paymentProviders := h.paymentProviders
  restaurantBalances := h.restaurantBalances
  eventsOutbox := h.eventsOutbox
  held := hheld

theorem Trims.subset (h : Trims gone hot db) (table : ArchivalTable) :
    db.rows table ⊆ hot.rows table := by
  cases table with
  | agentEarnings => exact List.map_subset _ h.agentEarnings.subset
  | paymentWebhookEvents => exact List.map_subset _ h.webhookEvents.subset
  | paymentSessions => exact List.map_subset _ h.paymentSessions.subset
  | transactions => exact List.map_subset _ h.transactions.subset
  | orderItems => exact List.map_subset _ h.orderItems.subset
  | orders => exact List.map_subset _ h.orders.subset

theorem trims_deleteIds (h : Trims gone hot db) (ids : List Nat) (table : ArchivalTable) :
    Trims (gone ++ (db.rows table).filter fun r => r.id ∈ ids) hot (db.deleteIds ids table) := by
  have hmore : Trims (gone ++ (db.rows table).filter fun r => r.id ∈ ids) hot db := by
    refine h.mono (List.subset_append_left _ _) fun row hrow => ?_
    rcases List.mem_append.mp hrow with hrow | hrow
    · exact h.held row hrow
    · exact ⟨table, h.subset table (List.mem_filter.mp hrow).1⟩
  have hnew : ∀ row ∈ db.rows table, decide (row.id ∉ ids) = false →
      row ∈ gone ++ (db.rows table).filter fun r => r.id ∈ ids := by
    intro row hrow hid
    refine List.mem_append_right _ (List.mem_filter.mpr ⟨hrow, ?_⟩)
    simpa using hid
  cases table with
  | agentEarnings =>
    refine { hmore with agentEarnings := hmore.agentEarnings.shrink fun r hr hid => ?_ }
    exact hnew (.agentEarning r) (List.mem_map_of_mem hr) hid
  | paymentWebhookEvents =>
    refine { hmore with webhookEvents := hmore.webhookEvents.shrink fun r hr hid => ?_ }
    exact hnew (.webhookEvent r) (List.mem_map_of_mem hr) hid
  | paymentSessions =>
    refine { hmore with paymentSessions := hmore.paymentSessions.shrink fun r hr hid => ?_ }
    exact hnew (.paymentSession r) (List.mem_map_of_mem hr) hid
  | transactions =>
    refine { hmore with transactions := hmore.transactions.shrink fun r hr hid => ?_ }
    exact hnew (.transaction r) (List.mem_map_of_mem hr) hid
  | orderItems =>
    refine { hmore with orderItems := hmore.orderItems.shrink fun r hr hid => ?_ }
    exact hnew (.orderItem r) (List.mem_map_of_mem hr) hid
  | orders =>
    refine { hmore with orders := hmore.orders.shrink fun r hr hid => ?_ }
    exact hnew (.order r) (List.mem_map_of_mem hr) hid

/-- What a run of the worker takes away is what it has deleted. -/
theorem trims_archivalExec {p : Nat} {o : ArchivalOp} {e : ArchivalEnv} {c c' : Clusters}
    {r : Except Err o.Res} (h : Trims c.deleted hot c.hot)
    (hx : archivalExec p o e c = some (r, c')) : Trims c'.deleted hot c'.hot := by
  cases o with
  | clock =>
    cases hx
    exact h
  | selectBatch table limit =>
    simp only [archivalExec] at hx
    split_ifs at hx <;> cases hx <;> exact h
  | insertIgnoring rows =>
    simp only [archivalExec, Clusters.written] at hx
    split_ifs at hx <;> cases hx <;> exact h
  | deleteIds table ids =>
    simp only [archivalExec, Clusters.written] at hx
    split_ifs at hx <;> cases hx
    · exact trims_deleteIds h ids table
    · exact h
    · exact trims_deleteIds h ids table

/-- Every row has its own id in its table. -/
def Db.DistinctIds (db : Db) : Prop := ∀ table, ((db.rows table).map ArchivalRow.id).Nodup

/-- Where a run from `w₀` stands: nothing is new, and what it took away is of former years. -/
structure Retiring (w₀ w : Clusters) : Prop where
  trims : Trims w.deleted w₀.hot w.hot
  prior : ∀ row ∈ w.deleted, row.tsColumn < dateTruncYear w.clock

variable {p batchSize maxRuntimeMs startedAt : Nat} {w₀ w w' : Clusters} {o : ArchivalOp}
  {e : ArchivalEnv} {r : Except Err o.Res} {table : ArchivalTable}

/-- The ids belong to rows of former years. -/
def PriorIds (w₀ w : Clusters) (table : ArchivalTable) (ids : List Nat) : Prop :=
  ∀ id ∈ ids, ∃ row ∈ w₀.hot.rows table, row.id = id ∧ row.tsColumn < dateTruncYear w.clock

theorem Retiring.exec (hids : w₀.hot.DistinctIds) (h : Retiring w₀ w)
    (hx : archivalExec p o e w = some (r, w'))
    (hdeletes : ∀ table ids, o = .deleteIds table ids → PriorIds w₀ w table ids) :
    Retiring w₀ w' := by
  refine ⟨trims_archivalExec h.trims hx, fun row hrow => ?_⟩
  have hyear : dateTruncYear w.clock ≤ dateTruncYear w'.clock :=
    dateTruncYear_mono (archivalExec_clock hx)
  refine Nat.lt_of_lt_of_le ?_ hyear
  rcases archivalExec_deleted hx hrow with hold | ⟨table, ids, rfl, _, hfound, hid⟩
  · exact h.prior row hold
  · -- The row that was found is the one of its id that was selected.
    obtain ⟨row', hrow', heq, hprior⟩ := hdeletes table ids rfl row.id hid
    have hsame : row' = row :=
      List.inj_on_of_nodup_map (hids table) hrow' (h.trims.subset table hfound) heq
    rwa [hsame] at hprior

/-- One operation of a run by itself. -/
theorem wp_retiring {Q : Except Err o.Res → Clusters → Prop} (hids : w₀.hot.DistinctIds)
    (h : Retiring w₀ w)
    (hdeletes : ∀ table ids, o = .deleteIds table ids → PriorIds w₀ w table ids)
    (hQ : ∀ e r w₂, archivalExec p o e w = some (r, w₂) → Retiring w₀ w₂ → Q r w₂) :
    wp archivalMachine (fun _ _ _ _ => True) (soloSpec (Retiring w₀) p) p
      (awaitArchival o) Q w := by
  apply wp_perform
  intro w₁ hr _ e r w₂ _ hexec
  have hw₁ : w₁ = w := hr rfl
  subst hw₁
  have hx : archivalExec p o e w₁ = some (r, w₂) := hexec
  have h₂ := h.exec hids hx hdeletes
  exact ⟨h₂, fun q hq heq => absurd heq hq, hQ e r w₂ hx h₂⟩

theorem wp_sweepTable_retiring (hids : w₀.hot.DistinctIds) (fuel moved : Nat)
    (h : Retiring w₀ w) :
    wp archivalMachine (fun _ _ _ _ => True) (soloSpec (Retiring w₀) p) p
      (sweepTable batchSize maxRuntimeMs startedAt table fuel moved)
      (OnOk fun _ w' => Retiring w₀ w') w := by
  induction fuel generalizing moved w with
  | zero => trivial
  | succ fuel ih =>
    apply wp_do
    refine wp_retiring hids h (fun _ _ heq => by cases heq) fun e₁ r₁ w₁ _ h₁ => ?_
    cases r₁ with
    | error err => trivial
    | ok clock =>
      dsimp only
      split_ifs
      · exact h₁
      apply wp_do
      refine wp_retiring hids h₁ (fun _ _ heq => by cases heq) fun e₂ r₂ w₂ hx₂ h₂ => ?_
      cases r₂ with
      | error err => trivial
      | ok rows =>
        obtain ⟨hrows, _⟩ := archivalExec_batch hx₂
        dsimp only
        split_ifs
        · exact h₂
        apply wp_do
        refine wp_retiring hids h₂ (fun _ _ heq => by cases heq) fun e₃ r₃ w₃ hx₃ h₃ => ?_
        cases r₃ with
        | error err => trivial
        | ok _ =>
          have hprior : PriorIds w₀ w₃ table (rows.map ArchivalRow.id) := by
            intro id hid
            obtain ⟨row, hrow, rfl⟩ := List.mem_map.mp hid
            rw [hrows] at hrow
            obtain ⟨hmem, hold⟩ := mem_priorYears hrow
            exact ⟨row, h₁.trims.subset table hmem, rfl,
              Nat.lt_of_lt_of_le hold (dateTruncYear_mono (archivalExec_clock hx₃))⟩
          apply wp_do
          refine wp_retiring hids h₃ (fun _ _ heq => by cases heq; exact hprior)
            fun e₄ r₄ w₄ _ h₄ => ?_
          cases r₄ with
          | error err => trivial
          | ok _ => exact ih (moved + rows.length) h₄

theorem wp_sweepTables_retiring (hids : w₀.hot.DistinctIds) {fuel : Nat}
    (tables : List ArchivalTable) (moved : List (ArchivalTable × Nat)) (h : Retiring w₀ w) :
    wp archivalMachine (fun _ _ _ _ => True) (soloSpec (Retiring w₀) p) p
      (sweepTables batchSize maxRuntimeMs startedAt fuel tables moved)
      (OnOk fun _ w' => Retiring w₀ w') w := by
  induction tables generalizing moved w with
  | nil => exact h
  | cons table tables ih =>
    apply wp_do
    apply wp_mono _ (wp_sweepTable_retiring hids fuel 0 h)
    intro r w₁ h₁
    cases r with
    | error err => trivial
    | ok swept =>
      dsimp only
      split_ifs
      · exact h₁
      · exact ih _ h₁

/-- Wherever a run of the worker stands, stops or dies, it took away rows of former years only. -/
theorem retiring_runAlone (hids : w₀.hot.DistinctIds) (hnew : w₀.deleted = [])
    (settings : ArchivalSettings) (fuel : Nat) (region : String) (opts : ArchiveRunOptions)
    (es : List ArchivalEnv) :
    Retiring w₀ (archivalMachine.runAlone p (archiveRegion settings fuel region opts) es w₀).2 := by
  have hstart : Retiring w₀ w₀ := by
    refine ⟨?_, fun row hrow => ?_⟩
    · rw [hnew]
      exact .refl _
    · rw [hnew] at hrow
      cases hrow
  have hwp : wp archivalMachine (fun _ _ _ _ => True) (soloSpec (Retiring w₀) p) p
      (archiveRegion settings fuel region opts) (OnOk fun _ _ => True) w₀ := by
    apply wp_do
    refine wp_retiring hids hstart (fun _ _ heq => by cases heq) fun e₁ r₁ w₁ _ h₁ => ?_
    cases r₁ with
    | error err => trivial
    | ok startedAt =>
      apply wp_do
      apply wp_mono _ (wp_sweepTables_retiring hids archivalTables [] h₁)
      intro r₂ w₂ h₂
      cases r₂ with
      | error err => trivial
      | ok swept =>
        apply wp_do
        refine wp_retiring hids h₂ (fun _ _ heq => by cases heq) fun e₃ r₃ w₃ _ _ => ?_
        cases r₃ <;> trivial
  have hsound := runAlone_sound (fun _ _ => rfl) hstart hwp (runMeets_true _ es w₀)
  cases hrun : archivalMachine.runAlone p (archiveRegion settings fuel region opts) es w₀ with
  | mk outcome w' =>
    rw [hrun] at hsound
    cases outcome with
    | returned a => exact hsound.1
    | threw err => exact hsound.1
    | crashed =>
      obtain ⟨v, hv, _, rfl⟩ := hsound
      exact hv

end Worker

section Result

/-- Run by the worker before it or not, a program that looks at no row of a former year comes to
the same end, and leaves the same tables but for the rows that the worker took away. -/
theorem archival_transparent {w : World} {p : Pid} (hidle : w.log p = [])
    (hids : w.store.db.DistinctIds) {c : Clusters} (hhot : c.hot = w.store.db)
    (hnew : c.deleted = []) (settings : ArchivalSettings) (fuel : Nat) (region : String)
    (opts : ArchiveRunOptions) (sweeps : List ArchivalEnv) {α : Type} (prog : Svc α)
    (es : List (List Ext × Env)) :
    let swept := (archivalMachine.runAlone 0 (archiveRegion settings fuel region opts) sweeps c).2
    Attempts machine.paced (fun p o e v => LooksAt (fun row => dateTruncYear swept.clock ≤
      row.tsColumn) p o e.2 (machine.moves e.1 v)) p prog es w →
    let unswept := machine.paced.runAlone p prog es w
    let after := machine.paced.runAlone p prog es (w.onHot swept.hot)
    after.1 = unswept.1 ∧ ∃ db, after.2 = unswept.2.onHot db ∧
      Trims swept.deleted unswept.2.store.db db := by
  intro swept hlooks unswept after
  have hretiring : Retiring c swept :=
    retiring_runAlone (hhot ▸ hids) hnew settings fuel region opts sweeps
  have hkept : Attempts machine.paced (fun p o e v => LooksAt (· ∉ swept.deleted) p o e.2
      (machine.moves e.1 v)) p prog es w := by
    apply hlooks.mono
    intro o e v hlook row hrow hgone
    exact absurd (hretiring.prior row hgone) (Nat.not_lt.mpr (hlook row hrow))
  have hstart : Missing swept.deleted p w (w.onHot swept.hot) := by
    refine ⟨swept.hot, rfl, ?_, fun x hx => ?_⟩
    · rw [← hhot]
      exact hretiring.trims
    · rw [hidle] at hx
      cases hx
  obtain ⟨hsame, db, hafter, htrims, _⟩ :=
    (missing_lockstep swept.deleted p).paced.runAlone hstart hkept
  exact ⟨hsame.symm, db, hafter, htrims⟩

end Result

section Samples

/-- An order of 2025 that was delivered and one of the new year that is on its way. -/
def bothYears : World :=
  { store := Store.ofDb { (lastOrderOf2025 (newYear 56 - 1)).hot with
      orders := [{ OrderEntity.sample "order-1" .delivered with createdAt := newYear 56 - 1 },
        { OrderEntity.sample "order-2" .picked with id := 2, createdAt := newYear 56 + 1 }] }
    clock := newYear 56 + 3 * 60 * 60 * 1000 }

def bothYearsHot : Clusters := { lastOrderOf2025 (newYear 56 - 1) with hot := bothYears.store.db }

/-- What is left of them when the worker has run that night. -/
def sweptYears : Clusters :=
  (archivalMachine.runAlone 0 (archiveRegion archivalSettings 3 "eg" {}) (List.replicate 20 {})
    bothYearsHot).2

/-- The agent delivers the order of the new year. -/
def deliverOrder2 (w : World) : Outcome Err OrderEntity × World :=
  machine.paced.runAlone 0 (agentUpdateStatus sampleConfig "order-2" 7 "eg" .delivered)
    (List.replicate 40 ([], tenPercent)) w

/-- The order of 2025 and what was earned with it are gone; the other one is delivered just so. -/
theorem archival_transparent_delivery :
    sweptYears.deleted.length = 2 ∧ (deliverOrder2 bothYears).1.isReturned = true ∧
      (deliverOrder2 (bothYears.onHot sweptYears.hot)).1 = (deliverOrder2 bothYears).1 ∧
      ∃ db, (deliverOrder2 (bothYears.onHot sweptYears.hot)).2
          = (deliverOrder2 bothYears).2.onHot db ∧
        Trims sweptYears.deleted (deliverOrder2 bothYears).2.store.db db := by
  have hgone : sweptYears.deleted.length = 2 := by decide +kernel
  have hdelivered : (deliverOrder2 bothYears).1.isReturned = true := by decide +kernel
  have hids : bothYears.store.db.DistinctIds := by
    intro table
    cases table <;> decide
  have hlooks : Attempts machine.paced (fun p o e v => LooksAt (fun row =>
      dateTruncYear sweptYears.clock ≤ row.tsColumn) p o e.2 (machine.moves e.1 v)) 0
      (agentUpdateStatus sampleConfig "order-2" 7 "eg" .delivered)
      (List.replicate 40 ([], tenPercent)) bothYears := by
    decide +kernel
  have hhot : bothYearsHot.hot = bothYears.store.db := rfl
  exact ⟨hgone, hdelivered, archival_transparent rfl hids hhot rfl archivalSettings 3 "eg" {}
    (List.replicate 20 {}) _ _ hlooks⟩

end Samples

end OrderService
