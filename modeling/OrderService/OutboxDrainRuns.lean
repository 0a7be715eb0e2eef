import OrderService.OutboxDrainSafety

/-! One run that drains the outbox while the others run. -/
namespace OrderService
open ReadCommitted Interleaving

section Machine
variable {w w' : OutboxWorld} {p q : Nat} {kept : String → Prop}

/-- A statement fails, or the query is made; after the error of an open transaction it is
aborted. -/
theorem statement_cases {ρ : Type} {e : DrainEnv}
    {ask : List OutboxRecord → Answer OutboxWrite Nat ρ} {r : Except Err ρ}
    (h : w.statement p e ask = some (r, w')) :
    (∃ err, r = .error err ∧ w'.store = w.store ∧ w'.trace = w.trace ∧
      (∀ q, q ≠ p → w'.aborted q = w.aborted q) ∧
      (w.aborted p = true ∨ (∃ log, w.store.txn p = .active log) → w'.aborted p = true)) ∨
    ∃ a s', r = .ok a ∧ w.aborted p = false ∧
      w.store.query outboxEngine p ask = some (some a, s') ∧ w' = { w with store := s' } := by
  unfold OutboxWorld.statement at h
  by_cases habort : w.aborted p = true
  · rw [if_pos habort] at h
    cases h
    exact .inl ⟨.failed, rfl, rfl, rfl, fun _ _ => rfl, fun _ => habort⟩
  rw [if_neg habort] at h
  by_cases hfail : e.fail = true
  · rw [if_pos hfail] at h
    cases h
    exact .inl ⟨.failed, rfl, rfl, rfl, fun q hqp => Function.update_of_ne hqp _ _,
      fun _ => Function.update_self _ _ _⟩
  rw [if_neg hfail] at h
  obtain ⟨⟨reply, s'⟩, hquery, hreply⟩ := Option.map_eq_some_iff.mp h
  cases reply with
  | none =>
    cases hreply
    refine .inl ⟨.completed, rfl, rfl, rfl, fun _ _ => rfl, fun hopen => ?_⟩
    rcases query_cases hquery with ⟨_, _, hno⟩ | ⟨_, _, hsome, _⟩
    · rcases hopen with hopen | ⟨log, hlog⟩
      · exact absurd hopen habort
      · exact absurd hlog (hno log)
    · cases hsome
  | some a =>
    cases hreply
    exact .inr ⟨a, s', rfl, by simpa using habort, hquery, rfl⟩

theorem DrainRely.refl (p : Nat) (w : OutboxWorld) : DrainRely kept p w w :=
  ⟨.refl p _, rfl, ⟨[], by simp, by simp⟩, fun row hrow _ => .inl ⟨row, hrow, .refl row⟩⟩

theorem DrainRely.row_stays (h : DrainRely kept p w w') {row : OutboxRecord}
    (hrow : row ∈ w.store.db) : ∃ row' ∈ w'.store.db, SameRow row row' := by
  obtain ⟨bs, _, hdb, _, _⟩ := h.store.commits
  rw [hdb]
  exact mem_applyAll_same hrow _

theorem DrainRely.trans {w'' : OutboxWorld} (h : DrainRely kept p w w')
    (h' : DrainRely kept p w' w'') : DrainRely kept p w w'' := by
  obtain ⟨es, htrace, hrun⟩ := h.trace
  obtain ⟨es', htrace', hrun'⟩ := h'.trace
  refine ⟨h.store.trans h'.store, h'.aborted.trans h.aborted, ⟨es ++ es', ?_, ?_⟩, ?_⟩
  · rw [htrace', htrace, List.append_assoc]
  · intro ev hev
    rcases List.mem_append.mp hev with hev | hev
    · exact hrun ev hev
    · exact hrun' ev hev
  · intro row'' hrow'' hkept
    rcases h'.above row'' hrow'' hkept with ⟨row', hrow', hsame'⟩ | habove'
    · obtain ⟨hid', _, hagg'⟩ := hsame'
      rcases h.above row' hrow' (hagg' ▸ hkept) with ⟨row, hrow, hsame⟩ | habove
      · exact .inl ⟨row, hrow, hsame.trans ⟨hid', by assumption, hagg'⟩⟩
      · refine .inr fun row hrow hagg => ?_
        rw [hid']
        exact habove row hrow (hagg.trans hagg')
    · refine .inr fun row hrow hagg => ?_
      obtain ⟨row', hrow', hid', _, hagg'⟩ := h.row_stays hrow
      rw [← hid']
      exact habove' row' hrow' (hagg'.trans hagg)

/-- A step that brings no new row. -/
theorem DrainRely.of_rows (hstore : Rely outboxEngine q w.store w'.store)
    (haborted : w'.aborted q = w.aborted q) {es : List DrainEvent}
    (htrace : w'.trace = w.trace ++ es) (hes : ∀ ev ∈ es, ev.run ≠ q)
    (hrows : ∀ row' ∈ w'.store.db, ∃ row ∈ w.store.db, SameRow row row') :
    DrainRely kept q w w' :=
  ⟨hstore, haborted, ⟨es, htrace, hes⟩, fun row' hrow' _ => .inl (hrows row' hrow')⟩

theorem same_rows (hdb : w'.store.db = w.store.db) :
    ∀ row' ∈ w'.store.db, ∃ row ∈ w.store.db, SameRow row row' :=
  fun row' hrow' => ⟨row', hdb ▸ hrow', .refl row'⟩

theorem statement_rely {ρ : Type} {e : DrainEnv}
    {ask : List OutboxRecord → Answer OutboxWrite Nat ρ} {r : Except Err ρ}
    (h : w.statement p e ask = some (r, w')) (hqp : q ≠ p) : DrainRely kept q w w' := by
  rcases statement_cases h with ⟨_, _, hstore, htrace, haborted, _⟩ | ⟨_, s', _, _, hquery, rfl⟩
  · exact .of_rows (.of_eq_store hstore) (haborted q hqp) (by simpa using htrace)
      (fun _ hev => absurd hev List.not_mem_nil) (same_rows (congrArg Store.db hstore))
  · refine .of_rows (query_rely hquery hqp) rfl (List.append_nil _).symm
      (fun _ hev => absurd hev List.not_mem_nil) (same_rows ?_)
    rcases query_cases hquery with ⟨_, rfl, _⟩ | ⟨_, _, _, _, rfl⟩ <;> rfl

/-- What a rollback tells, and the store that it leaves. -/
theorem rolledBack_trace (w : OutboxWorld) (p : Nat) : ∃ es,
    (w.rolledBack p).trace = w.trace ++ es ∧ ∀ ev ∈ es, ev = .rolledBack p := by
  simp only [OutboxWorld.rolledBack]
  split
  · exact ⟨[.rolledBack p], rfl, fun ev hev => List.mem_singleton.mp hev⟩
  · exact ⟨[], by simp, by simp⟩

theorem rolledBack_rely (hqp : q ≠ p) : DrainRely kept q w (w.rolledBack p) := by
  obtain ⟨es, htrace, hes⟩ := rolledBack_trace w p
  refine .of_rows (rollback_rely hqp) rfl htrace (fun ev hev => ?_) (same_rows rfl)
  rw [hes ev hev]
  exact hqp.symm

/-- A commit marks rows, and brings none. -/
theorem committed_rows (hinv : DrainInv w) (h : w.committed p = some w') :
    (∃ es, w'.trace = w.trace ++ [.committed p es]) ∧
      ∀ row' ∈ w'.store.db, ∃ row ∈ w.store.db, SameRow row row' := by
  obtain ⟨s', hs', rfl⟩ := Option.map_eq_some_iff.mp h
  obtain ⟨log, hlog, rfl⟩ := commit_cases hs'
  refine ⟨⟨_, rfl⟩, fun row' hrow' => ?_⟩
  have hplain : ∀ x ∈ log, ∀ row, x ≠ .insert row := by
    intro x hx
    exact hinv.marks p x (by rw [hlog]; exact hx)
  obtain ⟨row, hrow, hsame, _⟩ := of_mem_applyAll_marks hplain hrow'
  exact ⟨row, hrow, hsame⟩

theorem drainCommitted_rely (hinv : DrainInv w) (h : w.committed p = some w') (hqp : q ≠ p) :
    DrainRely kept q w w' := by
  obtain ⟨⟨es, htrace⟩, hrows⟩ := committed_rows hinv h
  have hstore : Rely outboxEngine q w.store w'.store ∧ w'.aborted q = w.aborted q := by
    obtain ⟨s', hs', rfl⟩ := Option.map_eq_some_iff.mp h
    exact ⟨commit_rely hinv.locked hs' hqp, rfl⟩
  refine .of_rows hstore.1 hstore.2 htrace (fun ev hev => ?_) hrows
  rw [List.mem_singleton.mp hev]
  exact hqp.symm

/-- `COMMIT` commits, or it rolls back, or there was nothing to end. -/
theorem commit_op_cases {e : DrainEnv} {r : Except Err Unit}
    (h : drainExec p .commit e w = some (r, w')) :
    w' = w.rolledBack p ∨ w.committed p = some w' ∨ (w' = w ∧ w.committed p = none) := by
  simp only [drainExec] at h
  by_cases habort : w.aborted p = true
  · rw [if_pos habort] at h
    cases h
    exact .inl rfl
  rw [if_neg habort] at h
  by_cases hlost : (e.fail && !e.applied) = true
  · rw [if_pos hlost] at h
    cases h
    exact .inl rfl
  rw [if_neg hlost] at h
  cases hcommit : w.committed p with
  | none =>
    rw [hcommit] at h
    cases h
    exact .inr (.inr ⟨rfl, rfl⟩)
  | some w₁ =>
    rw [hcommit] at h
    cases h
    exact .inr (.inl rfl)

/-- The others may rely on what any operation of a run does. -/
theorem drain_rely (hinv : DrainInv w) {o : DrainOp} {e : DrainEnv} {r : Except Err o.Res}
    (hturn : ∀ a, kept a → InTurn a p o e w) (hx : drainExec p o e w = some (r, w'))
    (hqp : q ≠ p) : DrainRely kept q w w' := by
  cases o with
  | now =>
    cases hx
    exact .refl q w
  | start =>
    simp only [drainExec] at hx
    split_ifs at hx
    · cases hx
      exact .refl q w
    · cases hx
      exact .of_rows (start_rely hqp) (Function.update_of_ne hqp _ _) (List.append_nil _).symm
        (fun _ hev => absurd hev List.not_mem_nil) (same_rows rfl)
  | rollback =>
    cases hx
    exact rolledBack_rely hqp
  | commit =>
    rcases commit_op_cases hx with rfl | hcommit | ⟨rfl, _⟩
    · exact rolledBack_rely hqp
    · exact drainCommitted_rely hinv hcommit hqp
    · exact .refl q w'
  | claimBatch limit => exact statement_rely hx hqp
  | markDispatched id now => exact statement_rely hx hqp
  | markFailed id err => exact statement_rely hx hqp
  | publish exchange routingKey message =>
    cases hx
    refine .of_rows (.refl q _) rfl rfl (fun ev hev => ?_) (same_rows rfl)
    rw [List.mem_singleton.mp hev]
    exact hqp.symm
  | insert rows =>
    simp only [drainExec] at hx
    split_ifs at hx
    obtain ⟨⟨_, s'⟩, hauto, heq⟩ := Option.map_eq_some_iff.mp hx
    cases heq
    refine ⟨autocommit_rely hauto hqp, rfl, ⟨[], by simp, by simp⟩, fun row' hrow' hkept => ?_⟩
    obtain ⟨_, _, rfl⟩ := autocommit_cases hauto
    rw [applyAll_insert] at hrow'
    rcases List.mem_append.mp hrow' with hrow' | hrow'
    · exact .inl ⟨row', hrow', .refl row'⟩
    · exact .inr fun row hrow hagg => hturn _ hkept row' hrow' rfl row hrow hagg

theorem OrderKept.of_same (h : OrderKept kept w) (hstore : w'.store = w.store)
    (htrace : w'.trace = w.trace) : OrderKept kept w' :=
  h.extend (by simpa using htrace) (fun _ _ => List.not_mem_nil)
    (same_rows (congrArg Store.db hstore))

theorem query_db {ρ : Type} {ask : List OutboxRecord → Answer OutboxWrite Nat ρ} {r : Option ρ}
    {s' : Store Nat (List OutboxRecord) OutboxWrite Nat}
    (hx : w.store.query outboxEngine p ask = some (r, s')) : s'.db = w.store.db := by
  rcases query_cases hx with ⟨_, rfl, _⟩ | ⟨_, _, _, _, rfl⟩ <;> rfl

theorem OrderKept.query (h : OrderKept kept w) {ρ : Type}
    {ask : List OutboxRecord → Answer OutboxWrite Nat ρ} {r : Option ρ}
    {s' : Store Nat (List OutboxRecord) OutboxWrite Nat}
    (hx : w.store.query outboxEngine p ask = some (r, s')) :
    OrderKept kept { w with store := s' } :=
  h.extend (List.append_nil _).symm (fun _ _ => List.not_mem_nil) (same_rows (query_db hx))

theorem OrderKept.rolledBack (h : OrderKept kept w) (p : Nat) : OrderKept kept (w.rolledBack p) := by
  obtain ⟨es, htrace, hes⟩ := rolledBack_trace w p
  exact h.extend htrace (fun run m hm => by cases hes _ hm) (same_rows rfl)

theorem drainSpec_fits (kept : String → Prop) : (drainSpec kept).Fits outboxMachine where
  refl := DrainRely.refl
  trans _ _ _ _ h h' := h.trans h'
  crash p _ h := ⟨⟨h.1.rolledBack p, h.2.rolledBack p⟩, fun _ hqp => rolledBack_rely hqp⟩
  ext _ _ h := ⟨⟨h.1.of_same rfl rfl, h.2.of_same rfl rfl⟩,
    fun _ => .of_rows (.refl _ _) rfl (List.append_nil _).symm
      (fun _ hev => absurd hev List.not_mem_nil) (same_rows rfl)⟩

end Machine

section Knowledge
variable {kept : String → Prop} {w w' : OutboxWorld} {p : Nat} {row : OutboxRecord}
  {rest : List OutboxRecord} {unmarked : List String}

/-- The run is still to start. -/
structure Unstarted (p : Nat) (w : OutboxWorld) : Prop where
  idle : w.store.txn p = .idle
  silent : ∀ ev ∈ w.trace, ev.run ≠ p

/-- The run has the lock of the row. -/
def RowHeld (p : Nat) (row : OutboxRecord) (w : OutboxWorld) : Prop :=
  row ∈ w.store.db ∧ (row.id, p) ∈ w.store.locks

/-- The run has still to publish `rest`, in the order of the ids, and to mark the events
`unmarked`. What lies below a row of `rest`, in an aggregate that is kept in order, is confirmed
or comes first. -/
structure Draining (kept : String → Prop) (p : Nat) (rest : List OutboxRecord)
    (unmarked : List String) (w : OutboxWorld) : Prop where
  active : ∃ log, w.store.txn p = .active log
  sorted : rest.Pairwise fun r r' => r.id < r'.id
  distinct : (rest.map fun r => r.eventId).Nodup
  held : ∀ row ∈ rest, RowHeld p row w ∧ row.dispatchedAt = none
  unpublished : ∀ row ∈ rest, ∀ m c, .published p m c ∈ w.trace → m.eventId ≠ row.eventId
  below : ∀ row' ∈ rest, kept row'.aggregateId → ∀ row ∈ w.store.db,
    row.aggregateId = row'.aggregateId → row.id < row'.id →
      Confirmed w.trace row.eventId ∨ row.eventId ∈ rest.map fun r => r.eventId
  marked : ∀ m, .published p m true ∈ w.trace → m.eventId ∈ unmarked ∨
    ∃ row ∈ w.store.db, row.eventId = m.eventId ∧
      ∃ now, .markDispatched row.id now ∈ (w.store.txn p).log

theorem DrainRely.own_event (h : DrainRely kept p w w') {ev : DrainEvent} (hrun : ev.run = p)
    (hev : ev ∈ w'.trace) : ev ∈ w.trace := by
  obtain ⟨es, htrace, hes⟩ := h.trace
  rw [htrace] at hev
  rcases List.mem_append.mp hev with hev | hev
  · exact hev
  · exact absurd hrun (hes ev hev)

theorem DrainRely.mem_trace (h : DrainRely kept p w w') {ev : DrainEvent} (hev : ev ∈ w.trace) :
    ev ∈ w'.trace := by
  obtain ⟨es, htrace, _⟩ := h.trace
  rw [htrace]
  exact List.mem_append_left es hev

theorem Unstarted.stable (h : Unstarted p w) (hr : DrainRely kept p w w') : Unstarted p w' :=
  ⟨hr.store.txn.trans h.idle, fun ev hev hrun => h.silent ev (hr.own_event hrun hev) hrun⟩

theorem RowHeld.stable (h : RowHeld p row w) (hr : DrainRely kept p w w') : RowHeld p row w' := by
  obtain ⟨bs, _, hdb, _, hfree⟩ := hr.store.commits
  refine ⟨?_, (hr.store.locks _).mpr h.2⟩
  rw [hdb]
  apply mem_applyAll_of_key h.1
  intro x hx hkey
  obtain ⟨b, hb, hxb⟩ := List.mem_flatMap.mp hx
  exact hfree b hb x hxb _ hkey h.2

theorem Confirmed.stable {e : String} (h : Confirmed w.trace e) (hr : DrainRely kept p w w') :
    Confirmed w'.trace e := by
  obtain ⟨run, m, hm, he⟩ := h
  exact ⟨run, m, hr.mem_trace hm, he⟩

theorem Draining.stable (h : Draining kept p rest unmarked w) (hr : DrainRely kept p w w') :
    Draining kept p rest unmarked w' := by
  constructor
  case active => exact hr.store.txn ▸ h.active
  case sorted => exact h.sorted
  case distinct => exact h.distinct
  case held =>
    intro row hrow
    exact ⟨(h.held row hrow).1.stable hr, (h.held row hrow).2⟩
  case unpublished =>
    intro row hrow m c hm
    exact h.unpublished row hrow m c (hr.own_event rfl hm)
  case below =>
    intro row' hrow' hkept row₁ hrow₁ hagg hlt
    -- The others bring nothing in below a row that is there.
    rcases hr.above row₁ hrow₁ (hagg ▸ hkept) with ⟨row, hrow, hid, hev, hagg'⟩ | habove
    · rw [hev]
      refine (h.below row' hrow' hkept row hrow (hagg'.symm.trans hagg) (by omega)).imp_left ?_
      exact fun hconfirmed => hconfirmed.stable hr
    · have hlow := habove row' (h.held row' hrow').1.1 hagg.symm
      omega
  case marked =>
    intro m hm
    rcases h.marked m (hr.own_event rfl hm) with hopen | ⟨row, hrow, hev, hmark⟩
    · exact .inl hopen
    · obtain ⟨row', hrow', hid', hev', _⟩ := hr.row_stays hrow
      refine .inr ⟨row', hrow', hev'.trans hev, ?_⟩
      rw [hr.store.txn, hid']
      exact hmark

/-- What lies below the next row is confirmed. -/
theorem Draining.first (h : Draining kept p (row :: rest) unmarked w) (hinv : DrainInv w)
    (hkept : kept row.aggregateId) {r : OutboxRecord} (hr : r ∈ w.store.db)
    (hagg : r.aggregateId = row.aggregateId) (hlt : r.id < row.id) :
    Confirmed w.trace r.eventId := by
  rcases h.below row List.mem_cons_self hkept r hr hagg hlt with hconfirmed | hmem
  · exact hconfirmed
  · obtain ⟨r', hr', hev⟩ := List.mem_map.mp hmem
    have hsame : r' = r := hinv.row_eq_event (h.held r' hr').1.1 hr hev
    subst hsame
    rcases List.mem_cons.mp hr' with rfl | hlater
    · omega
    · have hgreater := (List.pairwise_cons.mp h.sorted).1 r' hlater
      omega

/-- The broker confirms the next row. -/
theorem Draining.publish (h : Draining kept p (row :: rest) [] w) {m : OutboxEnvelope}
    (hm : m.eventId = row.eventId) :
    Draining kept p rest [row.eventId] { w with trace := w.trace ++ [.published p m true] } := by
  have hnot := (List.nodup_cons.mp h.distinct).1
  have hconfirmed : Confirmed (w.trace ++ [.published p m true]) row.eventId :=
    ⟨p, m, List.mem_append_right _ List.mem_cons_self, hm⟩
  constructor
  case active => exact h.active
  case sorted => exact (List.pairwise_cons.mp h.sorted).2
  case distinct => exact (List.nodup_cons.mp h.distinct).2
  case held =>
    intro r hr
    exact h.held r (List.mem_cons_of_mem row hr)
  case unpublished =>
    intro r hr m' c' hm'
    rcases List.mem_append.mp hm' with hm' | hm'
    · exact h.unpublished r (List.mem_cons_of_mem row hr) m' c' hm'
    · cases List.mem_singleton.mp hm'
      rw [hm]
      exact fun heq => hnot (List.mem_map.mpr ⟨r, hr, heq.symm⟩)
  case below =>
    intro r hr hkept r₁ hr₁ hagg hlt
    rcases h.below r (List.mem_cons_of_mem row hr) hkept r₁ hr₁ hagg hlt with hbefore | hmem
    · exact .inl (hbefore.append _)
    · rcases List.mem_cons.mp hmem with hhead | hmem
      · rw [hhead]
        exact .inl hconfirmed
      · exact .inr hmem
  case marked =>
    intro m' hm'
    rcases List.mem_append.mp hm' with hm' | hm'
    · rcases h.marked m' hm' with hopen | hmark
      · exact absurd hopen List.not_mem_nil
      · exact .inr hmark
    · cases List.mem_singleton.mp hm'
      exact .inl (List.mem_singleton.mpr hm)

/-- The publication of the next row fails, and the rest of the batch is given up. -/
theorem Draining.giveUp (h : Draining kept p rest [] w) (m : OutboxEnvelope) :
    Draining kept p [] [] { w with trace := w.trace ++ [.published p m false] } := by
  refine ⟨h.active, .nil, List.nodup_nil, by simp, by simp, by simp, fun m' hm' => ?_⟩
  rcases List.mem_append.mp hm' with hm' | hm'
  · exact h.marked m' hm'
  · cases List.mem_singleton.mp hm'

/-- A statement of the run keeps what it knows; a stamp settles the event of its row. -/
theorem Draining.query (h : Draining kept p rest unmarked w) {ρ : Type}
    {ask : List OutboxRecord → Answer OutboxWrite Nat ρ} {r : ρ}
    {s' : Store Nat (List OutboxRecord) OutboxWrite Nat}
    (hx : w.store.query outboxEngine p ask = some (some r, s')) {unmarked' : List String}
    (hsettled : ∀ e ∈ unmarked, e ∈ unmarked' ∨ ∃ row ∈ w.store.db, row.eventId = e ∧
      ∃ now, .markDispatched row.id now ∈ (ask (w.store.view outboxEngine p)).writes) :
    Draining kept p rest unmarked' { w with store := s' } := by
  rcases query_cases hx with ⟨hnone, _, _⟩ | ⟨log, hlog, _, _, rfl⟩
  · cases hnone
  have hlogs : (w.store.txn p).log = log := by rw [hlog]; rfl
  constructor
  case active => exact ⟨_, Function.update_self _ _ _⟩
  case sorted => exact h.sorted
  case distinct => exact h.distinct
  case held =>
    intro row hrow
    obtain ⟨⟨hmem, hlock⟩, hfree⟩ := h.held row hrow
    exact ⟨⟨hmem, List.mem_append_left _ hlock⟩, hfree⟩
  case unpublished => exact h.unpublished
  case below => exact h.below
  case marked =>
    intro m hm
    simp only [Function.update_self, Txn.log, List.mem_append]
    rcases h.marked m hm with hopen | ⟨row, hrow, hev, now, hmark⟩
    · rcases hsettled _ hopen with hopen | ⟨row, hrow, hev, now, hmark⟩
      · exact .inl hopen
      · exact .inr ⟨row, hrow, hev, now, .inr hmark⟩
    · exact .inr ⟨row, hrow, hev, now, .inl (hlogs ▸ hmark)⟩

end Knowledge

section Claiming
variable {w : OutboxWorld} {p limit : Nat} {row row' : OutboxRecord} {db : List OutboxRecord}

/-- The transaction of the run is not open. -/
def RunEnded (p : Nat) (w : OutboxWorld) : Prop := ∀ log, w.store.txn p ≠ .active log

theorem runEnded_rolledBack : RunEnded p (w.rolledBack p) := by
  intro log hlog
  have hclosed : (w.rolledBack p).store.txn p = .closed := Function.update_self _ _ _
  rw [hclosed] at hlog
  cases hlog

/-- The claimed rows are undispatched rows of the table. -/
theorem mem_claimBatch (h : row ∈ (w.claimBatch p limit db).reply) :
    row ∈ db ∧ row.dispatchedAt = none := by
  have hclaim : row ∈ claimable w p db := (List.mem_insertionSort _).mp (List.mem_of_mem_take h)
  obtain ⟨hdb, htest⟩ := List.mem_filter.mp hclaim
  rw [Bool.and_eq_true, Option.isNone_iff_eq_none] at htest
  exact ⟨hdb, htest.1⟩

theorem nodup_claimBatch {β : Type} (f : OutboxRecord → β) (h : (db.map f).Nodup) :
    ((w.claimBatch p limit db).reply.map f).Nodup := by
  have hclaim : ((claimable w p db).map f).Nodup := h.sublist (List.filter_sublist.map _)
  have hsorted : (((claimable w p db).insertionSort fun a b => a.id ≤ b.id).map f).Nodup :=
    ((List.perm_insertionSort _ _).map _).nodup_iff.mpr hclaim
  exact hsorted.sublist ((List.take_sublist _ _).map _)

theorem sorted_claimable (w : OutboxWorld) (p : Nat) (db : List OutboxRecord) :
    ((claimable w p db).insertionSort fun a b => a.id ≤ b.id).Pairwise
      fun r r' => r.id ≤ r'.id := by
  have htotal : Std.Total fun a b : OutboxRecord => a.id ≤ b.id :=
    ⟨fun a b => Nat.le_total a.id b.id⟩
  have htrans : IsTrans OutboxRecord fun a b => a.id ≤ b.id :=
    ⟨fun a b c hab hbc => Nat.le_trans hab hbc⟩
  exact List.pairwise_insertionSort _ _

/-- They come in the order of their ids. -/
theorem sorted_claimBatch (h : (db.map fun r => r.id).Nodup) :
    (w.claimBatch p limit db).reply.Pairwise fun r r' => r.id < r'.id := by
  have hle := (sorted_claimable w p db).sublist (List.take_sublist limit _)
  have hnodup : ((w.claimBatch p limit db).reply.map fun r => r.id).Nodup := nodup_claimBatch _ h
  have hne := List.pairwise_map.mp hnodup
  exact (hle.and hne).imp fun ⟨hle, hne⟩ => by omega

/-- What can be claimed and lies below a claimed row is claimed too. -/
theorem claimBatch_below (hrow : row ∈ claimable w p db)
    (hrow' : row' ∈ (w.claimBatch p limit db).reply) (hlt : row.id < row'.id) :
    row ∈ (w.claimBatch p limit db).reply := by
  have hall : row ∈ (claimable w p db).insertionSort fun a b => a.id ≤ b.id :=
    (List.mem_insertionSort _).mpr hrow
  have hsorted := sorted_claimable w p db
  rw [← List.take_append_drop limit (List.insertionSort _ _)] at hall hsorted
  rcases List.mem_append.mp hall with htaken | hleft
  · exact htaken
  · have hle := (List.pairwise_append.mp hsorted).2.2 row' hrow' row hleft
    omega

end Claiming

section Programs
variable {ok : Nat → DrainOp → DrainEnv → OutboxWorld → Prop} {kept : String → Prop} {p : Nat}
  {w : OutboxWorld} {row : OutboxRecord} {rest : List OutboxRecord} {α : Type}

/-- Rows of the aggregates `kept` come and are taken in turn. -/
abbrev TurnsKept (ok : Nat → DrainOp → DrainEnv → OutboxWorld → Prop) (kept : String → Prop) :
    Prop := ∀ p o e w, ok p o e w → ∀ a, kept a → InTurn a p o e w

variable (hturn : TurnsKept ok kept)
include hturn

/-- What one operation has to keep. -/
theorem wp_drainOp {o : DrainOp} {Q : Except Err o.Res → OutboxWorld → Prop}
    (h : ∀ w₁ e r w₂, DrainRely kept p w w₁ → DrainInv w₁ → OrderKept kept w₁ →
      (∀ a, kept a → InTurn a p o e w₁) → drainExec p o e w₁ = some (r, w₂) →
      DrainInv w₂ ∧ OrderKept kept w₂ ∧ Q r w₂) :
    wp outboxMachine ok (drainSpec kept) p (awaitDrain o) Q w := by
  apply wp_perform
  intro w₁ hr hi e r w₂ ho hx
  obtain ⟨hi₂, hkept₂, hQ⟩ := h w₁ e r w₂ hr hi.1 hi.2 (hturn p o e w₁ ho) hx
  exact ⟨⟨hi₂, hkept₂⟩, fun q hqp => drain_rely hi.1 (hturn p o e w₁ ho) hx hqp, hQ⟩

/-- The clock tells the run nothing new. -/
theorem wp_drainNow {P : OutboxWorld → Prop}
    (hstable : ∀ w w', DrainRely kept p w w' → P w → P w') (h : P w) {f : Time → DrainSvc α}
    {Q : Except Err α → OutboxWorld → Prop}
    (hf : ∀ now w₁, P w₁ → wp outboxMachine ok (drainSpec kept) p (f now) Q w₁) :
    wp outboxMachine ok (drainSpec kept) p (awaitDrain .now >>= f) Q w := by
  apply wp_do
  apply wp_drainOp hturn
  intro w₁ e r w₂ hr hi hkept hmeets hx
  cases hx
  exact ⟨hi, hkept, hf _ _ (hstable w w₁ hr h)⟩

/-- A row that the run holds is marked; a stamp needs the confirmation of its event. -/
theorem wp_mark {o : DrainOp} {x : OutboxWrite} {unmarked unmarked' : List String}
    {Q : Except Err o.Res → OutboxWorld → Prop} {reply : o.Res}
    (ho : ∀ e w, drainExec p o e w = w.statement p e fun _ => ⟨reply, [x], []⟩)
    (hkey : outboxEngine.key x = some row.id)
    (hstamp : ∀ id now, x = .markDispatched id now → Confirmed w.trace row.eventId)
    (hsettled : ∀ e ∈ unmarked, e ∈ unmarked' ∨
      (row.eventId = e ∧ ∃ now, x = .markDispatched row.id now))
    (hrow : RowHeld p row w) (h : w.aborted p = true ∨ Draining kept p rest unmarked w)
    (herror : ∀ err w₁, w₁.aborted p = true → RowHeld p row w₁ → Q (.error err) w₁)
    (hok : ∀ w₁, Draining kept p rest unmarked' w₁ → Q (.ok reply) w₁) :
    wp outboxMachine ok (drainSpec kept) p (awaitDrain o) Q w := by
  apply wp_drainOp hturn
  intro w₁ e r w₂ hr hi hkept hmeets hx
  rw [ho] at hx
  have hrow₁ := hrow.stable hr
  have hinsert : ∀ new, x ≠ .insert new := by
    rintro new rfl
    cases hkey
  rcases statement_cases hx with
    ⟨err, rfl, hstore, htrace, _, habort⟩ | ⟨a, s', rfl, hsane, hquery, rfl⟩
  · have hrow₂ : RowHeld p row w₂ := by
      rw [RowHeld, hstore]
      exact hrow₁
    refine ⟨hi.of_same hstore htrace, hkept.of_same hstore htrace, herror err w₂ (habort ?_) hrow₂⟩
    rcases h with haborted | hdrain
    · exact .inl (hr.aborted.trans haborted)
    · exact .inr (hdrain.stable hr).active
  · rcases h with haborted | hdrain
    · rw [← hr.aborted, hsane] at haborted
      cases haborted
    have hkeys : outboxEngine.keys
        ((fun _ => ⟨reply, [x], []⟩ : List OutboxRecord → Answer OutboxWrite Nat o.Res)
          (w₁.store.view outboxEngine p)) = [row.id] := by
      simp [Engine.keys, hkey]
    refine ⟨?_, hkept.query hquery, ?_⟩
    · apply hi.query hquery
      · intro k hk
        rw [hkeys, List.mem_singleton] at hk
        exact ⟨row, hrow₁.1, hk.symm⟩
      · intro y hy new hnew
        rw [List.mem_singleton.mp hy] at hnew
        exact hinsert new hnew
      · intro id now hmark r hmem hid
        have hx' := (List.mem_singleton.mp hmark).symm
        have hid' : id = row.id := by
          rw [hx'] at hkey
          exact Option.some.inj hkey
        rw [hi.row_eq hmem hrow₁.1 (hid.trans hid')]
        exact (hstamp id now hx').stable hr
    · rcases query_cases hquery with ⟨hnone, _, _⟩ | ⟨_, _, hreply, _, _⟩
      · cases hnone
      cases hreply
      refine hok _ ((hdrain.stable hr).query hquery fun ev hev => ?_)
      refine (hsettled ev hev).imp_right fun ⟨heq, now, hmark⟩ => ?_
      exact ⟨row, hrow₁.1, heq, now, List.mem_singleton.mpr hmark.symm⟩

/-- One round: the row is published and marked, or the loop ends with nothing left unmarked. -/
theorem wp_publishRow {exchange region : String} (h : Draining kept p (row :: rest) [] w) :
    wp outboxMachine ok (drainSpec kept) p (publishRow exchange region row)
      (OnOk fun goOn w' => if goOn then Draining kept p rest [] w' else Draining kept p [] [] w') w := by
  apply wp_drainNow hturn (P := Draining kept p (row :: rest) []) (fun _ _ hr h => h.stable hr) h
  intro now w₁ h₁
  -- After a publication without success, and after any failed statement.
  have hfailed : ∀ (err : Err) w₂, RowHeld p row w₂ →
      w₂.aborted p = true ∨ Draining kept p [] [] w₂ →
      wp outboxMachine ok (drainSpec kept) p (do markFailed row.id err.message; pure false)
        (OnOk fun goOn w' => if goOn then Draining kept p rest [] w' else Draining kept p [] [] w') w₂ := by
    intro err w₂ hrow h₂
    apply wp_seq
    apply wp_mark hturn (x := .markFailed row.id _) (fun _ _ => rfl) rfl
      (fun _ _ heq => by cases heq) (fun _ hev => absurd hev List.not_mem_nil) hrow h₂
    · exact fun _ _ _ _ => trivial
    · exact fun w₃ h₃ => h₃
  apply wp_catch
  apply wp_do
  apply wp_drainOp hturn
  intro w₂ e r w₃ hr₂ hi₂ hkept₂ _ hx
  have h₂ := h₁.stable hr₂
  obtain ⟨hrow, hfree⟩ := h₂.held row List.mem_cons_self
  have hpublished : ∀ c, DrainInv { w₂ with trace := w₂.trace ++
      [.published p (outboxEnvelope region row now) c] } := fun c =>
    hi₂.publish hrow.1 rfl hrow.2 hfree (h₂.unpublished row List.mem_cons_self) c
  simp only [drainExec, Option.some.injEq, Prod.mk.injEq] at hx
  obtain ⟨rfl, rfl⟩ := hx
  refine ⟨hpublished _, ?_⟩
  cases hfail : e.fail with
  | true =>
    refine ⟨hkept₂.extend rfl (fun run m hm => ?_) (same_rows rfl),
      hfailed _ _ hrow (.inr (h₂.giveUp _))⟩
    cases List.mem_singleton.mp hm
  | false =>
    refine ⟨hkept₂.publish hi₂ hrow.1 rfl fun hkept r hr hagg hlt =>
      h₂.first hi₂ hkept hr hagg hlt, ?_⟩
    have hconfirmed : Confirmed (w₂.trace ++ [.published p (outboxEnvelope region row now) true])
        row.eventId := ⟨p, _, List.mem_append_right _ List.mem_cons_self, rfl⟩
    change wp outboxMachine ok (drainSpec kept) p (do markDispatched row.id; pure true) _ _
    apply wp_do
    apply wp_drainNow hturn (P := fun w' => Draining kept p rest [row.eventId] w' ∧ RowHeld p row w' ∧
        Confirmed w'.trace row.eventId)
      (fun _ _ hr h => ⟨h.1.stable hr, h.2.1.stable hr, h.2.2.stable hr⟩)
      ⟨h₂.publish rfl, hrow, hconfirmed⟩
    intro now' w₄ ⟨h₄, hrow₄, hconf₄⟩
    apply wp_mark hturn (x := .markDispatched row.id now')
      (fun _ _ => rfl) rfl (fun _ _ _ => hconf₄) ?_ hrow₄ (.inr h₄)
    · exact fun err w₅ habort hrow₅ => hfailed err w₅ hrow₅ (.inl habort)
    · exact fun w₅ h₅ => h₅
    · intro ev hev
      exact .inr ⟨(List.mem_singleton.mp hev).symm, now', rfl⟩

theorem wp_publishRows {exchange region : String} (h : Draining kept p rest [] w) :
    wp outboxMachine ok (drainSpec kept) p (publishRows exchange region rest)
      (OnOk fun _ w' => Draining kept p [] [] w') w := by
  induction rest generalizing w with
  | nil => exact h
  | cons row rest ih =>
    apply wp_seq
    apply wp_mono _ (wp_publishRow hturn h)
    intro r w₁ h₁
    cases r with
    | error err => trivial
    | ok goOn =>
      cases goOn with
      | true => exact ih h₁
      | false => exact h₁

theorem wp_claimBatch {limit : Nat} (hopen : w.store.txn p = .active [])
    (hsilent : ∀ ev ∈ w.trace, ev.run ≠ p) :
    wp outboxMachine ok (drainSpec kept) p (claimBatch limit)
      (OnOk fun rows w' => Draining kept p rows [] w') w := by
  apply wp_drainOp hturn
  intro w₁ e r w₂ hr hi hkept hmeets hx
  have hopen₁ := hr.store.txn.trans hopen
  have hsilent₁ : ∀ ev ∈ w₁.trace, ev.run ≠ p :=
    fun ev hev hrun => hsilent ev (hr.own_event hrun hev) hrun
  have hview : w₁.store.view outboxEngine p = w₁.store.db := by
    rw [Store.view, hopen₁]
    rfl
  rcases statement_cases hx with ⟨err, rfl, hstore, htrace, _, _⟩ | ⟨rows, s', rfl, _, hquery, rfl⟩
  · exact ⟨hi.of_same hstore htrace, hkept.of_same hstore htrace, trivial⟩
  have hkeys : outboxEngine.keys (w₁.claimBatch p limit w₁.store.db)
      = (w₁.claimBatch p limit w₁.store.db).reply.map fun r => r.id := List.append_nil _
  refine ⟨?_, hkept.query hquery, ?_⟩
  · apply hi.query hquery <;> rw [hview]
    · intro k hk
      rw [hkeys] at hk
      obtain ⟨row, hrow, rfl⟩ := List.mem_map.mp hk
      exact ⟨row, (mem_claimBatch hrow).1, rfl⟩
    · exact fun x hx => absurd hx List.not_mem_nil
    · exact fun id now hmark => absurd hmark List.not_mem_nil
  · rcases query_cases hquery with ⟨hnone, _, _⟩ | ⟨log, hlog, hreply, _, rfl⟩
    · cases hnone
    rw [hview] at hreply ⊢
    cases hreply
    refine ⟨⟨_, Function.update_self _ _ _⟩, sorted_claimBatch hi.ids, nodup_claimBatch _ hi.events,
      fun row hrow => ?_, fun row _ m c hm => absurd rfl (hsilent₁ _ hm),
      fun row' hrow' hk row hrow hagg hlt => ?_, fun m hm => absurd rfl (hsilent₁ _ hm)⟩
    · refine ⟨⟨(mem_claimBatch hrow).1, List.mem_append_right _ ?_⟩, (mem_claimBatch hrow).2⟩
      rw [hkeys]
      exact List.mem_map_of_mem (List.mem_map_of_mem hrow)
    · -- A row below one of the batch is dispatched, or nobody else has it.
      by_cases hfree : row.dispatchedAt = none
      · have hunheld := hmeets _ hk row' hrow' rfl row hrow hagg hlt
        have hclaim : row ∈ claimable w₁ p w₁.store.db :=
          List.mem_filter.mpr ⟨hrow, by simp [hfree, hunheld]⟩
        exact .inr (List.mem_map_of_mem (claimBatch_below hclaim hrow' hlt))
      · exact .inl (hi.confirmed hrow hfree)

/-- A run that has nothing left unmarked ends its transaction, or fails to. -/
theorem wp_drainCommit (h : Draining kept p [] [] w) :
    wp outboxMachine ok (drainSpec kept) p (awaitDrain .commit) (OnOk fun _ w' => RunEnded p w') w := by
  apply wp_drainOp hturn
  intro w₁ e r w₂ hr hi hkept hmeets hx
  have h₁ := h.stable hr
  rcases commit_op_cases hx with rfl | hcommit | ⟨rfl, hnone⟩
  · refine ⟨hi.rolledBack p, hkept.rolledBack p, ?_⟩
    cases r with
    | error err => trivial
    | ok a => exact runEnded_rolledBack
  · obtain ⟨⟨es, htrace⟩, hrows⟩ := committed_rows hi hcommit
    refine ⟨hi.committed hcommit fun m hm => ?_,
      hkept.extend htrace (fun run m hm => by cases List.mem_singleton.mp hm) hrows, ?_⟩
    · rcases h₁.marked m hm with hopen | hmark
      · exact absurd hopen List.not_mem_nil
      · exact hmark
    · cases r with
      | error err => trivial
      | ok a =>
        intro log hlog
        obtain ⟨s', hs', rfl⟩ := Option.map_eq_some_iff.mp hcommit
        obtain ⟨_, _, rfl⟩ := commit_cases hs'
        simp [Function.update_self] at hlog
  · obtain ⟨log, hlog⟩ := h₁.active
    simp [OutboxWorld.committed, Store.commit, hlog] at hnone

theorem wp_drainOutboxForRegion {exchange region : String} {batchSize : Nat}
    (h : Unstarted p w) :
    wp outboxMachine ok (drainSpec kept) p (drainOutboxForRegion exchange region batchSize)
      (fun _ w' => RunEnded p w') w := by
  apply wp_do
  apply wp_drainOp hturn
  intro w₁ e r w₂ hr hi hkept hmeets hx
  obtain ⟨hidle, hsilent⟩ := h.stable hr
  simp only [drainExec] at hx
  by_cases hfail : e.fail = true
  · rw [if_pos hfail] at hx
    cases hx
    refine ⟨hi, hkept, fun log hlog => ?_⟩
    rw [hidle] at hlog
    cases hlog
  rw [if_neg hfail] at hx
  cases hx
  refine ⟨(hi.start hidle).of_same rfl rfl, hkept.extend (List.append_nil _).symm
    (fun _ _ => List.not_mem_nil) (same_rows rfl), ?_⟩
  have hbody : wp outboxMachine ok (drainSpec kept) p
      (do
        let rows ← claimBatch batchSize
        if rows.length = 0 then awaitDrain .commit
        else do
          publishRows exchange region rows
          awaitDrain .commit)
      (OnOk fun _ w' => RunEnded p w')
      { w₁ with store := w₁.store.start p, aborted := Function.update w₁.aborted p false } := by
    apply wp_seq
    refine wp_mono ?_ (wp_claimBatch hturn (Function.update_self p _ w₁.store.txn) hsilent)
    intro r w₃ h₃
    cases r with
    | error err => trivial
    | ok rows =>
      change wp outboxMachine ok (drainSpec kept) p (if rows.length = 0 then _ else _) _ w₃
      split_ifs with hempty
      · rw [List.length_eq_zero_iff.mp hempty] at h₃
        exact wp_drainCommit hturn h₃
      · apply wp_seq
        apply wp_mono _ (wp_publishRows hturn h₃)
        intro r w₄ h₄
        cases r with
        | error err => trivial
        | ok _ => exact wp_drainCommit hturn h₄
  apply wp_catch
  apply wp_mono _ hbody
  intro r w₃ h₃
  cases r with
  | ok _ => exact h₃
  | error err =>
    -- Whatever happened, the transaction is rolled back.
    apply wp_do
    apply wp_drainOp hturn
    intro w₄ e' r' w₅ _ hi₄ hkept₄ _ hx'
    cases hx'
    exact ⟨hi₄.rolledBack p, hkept₄.rolledBack p, runEnded_rolledBack⟩

theorem wp_insertRows {rows : List OutboxRecord} (h : RunEnded p w) :
    wp outboxMachine ok (drainSpec kept) p (awaitDrain (.insert rows)) (fun _ w' => RunEnded p w') w := by
  apply wp_drainOp hturn
  intro w₁ e r w₂ hr hi hkept hmeets hx
  simp only [drainExec] at hx
  split_ifs at hx with hfresh
  obtain ⟨⟨_, s'⟩, hauto, heq⟩ := Option.map_eq_some_iff.mp hx
  cases heq
  have hdb : s'.db = w₁.store.db ++ rows ∧ s'.txn = w₁.store.txn := by
    obtain ⟨_, _, rfl⟩ := autocommit_cases hauto
    exact ⟨applyAll_insert _ _, rfl⟩
  refine ⟨hi.insert hfresh hauto, hkept.insert hi hfresh hmeets hdb.1, fun log hlog => h log ?_⟩
  rw [← hr.store.txn, ← hdb.2]
  exact hlog

end Programs

end OrderService
