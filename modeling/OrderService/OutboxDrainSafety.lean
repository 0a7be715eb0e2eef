import OrderService.Interleaving.Lawful
import OrderService.Services.OutboxDrain

/-! Any number of runs drain the outbox of a region, while rows come in and any step may fail: a
row is stamped only when the broker has its event, and is not published after that. -/
namespace OrderService
open ReadCommitted Interleaving

section Statement

def DrainEvent.run : DrainEvent → Nat
  | .published run _ _ => run
  | .committed run _ => run
  | .rolledBack run => run

/-- The broker confirmed a publication of the event. -/
def Confirmed (trace : List DrainEvent) (eventId : String) : Prop :=
  ∃ run m, .published run m true ∈ trace ∧ m.eventId = eventId

/-- The row of the event was stamped by a commit. -/
def Stamped (trace : List DrainEvent) (eventId : String) : Prop :=
  ∃ run es, .committed run es ∈ trace ∧ eventId ∈ es

def Published (trace : List DrainEvent) (eventId : String) : Prop :=
  ∃ run m c, .published run m c ∈ trace ∧ m.eventId = eventId

/-- When an event may happen: nothing stamped is published, and nothing that another run
published with success unless that run was rolled back; only what the broker has is stamped; and a
run does not end twice. -/
def DrainAllowed (before : List DrainEvent) : DrainEvent → Prop
  | .published _ m _ => ¬Stamped before m.eventId ∧ ∀ p m', .published p m' true ∈ before →
      m'.eventId = m.eventId → .rolledBack p ∈ before
  | .committed run es => (∀ e ∈ es, Confirmed before e) ∧ .rolledBack run ∉ before
  | .rolledBack run => ∀ es, .committed run es ∉ before

/-- What holds at any time, whatever the runs do. -/
structure DrainInv (w : OutboxWorld) : Prop where
  locked : Locked outboxEngine w.store
  held : ∀ k p, (k, p) ∈ w.store.locks →
    (∃ log, w.store.txn p = .active log) ∧ ∃ row ∈ w.store.db, row.id = k
  marks : ∀ p, ∀ x ∈ (w.store.txn p).log, ∀ row, x ≠ .insert row
  backed : ∀ p id now, .markDispatched id now ∈ (w.store.txn p).log → ∀ row ∈ w.store.db,
    row.id = id → Confirmed w.trace row.eventId
  ids : (w.store.db.map fun r => r.id).Nodup
  events : (w.store.db.map fun r => r.eventId).Nodup
  ended : ∀ p, (∃ es, .committed p es ∈ w.trace) ∨ .rolledBack p ∈ w.trace →
    w.store.txn p = .closed
  lawful : Lawful DrainAllowed w.trace
  stamps : ∀ row ∈ w.store.db, row.dispatchedAt ≠ none ↔ Stamped w.trace row.eventId
  known : ∀ e, Stamped w.trace e ∨ Published w.trace e → ∃ row ∈ w.store.db, row.eventId = e
  pending : ∀ p m, .published p m true ∈ w.trace →
    Stamped w.trace m.eventId ∨ .rolledBack p ∈ w.trace ∨
      ∃ row ∈ w.store.db, row.eventId = m.eventId ∧ (row.id, p) ∈ w.store.locks

/-- The same row, whatever was marked on it. -/
def SameRow (row row' : OutboxRecord) : Prop :=
  row'.id = row.id ∧ row'.eventId = row.eventId ∧ row'.aggregateId = row.aggregateId

/-- No run takes a row of the aggregate while another run has an earlier one locked, and rows of
it come in with growing ids. -/
def InTurn (aggregateId : String) (p : Nat) (o : DrainOp) (_ : DrainEnv) (w : OutboxWorld) : Prop :=
  match o with
  | .claimBatch limit => ∀ row' ∈ (w.claimBatch p limit w.store.db).reply,
      row'.aggregateId = aggregateId → ∀ row ∈ w.store.db, row.aggregateId = aggregateId →
        row.id < row'.id → w.store.heldByOther p row.id = false
  | .insert rows => ∀ row' ∈ rows, row'.aggregateId = aggregateId → ∀ row ∈ w.store.db,
      row.aggregateId = aggregateId → row.id < row'.id
  | _ => True

/-- Of the aggregates `kept`, a row is confirmed only after the earlier ones. -/
def OrderKept (kept : String → Prop) (w : OutboxWorld) : Prop :=
  ∀ before run m after, w.trace = before ++ .published run m true :: after →
    ∀ row' ∈ w.store.db, row'.eventId = m.eventId → kept row'.aggregateId →
    ∀ row ∈ w.store.db, row.aggregateId = row'.aggregateId → row.id < row'.id →
      Confirmed before row.eventId

/-- What the others can do while run `p` waits, where rows of the aggregates `kept` come in
order. -/
structure DrainRely (kept : String → Prop) (p : Nat) (w w' : OutboxWorld) : Prop where
  store : Rely outboxEngine p w.store w'.store
  aborted : w'.aborted p = w.aborted p
  trace : ∃ es, w'.trace = w.trace ++ es ∧ ∀ ev ∈ es, ev.run ≠ p
  above : ∀ row' ∈ w'.store.db, kept row'.aggregateId →
    (∃ row ∈ w.store.db, SameRow row row') ∨
      ∀ row ∈ w.store.db, row.aggregateId = row'.aggregateId → row.id < row'.id

def drainSpec (kept : String → Prop) : Spec Nat OutboxWorld :=
  ⟨fun w => DrainInv w ∧ OrderKept kept w, DrainRely kept⟩

end Statement

section Tables
variable {rows : List OutboxRecord} {row : OutboxRecord} {x : OutboxWrite} {log : List OutboxWrite}

theorem outbox_insert_apply (row : OutboxRecord) (rows : List OutboxRecord) :
    outboxEngine.apply (.insert row) rows = rows ++ [row] := rfl

theorem applyAll_insert (new rows : List OutboxRecord) :
    outboxEngine.applyAll (new.map .insert) rows = rows ++ new := by
  induction new generalizing rows with
  | nil => simp
  | cons row new ih =>
    rw [List.map_cons, applyAll_cons, outbox_insert_apply, ih]
    simp

/-- A write to another row leaves this one alone. -/
theorem mem_apply_of_key (h : row ∈ rows) (hx : outboxEngine.key x ≠ some row.id) :
    row ∈ outboxEngine.apply x rows := by
  cases x with
  | insert new => exact List.mem_append_left _ h
  | markDispatched id now =>
    have hid : row.id ≠ id := fun heq => hx (congrArg some heq.symm)
    exact List.mem_map.mpr ⟨row, h, if_neg hid⟩
  | markFailed id err =>
    have hid : row.id ≠ id := fun heq => hx (congrArg some heq.symm)
    exact List.mem_map.mpr ⟨row, h, if_neg hid⟩

theorem mem_applyAll_of_key (h : row ∈ rows) (hlog : ∀ x ∈ log, outboxEngine.key x ≠ some row.id) :
    row ∈ outboxEngine.applyAll log rows := by
  induction log generalizing rows with
  | nil => exact h
  | cons x log ih =>
    rw [applyAll_cons]
    exact ih (mem_apply_of_key h (hlog x List.mem_cons_self))
      fun y hy => hlog y (List.mem_cons_of_mem x hy)

theorem SameRow.refl (row : OutboxRecord) : SameRow row row := ⟨rfl, rfl, rfl⟩

theorem SameRow.trans {row' row'' : OutboxRecord} (h : SameRow row row') (h' : SameRow row' row'') :
    SameRow row row'' :=
  ⟨h'.1.trans h.1, h'.2.1.trans h.2.1, h'.2.2.trans h.2.2⟩

/-- Whatever is written, a row stays. -/
theorem mem_applyAll_same (h : row ∈ rows) (log : List OutboxWrite) :
    ∃ row' ∈ outboxEngine.applyAll log rows, SameRow row row' := by
  induction log generalizing rows row with
  | nil => exact ⟨row, h, .refl row⟩
  | cons x log ih =>
    have hone : ∃ row' ∈ outboxEngine.apply x rows, SameRow row row' := by
      cases x with
      | insert new => exact ⟨row, List.mem_append_left _ h, .refl row⟩
      | markDispatched id now =>
        refine ⟨_, List.mem_map_of_mem h, ?_⟩
        split_ifs <;> exact ⟨rfl, rfl, rfl⟩
      | markFailed id err =>
        refine ⟨_, List.mem_map_of_mem h, ?_⟩
        split_ifs <;> exact ⟨rfl, rfl, rfl⟩
    obtain ⟨row₁, hrow₁, hsame₁⟩ := hone
    obtain ⟨row₂, hrow₂, hsame₂⟩ := ih hrow₁
    exact ⟨row₂, hrow₂, hsame₁.trans hsame₂⟩

/-- Marks keep the columns that name a row. -/
theorem apply_mark_field {β : Type} (f : OutboxRecord → β)
    (hstamp : ∀ r t, f { r with dispatchedAt := t } = f r)
    (hfail : ∀ r n err, f { r with attempts := n, lastError := err } = f r)
    (hx : ∀ row, x ≠ .insert row) :
    (outboxEngine.apply x rows).map f = rows.map f := by
  cases x with
  | insert row => exact absurd rfl (hx row)
  | markDispatched id now =>
    change (rows.map _).map f = _
    rw [List.map_map]
    apply List.map_congr_left
    intro r _
    change f (if r.id = id then _ else r) = f r
    split_ifs
    · exact hstamp r _
    · rfl
  | markFailed id err =>
    change (rows.map _).map f = _
    rw [List.map_map]
    apply List.map_congr_left
    intro r _
    change f (if r.id = id then _ else r) = f r
    split_ifs
    · exact hfail r _ _
    · rfl

theorem applyAll_mark_field {β : Type} (f : OutboxRecord → β)
    (hstamp : ∀ r t, f { r with dispatchedAt := t } = f r)
    (hfail : ∀ r n err, f { r with attempts := n, lastError := err } = f r)
    (hlog : ∀ x ∈ log, ∀ row, x ≠ .insert row) :
    (outboxEngine.applyAll log rows).map f = rows.map f := by
  induction log generalizing rows with
  | nil => rfl
  | cons x log ih =>
    rw [applyAll_cons, ih fun y hy => hlog y (List.mem_cons_of_mem x hy)]
    exact apply_mark_field f hstamp hfail (hlog x List.mem_cons_self)

/-- Where a row after the marks comes from, and when it is stamped. -/
theorem of_mem_applyAll_marks (hlog : ∀ x ∈ log, ∀ row, x ≠ .insert row)
    {row' : OutboxRecord} (h : row' ∈ outboxEngine.applyAll log rows) :
    ∃ row ∈ rows, SameRow row row' ∧ (row'.dispatchedAt ≠ none ↔
      row.dispatchedAt ≠ none ∨ ∃ now, .markDispatched row.id now ∈ log) := by
  induction log generalizing rows with
  | nil => exact ⟨row', h, .refl row', by simp⟩
  | cons x log ih =>
    obtain ⟨row₁, hrow₁, hsame₁, hiff₁⟩ :=
      ih (fun y hy => hlog y (List.mem_cons_of_mem x hy)) h
    -- The row before the first mark.
    cases x with
    | insert row => exact absurd rfl (hlog _ List.mem_cons_self row)
    | markDispatched id now =>
      obtain ⟨row, hrow, rfl⟩ := List.mem_map.mp hrow₁
      by_cases hid : row.id = id
      · rw [if_pos hid] at hsame₁ hiff₁
        refine ⟨row, hrow, hsame₁, ?_⟩
        rw [hiff₁]
        simp [← hid]
      · rw [if_neg hid] at hsame₁ hiff₁
        refine ⟨row, hrow, hsame₁, ?_⟩
        rw [hiff₁]
        simp [hid]
    | markFailed id err =>
      obtain ⟨row, hrow, rfl⟩ := List.mem_map.mp hrow₁
      by_cases hid : row.id = id
      · rw [if_pos hid] at hsame₁ hiff₁
        refine ⟨row, hrow, hsame₁, ?_⟩
        rw [hiff₁]
        simp
      · rw [if_neg hid] at hsame₁ hiff₁
        refine ⟨row, hrow, hsame₁, ?_⟩
        rw [hiff₁]
        simp

end Tables

section Traces
variable {trace es : List DrainEvent} {e : String} {ev : DrainEvent}

theorem Confirmed.append (h : Confirmed trace e) (es : List DrainEvent) :
    Confirmed (trace ++ es) e := by
  obtain ⟨run, m, hm, he⟩ := h
  exact ⟨run, m, List.mem_append_left es hm, he⟩

theorem Stamped.append (h : Stamped trace e) (es : List DrainEvent) : Stamped (trace ++ es) e := by
  obtain ⟨run, ids, hm, he⟩ := h
  exact ⟨run, ids, List.mem_append_left es hm, he⟩

/-- Only a commit stamps. -/
theorem stamped_append (h : ∀ run es, ev ≠ .committed run es) :
    Stamped (trace ++ [ev]) e ↔ Stamped trace e := by
  refine ⟨fun hstamp => ?_, fun h => h.append _⟩
  obtain ⟨run, ids, hm, he⟩ := hstamp
  rcases List.mem_append.mp hm with hm | hm
  · exact ⟨run, ids, hm, he⟩
  · exact absurd (List.mem_singleton.mp hm).symm (h run ids)

theorem published_append (h : ∀ run m c, ev ≠ .published run m c) :
    Published (trace ++ [ev]) e ↔ Published trace e := by
  constructor
  · intro hpublished
    obtain ⟨run, m, c, hm, he⟩ := hpublished
    rcases List.mem_append.mp hm with hm | hm
    · exact ⟨run, m, c, hm, he⟩
    · exact absurd (List.mem_singleton.mp hm).symm (h run m c)
  · intro hpublished
    obtain ⟨run, m, c, hm, he⟩ := hpublished
    exact ⟨run, m, c, List.mem_append_left _ hm, he⟩

end Traces

section Steps
variable {w : OutboxWorld} {p q : Nat}

theorem DrainInv.row_eq (h : DrainInv w) {row row' : OutboxRecord} (hrow : row ∈ w.store.db)
    (hrow' : row' ∈ w.store.db) (hid : row.id = row'.id) : row = row' :=
  List.inj_on_of_nodup_map h.ids hrow hrow' hid

theorem DrainInv.row_eq_event (h : DrainInv w) {row row' : OutboxRecord}
    (hrow : row ∈ w.store.db) (hrow' : row' ∈ w.store.db) (hid : row.eventId = row'.eventId) :
    row = row' :=
  List.inj_on_of_nodup_map h.events hrow hrow' hid

/-- A message of the row that the run holds is given to the broker. -/
theorem DrainInv.publish (h : DrainInv w) {row : OutboxRecord} {m : OutboxEnvelope}
    (hrow : row ∈ w.store.db) (hm : m.eventId = row.eventId) (hlock : (row.id, p) ∈ w.store.locks)
    (hfree : row.dispatchedAt = none)
    (hown : ∀ m' c, .published p m' c ∈ w.trace → m'.eventId ≠ row.eventId) (c : Bool) :
    DrainInv { w with trace := w.trace ++ [.published p m c] } := by
  have hnostamp : ¬Stamped w.trace m.eventId := by
    rw [hm, ← h.stamps row hrow]
    exact fun hne => hne hfree
  have hstamped : ∀ e, Stamped (w.trace ++ [DrainEvent.published p m c]) e ↔ Stamped w.trace e :=
    fun e => stamped_append fun _ _ heq => by cases heq
  constructor
  case locked => exact h.locked
  case held => exact h.held
  case marks => exact h.marks
  case backed =>
    exact fun q id now hmark r hr hid => (h.backed q id now hmark r hr hid).append _
  case ids => exact h.ids
  case events => exact h.events
  case ended =>
    rintro q (⟨es, hes⟩ | hrolled)
    · rcases List.mem_append.mp hes with hes | hes
      · exact h.ended q (.inl ⟨es, hes⟩)
      · cases List.mem_singleton.mp hes
    · rcases List.mem_append.mp hrolled with hrolled | hrolled
      · exact h.ended q (.inr hrolled)
      · cases List.mem_singleton.mp hrolled
  case lawful =>
    refine lawful_append.mpr ⟨h.lawful, hnostamp, fun q m' hm' heq => ?_⟩
    -- Another run that published it with success would have stamped it, or hold its lock.
    rcases h.pending q m' hm' with hstamp | hrolled | ⟨row', hrow', hev, hlock'⟩
    · rw [heq] at hstamp
      exact absurd hstamp hnostamp
    · exact hrolled
    · have hsame : row' = row := h.row_eq_event hrow' hrow (hev.trans (heq.trans hm))
      rw [hsame] at hlock'
      have hqp : q = p := h.locked.exclusive _ _ _ hlock' hlock
      rw [hqp] at hm'
      exact absurd (heq.trans hm) (hown m' true hm')
  case stamps =>
    exact fun r hr => (h.stamps r hr).trans (hstamped _).symm
  case known =>
    rintro e (hstamp | ⟨run, m', c', hm', he⟩)
    · exact h.known e (.inl ((hstamped e).mp hstamp))
    · rcases List.mem_append.mp hm' with hm' | hm'
      · exact h.known e (.inr ⟨run, m', c', hm', he⟩)
      · cases List.mem_singleton.mp hm'
        exact ⟨row, hrow, hm.symm.trans he⟩
  case pending =>
    intro q m' hm'
    rcases List.mem_append.mp hm' with hm' | hm'
    · rcases h.pending q m' hm' with hstamp | hrolled | hheld
      · exact .inl (hstamp.append _)
      · exact .inr (.inl (List.mem_append_left _ hrolled))
      · exact .inr (.inr hheld)
    · cases List.mem_singleton.mp hm'
      exact .inr (.inr ⟨row, hrow, hm.symm, hlock⟩)

/-- Neither the clock nor an abort matters. -/
theorem DrainInv.of_same {w' : OutboxWorld} (h : DrainInv w) (hstore : w'.store = w.store)
    (htrace : w'.trace = w.trace) : DrainInv w' := by
  obtain ⟨locked, held, marks, backed, ids, events, ended, lawful, stamps, known, pending⟩ := h
  constructor <;> simp only [hstore, htrace] <;> assumption

theorem DrainInv.no_end (h : DrainInv w) {log : List OutboxWrite}
    (hlog : w.store.txn p = .active log) :
    (∀ es, .committed p es ∉ w.trace) ∧ .rolledBack p ∉ w.trace := by
  refine ⟨fun es hes => ?_, fun hrolled => ?_⟩
  · have hclosed := h.ended p (.inl ⟨es, hes⟩)
    rw [hlog] at hclosed
    cases hclosed
  · have hclosed := h.ended p (.inr hrolled)
    rw [hlog] at hclosed
    cases hclosed

/-- What is stamped is confirmed. -/
theorem DrainInv.confirmed (h : DrainInv w) {row : OutboxRecord} (hrow : row ∈ w.store.db)
    (hdispatched : row.dispatchedAt ≠ none) : Confirmed w.trace row.eventId := by
  obtain ⟨run, es, hes, he⟩ := (h.stamps row hrow).mp hdispatched
  obtain ⟨before, after, hsplit⟩ := List.append_of_mem hes
  rw [hsplit]
  exact ((h.lawful before _ after hsplit).1 row.eventId he).append _

/-- A run does not end twice. -/
theorem DrainInv.not_both (h : DrainInv w) (hrolled : .rolledBack p ∈ w.trace)
    (es : List String) : .committed p es ∉ w.trace := by
  intro hes
  rcases mem_before_or hes hrolled (fun heq => by cases heq) with
    ⟨before, after, hsplit, hmem⟩ | ⟨before, after, hsplit, hmem⟩
  · exact h.lawful before _ after hsplit es hmem
  · exact (h.lawful before _ after hsplit).2 hmem

theorem DrainInv.start (h : DrainInv w) (hidle : w.store.txn p = .idle) :
    DrainInv { w with store := w.store.start p } := by
  have hnolock : ∀ k q, (k, q) ∈ w.store.locks → q ≠ p := by
    rintro k q hlock rfl
    obtain ⟨⟨log, hlog⟩, _⟩ := h.held k q hlock
    rw [hidle] at hlog
    cases hlog
  have hlogs : ∀ q, ∀ x ∈ ((w.store.start p).txn q).log, q ≠ p ∧ x ∈ (w.store.txn q).log := by
    intro q x hx
    by_cases hqp : q = p
    · subst hqp
      simp [Store.start, Txn.log] at hx
    · simp only [Store.start, Function.update_of_ne hqp] at hx
      exact ⟨hqp, hx⟩
  constructor
  case locked => exact start_locked h.locked
  case held =>
    intro k q hlock
    have hqp := hnolock k q hlock
    simp only [Store.start, Function.update_of_ne hqp]
    exact h.held k q hlock
  case marks =>
    intro q x hx
    exact h.marks q x (hlogs q x hx).2
  case backed =>
    intro q id now hmark
    exact h.backed q id now (hlogs q _ hmark).2
  case ids => exact h.ids
  case events => exact h.events
  case ended =>
    intro q hend
    have hclosed := h.ended q hend
    by_cases hqp : q = p
    · rw [hqp, hidle] at hclosed
      cases hclosed
    · simpa only [Store.start, Function.update_of_ne hqp] using hclosed
  case lawful => exact h.lawful
  case stamps => exact h.stamps
  case known => exact h.known
  case pending => exact h.pending

/-- A statement of the run locks rows that are there and nobody else's, and marks them; a stamp
needs the confirmation of its event. -/
theorem DrainInv.query (h : DrainInv w) {ρ : Type}
    {ask : List OutboxRecord → Answer OutboxWrite Nat ρ} {r : ρ}
    {s' : Store Nat (List OutboxRecord) OutboxWrite Nat}
    (hx : w.store.query outboxEngine p ask = some (some r, s'))
    (hkeys : ∀ k ∈ outboxEngine.keys (ask (w.store.view outboxEngine p)),
      ∃ row ∈ w.store.db, row.id = k)
    (hmarks : ∀ x ∈ (ask (w.store.view outboxEngine p)).writes, ∀ row, x ≠ .insert row)
    (hstamps : ∀ id now, .markDispatched id now ∈ (ask (w.store.view outboxEngine p)).writes →
      ∀ row ∈ w.store.db, row.id = id → Confirmed w.trace row.eventId) :
    DrainInv { w with store := s' } := by
  have hlocked : Locked outboxEngine s' := query_locked h.locked hx
  rcases query_cases hx with ⟨hnone, _, _⟩ | ⟨log, hlog, _, _, rfl⟩
  · cases hnone
  have hlogs : ∀ q x, x ∈ (Function.update w.store.txn p
      (.active (log ++ (ask (w.store.view outboxEngine p)).writes)) q).log →
      x ∈ (w.store.txn q).log ∨ x ∈ (ask (w.store.view outboxEngine p)).writes := by
    intro q x hx
    by_cases hqp : q = p
    · subst hqp
      simp only [Function.update_self, Txn.log, List.mem_append] at hx
      rw [hlog]
      exact hx
    · rw [Function.update_of_ne hqp] at hx
      exact .inl hx
  constructor
  case locked => exact hlocked
  case held =>
    intro k q hlock
    rcases List.mem_append.mp hlock with hlock | hlock
    · obtain ⟨⟨log', hlog'⟩, hrow⟩ := h.held k q hlock
      refine ⟨?_, hrow⟩
      by_cases hqp : q = p
      · subst hqp
        exact ⟨_, Function.update_self _ _ _⟩
      · exact ⟨log', by simpa only [Function.update_of_ne hqp] using hlog'⟩
    · obtain ⟨k', hk', heq⟩ := List.mem_map.mp hlock
      cases heq
      exact ⟨⟨_, Function.update_self _ _ _⟩, hkeys k hk'⟩
  case marks =>
    intro q x hx
    rcases hlogs q x hx with hx | hx
    · exact h.marks q x hx
    · exact hmarks x hx
  case backed =>
    intro q id now hmark
    rcases hlogs q _ hmark with hmark | hmark
    · exact h.backed q id now hmark
    · exact hstamps id now hmark
  case ids => exact h.ids
  case events => exact h.events
  case ended =>
    intro q hend
    have hclosed := h.ended q hend
    by_cases hqp : q = p
    · rw [hqp, hlog] at hclosed
      cases hclosed
    · simpa only [Function.update_of_ne hqp] using hclosed
  case lawful => exact h.lawful
  case stamps => exact h.stamps
  case known => exact h.known
  case pending =>
    intro q m hm
    rcases h.pending q m hm with hstamp | hrolled | ⟨row, hrow, hev, hlock⟩
    · exact .inl hstamp
    · exact .inr (.inl hrolled)
    · exact .inr (.inr ⟨row, hrow, hev, List.mem_append_left _ hlock⟩)

/-- A run can be undone at any time. -/
theorem DrainInv.rolledBack (h : DrainInv w) (p : Nat) : DrainInv (w.rolledBack p) := by
  have hlogs : ∀ q, ∀ x ∈ ((w.store.rollback p).txn q).log, x ∈ (w.store.txn q).log := by
    intro q x hx
    by_cases hqp : q = p
    · subst hqp
      simp [Store.rollback, Txn.log] at hx
    · simpa only [Store.rollback, Function.update_of_ne hqp] using hx
  have htrace : (w.rolledBack p).trace = w.trace ∨ ∃ log, w.store.txn p = .active log ∧
      (w.rolledBack p).trace = w.trace ++ [.rolledBack p] := by
    simp only [OutboxWorld.rolledBack]
    split
    next log hlog => exact .inr ⟨log, hlog, rfl⟩
    next => exact .inl rfl
  have hold : ∀ ev ∈ w.trace, ev ∈ (w.rolledBack p).trace := by
    intro ev hev
    rcases htrace with htrace | ⟨log, _, htrace⟩ <;> rw [htrace]
    · exact hev
    · exact List.mem_append_left _ hev
  have hnew : ∀ ev ∈ (w.rolledBack p).trace, ev ∈ w.trace ∨ ev = DrainEvent.rolledBack p := by
    intro ev hev
    rcases htrace with htrace | ⟨log, _, htrace⟩ <;> rw [htrace] at hev
    · exact .inl hev
    · exact (List.mem_append.mp hev).imp_right List.mem_singleton.mp
  have hstamped : ∀ e, Stamped (w.rolledBack p).trace e ↔ Stamped w.trace e := by
    intro e
    constructor
    · intro h
      obtain ⟨run, es, hes, he⟩ := h
      rcases hnew _ hes with hes | hes
      · exact ⟨run, es, hes, he⟩
      · cases hes
    · intro h
      obtain ⟨run, es, hes, he⟩ := h
      exact ⟨run, es, hold _ hes, he⟩
  constructor
  case locked => exact rollback_locked h.locked
  case held =>
    intro k q hlock
    obtain ⟨hlock, hqp⟩ := List.mem_filter.mp hlock
    have hqp : q ≠ p := by simpa using hqp
    obtain ⟨hactive, hrow⟩ := h.held k q hlock
    refine ⟨?_, hrow⟩
    simpa only [OutboxWorld.rolledBack, Store.rollback, Function.update_of_ne hqp] using hactive
  case marks =>
    intro q x hx
    exact h.marks q x (hlogs q x hx)
  case backed =>
    intro q id now hmark row hrow hid
    obtain ⟨run, m, hm, he⟩ := h.backed q id now (hlogs q _ hmark) row hrow hid
    exact ⟨run, m, hold _ hm, he⟩
  case ids => exact h.ids
  case events => exact h.events
  case ended =>
    intro q hend
    by_cases hqp : q = p
    · subst hqp
      exact Function.update_self _ _ _
    · refine (Function.update_of_ne hqp _ _).trans (h.ended q ?_)
      rcases hend with ⟨es, hes⟩ | hrolled
      · rcases hnew _ hes with hes | hes
        · exact .inl ⟨es, hes⟩
        · cases hes
      · rcases hnew _ hrolled with hrolled | hrolled
        · exact .inr hrolled
        · cases hrolled
          exact absurd rfl hqp
  case lawful =>
    rcases htrace with htrace | ⟨log, hlog, htrace⟩ <;> rw [htrace]
    · exact h.lawful
    · exact lawful_append.mpr ⟨h.lawful, (h.no_end hlog).1⟩
  case stamps => exact fun row hrow => (h.stamps row hrow).trans (hstamped _).symm
  case known =>
    intro e he
    refine h.known e (he.imp (hstamped e).mp fun hpublished => ?_)
    obtain ⟨run, m, c, hm, hev⟩ := hpublished
    rcases hnew _ hm with hm | hm
    · exact ⟨run, m, c, hm, hev⟩
    · cases hm
  case pending =>
    intro q m hm
    rcases hnew _ hm with hm | hm
    case inr => cases hm
    rcases h.pending q m hm with hstamp | hrolled | ⟨row, hrow, hev, hlock⟩
    · exact .inl ((hstamped _).mpr hstamp)
    · exact .inr (.inl (hold _ hrolled))
    · -- The lock goes with its transaction, whose end is told.
      by_cases hqp : q = p
      · subst hqp
        obtain ⟨⟨log, hlog⟩, _⟩ := h.held _ _ hlock
        rcases htrace with htrace | ⟨_, _, htrace⟩
        · exfalso
          simp only [OutboxWorld.rolledBack, hlog, List.append_right_eq_self] at htrace
          exact List.cons_ne_nil _ _ htrace
        · rw [htrace]
          exact .inr (.inl (List.mem_append_right _ List.mem_cons_self))
      · exact .inr (.inr ⟨row, hrow, hev, List.mem_filter.mpr ⟨hlock, by simpa using hqp⟩⟩)

theorem mem_stamped {log : List OutboxWrite} {e : String} :
    e ∈ w.stamped log ↔
      ∃ row ∈ w.store.db, (∃ now, .markDispatched row.id now ∈ log) ∧ row.eventId = e := by
  simp only [OutboxWorld.stamped, List.mem_map, List.mem_filter, List.any_eq_true, and_assoc]
  refine exists_congr fun row => and_congr_right fun _ => and_congr_left fun _ => ?_
  constructor
  · rintro ⟨x, hx, hmark⟩
    cases x with
    | insert row' => simp at hmark
    | markDispatched id now =>
      have hid : row.id = id := by simpa using hmark
      exact ⟨now, hid ▸ hx⟩
    | markFailed id err => simp at hmark
  · rintro ⟨now, hmark⟩
    exact ⟨_, hmark, by simp⟩

/-- A run that has marked whatever it published with success is committed. -/
theorem DrainInv.committed (h : DrainInv w) {w' : OutboxWorld} (hw' : w.committed p = some w')
    (hmarked : ∀ m, .published p m true ∈ w.trace → ∃ row ∈ w.store.db,
      row.eventId = m.eventId ∧ ∃ now, .markDispatched row.id now ∈ (w.store.txn p).log) :
    DrainInv w' := by
  obtain ⟨s', hs', rfl⟩ := Option.map_eq_some_iff.mp hw'
  have hlocked : Locked outboxEngine s' := commit_locked h.locked hs'
  obtain ⟨log, hlog, rfl⟩ := commit_cases hs'
  have hlogs : (w.store.txn p).log = log := by rw [hlog]; rfl
  rw [hlogs] at hmarked ⊢
  have hplain : ∀ x ∈ log, ∀ row, x ≠ OutboxWrite.insert row := by
    intro x hx
    exact h.marks p x (hlogs ▸ hx)
  have hends : ∀ q, ∀ x ∈ (Function.update w.store.txn p .closed q).log,
      q ≠ p ∧ x ∈ (w.store.txn q).log := by
    intro q x hx
    by_cases hqp : q = p
    · subst hqp
      simp [Txn.log] at hx
    · exact ⟨hqp, by simpa only [Function.update_of_ne hqp] using hx⟩
  have hstamped : ∀ e, Stamped (w.trace ++ [DrainEvent.committed p (w.stamped log)]) e ↔
      Stamped w.trace e ∨ e ∈ w.stamped log := by
    intro e
    constructor
    · intro hstamp
      obtain ⟨run, es, hes, he⟩ := hstamp
      rcases List.mem_append.mp hes with hes | hes
      · exact .inl ⟨run, es, hes, he⟩
      · cases List.mem_singleton.mp hes
        exact .inr he
    · intro hstamp
      cases hstamp with
      | inl hold => exact hold.append _
      | inr hnew => exact ⟨p, _, List.mem_append_right _ List.mem_cons_self, hnew⟩
  constructor
  case locked => exact hlocked
  case held =>
    intro k q hlock
    obtain ⟨hlock, hqp⟩ := List.mem_filter.mp hlock
    have hqp : q ≠ p := by simpa using hqp
    obtain ⟨⟨log', hlog'⟩, row, hrow, hid⟩ := h.held k q hlock
    refine ⟨⟨log', by simpa only [Function.update_of_ne hqp] using hlog'⟩, ?_⟩
    obtain ⟨row', hrow', hsame⟩ := mem_applyAll_same hrow log
    exact ⟨row', hrow', hsame.1.trans hid⟩
  case marks => exact fun q x hx => h.marks q x (hends q x hx).2
  case backed =>
    intro q id now hmark row' hrow' hid
    obtain ⟨row, hrow, ⟨hid', hev, _⟩, _⟩ := of_mem_applyAll_marks hplain hrow'
    rw [hev]
    exact (h.backed q id now (hends q _ hmark).2 row hrow (hid'.symm.trans hid)).append _
  case ids =>
    rw [applyAll_mark_field (fun r => r.id) (fun _ _ => rfl) (fun _ _ _ => rfl) hplain]
    exact h.ids
  case events =>
    rw [applyAll_mark_field (fun r => r.eventId) (fun _ _ => rfl) (fun _ _ _ => rfl) hplain]
    exact h.events
  case ended =>
    intro q hend
    by_cases hqp : q = p
    · subst hqp
      exact Function.update_self _ _ _
    · refine (Function.update_of_ne hqp _ _).trans (h.ended q ?_)
      rcases hend with ⟨es, hes⟩ | hrolled
      · rcases List.mem_append.mp hes with hes | hes
        · exact .inl ⟨es, hes⟩
        · cases List.mem_singleton.mp hes
          exact absurd rfl hqp
      · rcases List.mem_append.mp hrolled with hrolled | hrolled
        · exact .inr hrolled
        · cases List.mem_singleton.mp hrolled
  case lawful =>
    refine lawful_append.mpr ⟨h.lawful, fun e he => ?_, (h.no_end hlog).2⟩
    obtain ⟨row, hrow, ⟨now, hmark⟩, rfl⟩ := mem_stamped.mp he
    exact h.backed p row.id now (hlogs ▸ hmark) row hrow rfl
  case stamps =>
    intro row' hrow'
    -- The rows that are stamped now: those that were, and those that the run marked.
    obtain ⟨row, hrow, ⟨_, hev, _⟩, hiff⟩ := of_mem_applyAll_marks hplain hrow'
    rw [hiff, hstamped, hev, h.stamps row hrow]
    refine or_congr_right ⟨fun hmark => mem_stamped.mpr ⟨row, hrow, hmark, rfl⟩, fun he => ?_⟩
    obtain ⟨row₁, hrow₁, hmark, hev₁⟩ := mem_stamped.mp he
    rw [h.row_eq_event hrow hrow₁ hev₁.symm]
    exact hmark
  case known =>
    intro e he
    have hthere : ∃ row ∈ w.store.db, row.eventId = e := by
      rcases he with he | he
      · rcases (hstamped e).mp he with hold | hnew
        · exact h.known e (.inl hold)
        · obtain ⟨row, hrow, _, hev⟩ := mem_stamped.mp hnew
          exact ⟨row, hrow, hev⟩
      · exact h.known e (.inr ((published_append fun _ _ _ heq => by cases heq).mp he))
    obtain ⟨row, hrow, hev⟩ := hthere
    obtain ⟨row', hrow', _, hev', _⟩ := mem_applyAll_same hrow log
    exact ⟨row', hrow', hev'.trans hev⟩
  case pending =>
    intro q m hm
    have hbefore : DrainEvent.published q m true ∈ w.trace := by
      rcases List.mem_append.mp hm with hm | hm
      · exact hm
      · cases List.mem_singleton.mp hm
    rcases h.pending q m hbefore with hstamp | hrolled | ⟨row, hrow, hev, hlock⟩
    · exact .inl (hstamp.append _)
    · exact .inr (.inl (List.mem_append_left _ hrolled))
    by_cases hqp : q = p
    · subst hqp
      obtain ⟨row₁, hrow₁, hev₁, hmark⟩ := hmarked m hbefore
      exact .inl ((hstamped _).mpr (.inr (mem_stamped.mpr ⟨row₁, hrow₁, hmark, hev₁⟩)))
    · obtain ⟨row', hrow', hid', hev', _⟩ := mem_applyAll_same hrow log
      refine .inr (.inr ⟨row', hrow', hev'.trans hev, List.mem_filter.mpr ⟨?_, by simpa using hqp⟩⟩)
      rw [hid']
      exact hlock

/-- Rows with new ids come in. -/
theorem DrainInv.insert (h : DrainInv w) {rows : List OutboxRecord} (hfresh : w.fresh rows = true)
    {s' : Store Nat (List OutboxRecord) OutboxWrite Nat}
    (hx : w.store.autocommit outboxEngine p (fun _ => ⟨(), rows.map .insert, []⟩) = some ((), s')) :
    DrainInv { w with store := s' } := by
  have hlocked : Locked outboxEngine s' := autocommit_locked h.locked hx
  obtain ⟨_, _, rfl⟩ := autocommit_cases hx
  simp only [OutboxWorld.fresh, Bool.and_eq_true, List.all_eq_true, Option.isNone_iff_eq_none,
    decide_eq_true_eq] at hfresh
  obtain ⟨⟨hnone, hids⟩, hevents⟩ := hfresh
  simp only [applyAll_insert] at hlocked ⊢
  have hapart : ∀ row ∈ w.store.db, ∀ new ∈ rows,
      row.id ≠ new.id ∧ row.eventId ≠ new.eventId := by
    intro row hrow new hnew
    rw [List.map_append] at hids hevents
    exact ⟨(List.nodup_append.mp hids).2.2 _ (List.mem_map_of_mem hrow) _
        (List.mem_map_of_mem hnew),
      (List.nodup_append.mp hevents).2.2 _ (List.mem_map_of_mem hrow) _ (List.mem_map_of_mem hnew)⟩
  constructor
  case locked => exact hlocked
  case held =>
    intro k q hlock
    obtain ⟨hactive, row, hrow, hid⟩ := h.held k q hlock
    exact ⟨hactive, row, List.mem_append_left _ hrow, hid⟩
  case marks => exact h.marks
  case backed =>
    intro q id now hmark row hrow hid
    rcases List.mem_append.mp hrow with hrow | hrow
    · exact h.backed q id now hmark row hrow hid
    · -- What is marked is locked, and so was there before.
      have hlock := h.locked.log_locked q _ hmark id rfl
      obtain ⟨_, old, hold, hid'⟩ := h.held id q hlock
      exact absurd (hid'.trans hid.symm) (hapart old hold row hrow).1
  case ids => exact hids
  case events => exact hevents
  case ended => exact h.ended
  case lawful => exact h.lawful
  case stamps =>
    intro row hrow
    rcases List.mem_append.mp hrow with hrow | hrow
    · exact h.stamps row hrow
    · refine ⟨fun hne => absurd (hnone row hrow) hne, fun hstamp => ?_⟩
      obtain ⟨old, hold, hev⟩ := h.known _ (.inl hstamp)
      exact absurd hev (hapart old hold row hrow).2
  case known =>
    intro e he
    obtain ⟨row, hrow, hev⟩ := h.known e he
    exact ⟨row, List.mem_append_left _ hrow, hev⟩
  case pending =>
    intro q m hm
    rcases h.pending q m hm with hstamp | hrolled | ⟨row, hrow, hev, hlock⟩
    · exact .inl hstamp
    · exact .inr (.inl hrolled)
    · exact .inr (.inr ⟨row, List.mem_append_left _ hrow, hev, hlock⟩)

variable {w' : OutboxWorld} {kept : String → Prop}

/-- No new row, and no new confirmation. -/
theorem OrderKept.extend (h : OrderKept kept w) {es : List DrainEvent}
    (htrace : w'.trace = w.trace ++ es) (hes : ∀ run m, .published run m true ∉ es)
    (hrows : ∀ row' ∈ w'.store.db, ∃ row ∈ w.store.db, SameRow row row') : OrderKept kept w' := by
  intro before run m after hsplit row₂' hrow₂' hev hkept row₁' hrow₁' hagg hlt
  obtain ⟨row₁, hrow₁, hid₁, hev₁, hagg₁⟩ := hrows row₁' hrow₁'
  obtain ⟨row₂, hrow₂, hid₂, hev₂, hagg₂⟩ := hrows row₂' hrow₂'
  obtain ⟨rest, hold⟩ : ∃ rest, w.trace = before ++ DrainEvent.published run m true :: rest := by
    rw [htrace] at hsplit
    rcases List.append_eq_append_iff.mp hsplit with ⟨mid, _, hmid⟩ | ⟨mid, hmid, hrest⟩
    · exact absurd (hmid ▸ List.mem_append_right _ List.mem_cons_self) (hes run m)
    · cases mid with
      | nil =>
        have hhead : es = DrainEvent.published run m true :: after := hrest.symm
        exact absurd (hhead ▸ List.mem_cons_self) (hes run m)
      | cons ev mid =>
        cases (List.cons.inj hrest).1
        exact ⟨mid, hmid⟩
  rw [hagg₁, hagg₂] at hagg
  rw [hev₁]
  exact h before run m rest hold row₂ hrow₂ (hev₂.symm.trans hev) (hagg₂ ▸ hkept) row₁ hrow₁ hagg
    (by omega)

/-- A row is published when the earlier ones of its aggregate are confirmed. -/
theorem OrderKept.publish (h : OrderKept kept w) (hinv : DrainInv w) {row : OutboxRecord}
    {m : OutboxEnvelope} (hrow : row ∈ w.store.db) (hm : m.eventId = row.eventId)
    (hnext : kept row.aggregateId → ∀ r ∈ w.store.db, r.aggregateId = row.aggregateId →
      r.id < row.id → Confirmed w.trace r.eventId) :
    OrderKept kept { w with trace := w.trace ++ [.published p m true] } := by
  intro before run m' after hsplit row' hrow' hev hkept r hr hagg hlt
  rcases append_singleton_split hsplit with ⟨rfl, heq, _⟩ | ⟨rest, _, hold⟩
  · cases heq
    have hsame : row' = row := hinv.row_eq_event hrow' hrow (hev.trans hm)
    subst hsame
    exact hnext hkept r hr hagg hlt
  · exact h before run m' rest hold row' hrow' hev hkept r hr hagg hlt

/-- Rows come in above those of their aggregate. -/
theorem OrderKept.insert (h : OrderKept kept w) (hinv : DrainInv w) {rows : List OutboxRecord}
    (hfresh : w.fresh rows = true) {e : DrainEnv}
    (hturn : ∀ a, kept a → InTurn a p (.insert rows) e w)
    {s' : Store Nat (List OutboxRecord) OutboxWrite Nat} (hdb : s'.db = w.store.db ++ rows) :
    OrderKept kept { w with store := s' } := by
  intro before run m after hsplit row' hrow' hev hkept row hrow hagg hlt
  have hpublished : Published w.trace m.eventId := by
    refine ⟨run, m, true, ?_, rfl⟩
    rw [show w.trace = _ from hsplit]
    exact List.mem_append_right _ List.mem_cons_self
  obtain ⟨old, hold, hold_ev⟩ := hinv.known m.eventId (.inr hpublished)
  simp only [hdb, List.mem_append] at hrow hrow'
  simp only [OutboxWorld.fresh, Bool.and_eq_true, decide_eq_true_eq, List.map_append] at hfresh
  -- What was published has been there before, and so has what lies below it.
  rcases hrow' with hrow' | hrow'
  · rcases hrow with hrow | hrow
    · exact h before run m after hsplit row' hrow' hev hkept row hrow hagg hlt
    · have habove := hturn _ hkept row hrow hagg row' hrow' rfl
      omega
  · have hdiffer := (List.nodup_append.mp hfresh.2).2.2 _ (List.mem_map_of_mem hold) _
      (List.mem_map_of_mem hrow')
    exact absurd (hold_ev.trans hev.symm) hdiffer

end Steps

end OrderService
