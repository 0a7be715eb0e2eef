import OrderService.Interleaving.Trace
import OrderService.OutboxDrainRuns

/-! What any number of runs make of the outbox of a region, at any time and from one time to a
later one. -/
namespace OrderService
open ReadCommitted Interleaving

section Safety

/-- Before the first run: no transaction is open, and nothing has been published. -/
structure OutboxWorld.AtRest (w : OutboxWorld) : Prop where
  idle : ∀ p, w.store.txn p = .idle
  unlocked : w.store.locks = []
  silent : w.trace = []
  ids : (w.store.db.map fun r => r.id).Nodup
  events : (w.store.db.map fun r => r.eventId).Nodup
  undispatched : ∀ row ∈ w.store.db, row.dispatchedAt = none

abbrev DrainSys := Sys Nat DrainOp DrainOp.Res Err OutboxWorld Unit

/-- The run has not come to its end, nor died. -/
def Running (p : Nat) (s : DrainSys) : Prop := ∃ o k, s.procs p = some (.op o k)

/-- The publications of an event. -/
def publications (trace : List DrainEvent) (eventId : String) : List DrainEvent :=
  trace.filter fun
    | .published _ m _ => m.eventId = eventId
    | _ => false

/-- What holds of the outbox at any time: stamped rows are confirmed; any other row is there to be
claimed by any run, unless one that is still going on has locked it; and where an event is
published again, each earlier publication failed or its run was rolled back. -/
structure DrainSafe (t : DrainSys) : Prop where
  confirmed : ∀ row ∈ t.world.store.db, row.dispatchedAt ≠ none →
    Confirmed t.world.trace row.eventId
  available : ∀ row ∈ t.world.store.db, row.dispatchedAt = none → ∀ p,
    row ∈ claimable t.world p t.world.store.db ∨
      ∃ q, q ≠ p ∧ (row.id, q) ∈ t.world.store.locks ∧ Running q t
  again : ∀ before p m c after, t.world.trace = before ++ .published p m c :: after →
    ∀ q m' c', .published q m' c' ∈ before → m'.eventId = m.eventId →
      c' = false ∨ .rolledBack q ∈ before ∧ ∀ es, .committed q es ∉ t.world.trace

/-- What holds between two times: no row is lost, and a stamped one stays so, without a new
publication. -/
structure DrainFinal (t u : DrainSys) : Prop where
  rows : ∀ row ∈ t.world.store.db, ∃ row' ∈ u.world.store.db,
    SameRow row row' ∧ (row.dispatchedAt ≠ none → row'.dispatchedAt ≠ none)
  published : ∀ row ∈ t.world.store.db, row.dispatchedAt ≠ none →
    publications u.world.trace row.eventId = publications t.world.trace row.eventId

variable {exchange region : String} {work : Nat → Option OutboxWork} {w : OutboxWorld}
  {ok : Nat → DrainOp → DrainEnv → OutboxWorld → Prop} {kept : String → Prop} {s t u : DrainSys}
  {p : Nat}

theorem publications_append (trace es : List DrainEvent) (e : String) :
    publications (trace ++ es) e = publications trace e ++ publications es e :=
  List.filter_append _ _

theorem OutboxWorld.AtRest.inv (h : w.AtRest) : DrainInv w := by
  have hlog : ∀ p, (w.store.txn p).log = [] := fun p => by rw [h.idle p]; rfl
  refine ⟨⟨fun p x hx => ?_, fun k p q hp => ?_⟩, fun k p hp => ?_, fun p x hx => ?_,
    fun p id now hmark => ?_, h.ids, h.events, fun p hend => ?_, ?_, fun row hrow => ?_,
    fun e he => ?_, fun p m hm => ?_⟩
  · rw [hlog] at hx
    cases hx
  · rw [h.unlocked] at hp
    cases hp
  · rw [h.unlocked] at hp
    cases hp
  · rw [hlog] at hx
    cases hx
  · rw [hlog] at hmark
    cases hmark
  · simp [h.silent] at hend
  · rw [h.silent]
    exact lawful_nil
  · simp [h.silent, Stamped, h.undispatched row hrow]
  · simp [h.silent, Stamped, Published] at he
  · rw [h.silent] at hm
    cases hm

theorem OutboxWorld.AtRest.order (h : w.AtRest) : OrderKept kept w := by
  intro before run m after hsplit
  rw [h.silent] at hsplit
  exact absurd hsplit.symm (List.append_ne_nil_of_right_ne_nil _ (List.cons_ne_nil _ _))

/-- Where every run leaves its transaction closed. -/
abbrev DrainSound (ok : Nat → DrainOp → DrainEnv → OutboxWorld → Prop) (kept : String → Prop)
    (s : DrainSys) : Prop :=
  Sound outboxMachine ok (drainSpec kept) (fun p _ w => RunEnded p w) s

theorem RunEnded.stable {w w' : OutboxWorld} (h : RunEnded p w) (hr : DrainRely kept p w w') :
    RunEnded p w' := by
  intro log hlog
  rw [hr.store.txn] at hlog
  exact h log hlog

theorem drain_sound (hturn : TurnsKept ok kept) (h : w.AtRest) :
    DrainSound ok kept (draining exchange region work w) := by
  refine ⟨⟨h.inv, h.order⟩, fun p prog hp => ?_⟩
  obtain ⟨job, _, rfl⟩ := Option.map_eq_some_iff.mp hp
  cases job with
  | drain batchSize =>
    refine wp_drainOutboxForRegion hturn ⟨h.idle p, fun ev hev => ?_⟩
    change ev ∈ w.trace at hev
    rw [h.silent] at hev
    cases hev
  | insert rows =>
    refine wp_insertRows hturn fun log hlog => ?_
    change w.store.txn p = _ at hlog
    rw [h.idle p] at hlog
    cases hlog

theorem DrainSound.reaches (hs : DrainSound ok kept s) (h : outboxMachine.Reaches ok s t) :
    DrainSound ok kept t :=
  sound_reaches (drainSpec_fits kept) (fun _ _ _ _ hr _ h => h.stable hr) hs h

/-- Nobody is left to hold a lock when its run has ended. -/
theorem DrainSound.running (ht : DrainSound ok kept t)
    (hdead : ∀ p, t.procs p = none → RunEnded p t.world) {k : Nat}
    (hlock : (k, p) ∈ t.world.store.locks) : Running p t := by
  obtain ⟨⟨log, hlog⟩, _⟩ := ht.1.1.held k p hlock
  cases hp : t.procs p with
  | none => exact absurd hlog (hdead p hp log)
  | some prog =>
    have hwp := ht.2 p prog hp
    cases prog with
    | pure a => exact absurd hlog (hwp log)
    | throw e => exact absurd hlog (hwp log)
    | op o k => exact ⟨o, k, hp⟩

/-- The traces grow, and the rows stay. -/
theorem DrainSound.grows (hs : DrainSound ok kept s) (h : outboxMachine.Reaches ok s t) :
    (∃ es, t.world.trace = s.world.trace ++ es) ∧ ∀ row ∈ s.world.store.db,
      ∃ row' ∈ t.world.store.db, SameRow row row' := by
  induction h with
  | start => exact ⟨⟨[], by simp⟩, fun row hrow => ⟨row, hrow, .refl row⟩⟩
  | @step v u l hv hm hst ih =>
    obtain ⟨⟨es, htrace⟩, hrows⟩ := ih
    -- Some run or other does not move.
    obtain ⟨q, hq⟩ : ∃ q, l.mover ≠ some q := by
      cases hmover : l.mover with
      | none => exact ⟨0, by simp⟩
      | some p => exact ⟨p + 1, by simp⟩
    have hr : DrainRely kept q v.world u.world := (hs.reaches hv).step_rely (drainSpec_fits kept) hm hst hq
    obtain ⟨es', htrace', _⟩ := hr.trace
    refine ⟨⟨es ++ es', by rw [htrace', htrace, List.append_assoc]⟩, fun row hrow => ?_⟩
    obtain ⟨row₁, hrow₁, hsame₁⟩ := hrows row hrow
    obtain ⟨row₂, hrow₂, hsame₂⟩ := hr.row_stays hrow₁
    exact ⟨row₂, hrow₂, hsame₁.trans hsame₂⟩

/-- A row without a stamp can be claimed by whoever finds it unlocked. -/
theorem claimable_or_held {row : OutboxRecord} (hrow : row ∈ w.store.db)
    (hfree : row.dispatchedAt = none) (p : Nat) :
    row ∈ claimable w p w.store.db ∨ ∃ q, q ≠ p ∧ (row.id, q) ∈ w.store.locks := by
  by_cases hheld : w.store.heldByOther p row.id = true
  · obtain ⟨⟨k, q⟩, hlock, htest⟩ := List.any_eq_true.mp hheld
    simp only [Bool.and_eq_true, decide_eq_true_eq] at htest
    exact .inr ⟨q, htest.2, htest.1 ▸ hlock⟩
  · exact .inl (List.mem_filter.mpr ⟨hrow, by simp [hfree, hheld]⟩)

theorem DrainSound.safe (ht : DrainSound ok kept t) (hdead : ∀ p, t.procs p = none → RunEnded p t.world) :
    DrainSafe t := by
  refine ⟨fun row hrow hdispatched => ht.1.1.confirmed hrow hdispatched,
    fun row hrow hfree p => ?_, ?_⟩
  · rcases claimable_or_held hrow hfree p with hclaim | ⟨q, hqp, hlock⟩
    · exact .inl hclaim
    · exact .inr ⟨q, hqp, hlock, ht.running hdead hlock⟩
  · intro before p m c after hsplit q m' c' hm' heq
    cases c' with
    | false => exact .inl rfl
    | true =>
      have hrolled := (ht.1.1.lawful before _ after hsplit).2 q m' hm' heq
      exact .inr ⟨hrolled, ht.1.1.not_both (hsplit ▸ List.mem_append_left _ hrolled)⟩

/-- For every interleaving of runs and insertions, whatever fails: what holds at any time, and
what holds from one time to a later one. -/
theorem drain_safe (h : w.AtRest) (ht : outboxMachine.Reaches (fun _ _ _ _ => True)
      (draining exchange region work w) t)
    (hu : outboxMachine.Reaches (fun _ _ _ _ => True) t u) : DrainSafe t ∧ DrainFinal t u := by
  have hs : DrainSound (fun _ _ _ _ => True) (fun _ => False) (draining exchange region work w) :=
    drain_sound (fun _ _ _ _ _ _ hno => absurd hno id) h
  have hdead : ∀ p, t.procs p = none → RunEnded p t.world := by
    intro p hp
    refine hs.dead (drainSpec_fits _) (fun _ _ _ _ hr _ h => h.stable hr)
      (fun _ _ _ hr h => h.stable hr) (fun _ _ => runEnded_rolledBack) (fun q _ log hlog => ?_) ht hp
    change w.store.txn q = _ at hlog
    rw [h.idle q] at hlog
    cases hlog
  have hst := hs.reaches ht
  have hsu := hst.reaches hu
  obtain ⟨⟨es, htrace⟩, hrows⟩ := hst.grows hu
  refine ⟨hst.safe hdead, fun row hrow => ?_, fun row hrow hdispatched => ?_⟩
  · obtain ⟨row', hrow', hsame⟩ := hrows row hrow
    refine ⟨row', hrow', hsame, fun hdispatched => ?_⟩
    rw [hsu.1.1.stamps row' hrow', hsame.2.1, htrace]
    exact ((hst.1.1.stamps row hrow).mp hdispatched).append es
  · have hstamped := (hst.1.1.stamps row hrow).mp hdispatched
    rw [htrace, publications_append, List.append_right_eq_self]
    apply List.filter_eq_nil_iff.mpr
    intro ev hev htest
    cases ev with
    | committed run ids => simp at htest
    | rolledBack run => simp at htest
    | published run m c =>
      obtain ⟨before, after, rfl⟩ := List.append_of_mem hev
      have hallowed : DrainAllowed (t.world.trace ++ before) (.published run m c) :=
        hsu.1.1.lawful _ _ after (by rw [htrace, List.append_assoc])
      have hsame : m.eventId = row.eventId := by simpa using htest
      exact hallowed.1 (hsame ▸ hstamped.append before)

def cancelledRow : OutboxRecord where
  id := 1
  createdAt := 0
  aggregateType := "order"
  aggregateId := "A"
  eventType := .orderCancelled
  payload := .transition ⟨"A", "eg", 1, 1, 1, .cancelled, none, .customer, 0⟩
  eventId := "e1"

/-- One row waits. -/
def oneWaiting : OutboxWorld where
  store := { db := [cancelledRow], history := [], txn := fun _ => .idle, locks := [] }

/-- A run whose commit is refused, and one that comes after it. -/
def lostCommit : List (Label Nat DrainEnv Nat) :=
  List.replicate 6 (.act 0 {}) ++ [.act 0 { fail := true }, .act 0 {}] ++
    List.replicate 7 (.act 1 {})

def twoDrains (p : Nat) : Option OutboxWork := if p < 2 then some (.drain 10) else none

theorem drain_safe_lost_commit :
    ∃ t, outboxMachine.run (fun _ _ _ _ => true) lostCommit
        (draining "order.events" "eg" twoDrains oneWaiting) = some t ∧
      (publications t.world.trace "e1").length = 2 ∧
      (∃ row ∈ t.world.store.db, row.dispatchedAt ≠ none) ∧ DrainSafe t ∧ DrainFinal t t := by
  have hrun : (outboxMachine.run (fun _ _ _ _ => true) lostCommit
      (draining "order.events" "eg" twoDrains oneWaiting)).any (fun t =>
        (publications t.world.trace "e1").length = 2 &&
        t.world.store.db.any fun row => row.dispatchedAt.isSome) = true := by
    decide +kernel
  obtain ⟨t, ht, hfound⟩ := (Option.any_eq_true _ _).mp hrun
  simp only [Bool.and_eq_true, decide_eq_true_eq, List.any_eq_true] at hfound
  obtain ⟨htwice, row, hrow, hdispatched⟩ := hfound
  have hrest : oneWaiting.AtRest := by
    refine ⟨fun _ => rfl, rfl, rfl, List.nodup_singleton _, List.nodup_singleton _, ?_⟩
    intro row hrow
    rw [List.mem_singleton.mp hrow]
    rfl
  have hreach := Machine.reaches_of_run (fun _ _ _ _ _ => trivial)
    lostCommit ht
  refine ⟨t, ht, htwice, ⟨row, hrow, ?_⟩, drain_safe hrest hreach .start⟩
  exact Option.isSome_iff_ne_none.mp hdispatched

end Safety

end OrderService
