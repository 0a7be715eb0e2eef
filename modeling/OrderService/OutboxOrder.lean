import OrderService.OutboxDelivery

/-! In which order the rows of one aggregate reach the broker. -/
namespace OrderService
open ReadCommitted Interleaving

section Order

/-- The event that the broker has confirmed. -/
def DrainEvent.confirmed? : DrainEvent → Option String
  | .published _ m true => some m.eventId
  | _ => none

/-- The events in the order in which the broker confirmed them, again and again. -/
def confirmations (trace : List DrainEvent) : List String := trace.filterMap DrainEvent.confirmed?

/-- The first confirmations of the rows of the aggregate come in the order of their ids. -/
def InIdOrder (t : DrainSys) (aggregateId : String) : Prop :=
  ∀ row ∈ t.world.store.db, ∀ row' ∈ t.world.store.db, row.aggregateId = aggregateId →
    row'.aggregateId = aggregateId → row.id < row'.id →
    row.eventId ∈ confirmations t.world.trace → row'.eventId ∈ confirmations t.world.trace →
      (confirmations t.world.trace).idxOf row.eventId
        < (confirmations t.world.trace).idxOf row'.eventId

instance (t : DrainSys) (aggregateId : String) : Decidable (InIdOrder t aggregateId) :=
  inferInstanceAs (Decidable (∀ row ∈ t.world.store.db, _))

variable {trace : List DrainEvent} {e : String}

theorem mem_confirmations : e ∈ confirmations trace ↔ Confirmed trace e := by
  constructor
  · intro h
    obtain ⟨ev, hev, hconfirmed⟩ := List.mem_filterMap.mp h
    cases ev with
    | published run m c =>
      cases c with
      | true => exact ⟨run, m, hev, Option.some.inj hconfirmed⟩
      | false => cases hconfirmed
    | committed run es => cases hconfirmed
    | rolledBack run => cases hconfirmed
  · intro h
    obtain ⟨run, m, hm, he⟩ := h
    exact List.mem_filterMap.mpr ⟨_, hm, congrArg some he⟩

/-- The publication that the broker confirmed first. -/
theorem first_confirmation (h : e ∈ confirmations trace) : ∃ before run m after,
    trace = before ++ .published run m true :: after ∧ m.eventId = e ∧
      e ∉ confirmations before := by
  obtain ⟨earlier, later, hsplit, hnot⟩ := List.eq_append_cons_of_mem h
  obtain ⟨before, rest, rfl, hbefore, hrest⟩ := List.filterMap_eq_append_iff.mp hsplit
  obtain ⟨silent, ev, after, rfl, hsilent, hev, _⟩ := List.filterMap_eq_cons_iff.mp hrest
  cases ev with
  | published run m c =>
    cases c with
    | true =>
      refine ⟨before ++ silent, run, m, after, by simp, Option.some.inj hev, fun hmem => ?_⟩
      have hnone : confirmations silent = [] := List.filterMap_eq_nil_iff.mpr hsilent
      have hall : confirmations (before ++ silent) = earlier := by
        calc confirmations (before ++ silent)
            = confirmations before ++ confirmations silent := List.filterMap_append
          _ = earlier := by rw [hnone, List.append_nil]; exact hbefore
      exact hnot (hall ▸ hmem)
    | false => cases hev
  | committed run es => cases hev
  | rolledBack run => cases hev

variable {exchange region : String} {work : Nat → Option OutboxWork} {w : OutboxWorld}
  {t : DrainSys} {aggregateId : String}

/-- As long as no run takes a row of the aggregate while another run has an earlier one, and its
rows come in with growing ids. -/
theorem in_id_order (h : w.AtRest) (ht : outboxMachine.Reaches (InTurn aggregateId)
    (draining exchange region work w) t) : InIdOrder t aggregateId := by
  have hturn : TurnsKept (InTurn aggregateId) (· = aggregateId) := by
    rintro p o e w hok a rfl
    exact hok
  have hsound := (drain_sound hturn
    h).reaches ht
  intro row hrow row' hrow' hagg hagg' hlt hconfirmed hconfirmed'
  obtain ⟨before, run, m, after, hsplit, hev, hfirst⟩ := first_confirmation hconfirmed'
  have hearlier : row.eventId ∈ confirmations before := by
    rw [mem_confirmations]
    exact hsound.1.2 before run m after hsplit row' hrow' hev.symm hagg' row hrow
      (hagg.trans hagg'.symm) hlt
  have hall : confirmations t.world.trace
      = confirmations before ++ row'.eventId :: confirmations after := by
    rw [hsplit, confirmations, List.filterMap_append, ← hev]
    rfl
  rw [hall, List.idxOf_append_of_mem hearlier, List.idxOf_append_of_notMem hfirst,
    List.idxOf_cons_self]
  exact List.idxOf_lt_length_of_mem hearlier

instance decidableInTurn (aggregateId : String) (p : Nat) :
    (o : DrainOp) → (e : DrainEnv) → (w : OutboxWorld) → Decidable (InTurn aggregateId p o e w)
  | .claimBatch limit, _, w => inferInstanceAs (Decidable
      (∀ row' ∈ (w.claimBatch p limit w.store.db).reply, row'.aggregateId = aggregateId →
        ∀ row ∈ w.store.db, row.aggregateId = aggregateId → row.id < row'.id →
          w.store.heldByOther p row.id = false))
  | .insert rows, _, w => inferInstanceAs (Decidable
      (∀ row' ∈ rows, row'.aggregateId = aggregateId → ∀ row ∈ w.store.db,
        row.aggregateId = aggregateId → row.id < row'.id))
  | .start, _, _ => .isTrue trivial
  | .commit, _, _ => .isTrue trivial
  | .rollback, _, _ => .isTrue trivial
  | .now, _, _ => .isTrue trivial
  | .markDispatched _ _, _, _ => .isTrue trivial
  | .markFailed _ _, _, _ => .isTrue trivial
  | .publish _ _ _, _, _ => .isTrue trivial

def secondRow : OutboxRecord := { cancelledRow with id := 2, eventId := "e2" }

def twoWaiting : OutboxWorld where
  store := { db := [cancelledRow, secondRow], history := [], txn := fun _ => .idle, locks := [] }

/-- The second publication fails and the commit is refused; the next run publishes both. -/
def failedTwice : List (Label Nat DrainEnv Nat) :=
  List.replicate 7 (.act 0 {}) ++ [.act 0 { fail := true }, .act 0 {}, .act 0 { fail := true },
    .act 0 {}] ++ List.replicate 11 (.act 1 {})

theorem in_id_order_failed_twice :
    ∃ t, outboxMachine.run (fun p o e w => decide (InTurn "A" p o e w)) failedTwice
        (draining "order.events" "eg" twoDrains twoWaiting) = some t ∧
      confirmations t.world.trace = ["e1", "e1", "e2"] ∧ InIdOrder t "A" := by
  have hrun : (outboxMachine.run (fun p o e w => decide (InTurn "A" p o e w)) failedTwice
      (draining "order.events" "eg" twoDrains twoWaiting)).any (fun t =>
        confirmations t.world.trace = ["e1", "e1", "e2"]) = true := by
    decide +kernel
  obtain ⟨t, ht, hfound⟩ := (Option.any_eq_true _ _).mp hrun
  have hrest : twoWaiting.AtRest := by
    refine ⟨fun _ => rfl, rfl, rfl, by decide, by decide, ?_⟩
    intro row hrow
    rcases List.mem_pair.mp hrow with rfl | rfl <;> rfl
  have hreach := Machine.reaches_of_run
    (fun _ _ _ _ h => of_decide_eq_true h) failedTwice ht
  exact ⟨t, ht, of_decide_eq_true hfound, in_id_order hrest hreach⟩

/-- One run has the first row when the second comes in and another run takes it. -/
def overtaking (p : Nat) : Option OutboxWork :=
  match p with
  | 0 => some (.drain 50)
  | 1 => some (.insert [secondRow])
  | 2 => some (.drain 50)
  | _ => none

def overtakingSchedule : List (Label Nat DrainEnv Nat) :=
  List.replicate 3 (.act 0 {}) ++ [.act 1 {}] ++ List.replicate 7 (.act 2 {}) ++
    List.replicate 4 (.act 0 {})

/-- The row with the higher id is committed and published before the other one comes in. -/
def lateCommit (p : Nat) : Option OutboxWork :=
  match p with
  | 0 => some (.insert [secondRow])
  | 1 => some (.drain 50)
  | 2 => some (.insert [cancelledRow])
  | 3 => some (.drain 50)
  | _ => none

def lateCommitSchedule : List (Label Nat DrainEnv Nat) :=
  [.act 0 {}] ++ List.replicate 7 (.act 1 {}) ++ [.act 2 {}] ++ List.replicate 7 (.act 3 {})

def noneWaiting : OutboxWorld where
  store := { db := [], history := [], txn := fun _ => .idle, locks := [] }

/-- Either of the two breaks the order, whatever the size of a batch. -/
theorem out_of_id_order :
    (∃ t, outboxMachine.run (fun _ _ _ _ => true) overtakingSchedule
        (draining "order.events" "eg" overtaking oneWaiting) = some t ∧ ¬InIdOrder t "A") ∧
      ∃ t, outboxMachine.run (fun _ _ _ _ => true) lateCommitSchedule
        (draining "order.events" "eg" lateCommit noneWaiting) = some t ∧ ¬InIdOrder t "A" := by
  have hovertaken : (outboxMachine.run (fun _ _ _ _ => true) overtakingSchedule
      (draining "order.events" "eg" overtaking oneWaiting)).any
        (fun t => ¬InIdOrder t "A") = true := by
    decide +kernel
  have hlate : (outboxMachine.run (fun _ _ _ _ => true) lateCommitSchedule
      (draining "order.events" "eg" lateCommit noneWaiting)).any
        (fun t => ¬InIdOrder t "A") = true := by
    decide +kernel
  obtain ⟨t, ht, hfound⟩ := (Option.any_eq_true _ _).mp hovertaken
  obtain ⟨u, hu, hfound'⟩ := (Option.any_eq_true _ _).mp hlate
  exact ⟨⟨t, ht, of_decide_eq_true hfound⟩, u, hu, of_decide_eq_true hfound'⟩

end Order

end OrderService
