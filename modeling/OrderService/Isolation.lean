import OrderService.Repositories

/-! What one operation does to the store, and the rules by which a service is verified while
the other calls run, or by itself. -/
namespace OrderService
open ReadCommitted Interleaving

section Steps

/-- The store after one operation of `p`. -/
def StoreStep (p : Pid) (w : World) (s : Store Pid Db Write Key) : Op → Prop
  | .start => s = w.store ∨ s = w.store.start p
  | .commit => s = w.store.rollback p ∨ s = w.store ∨ w.store.commit engine p = some s
  | .rollback => s = w.store.rollback p
  | .sql .pool q =>
    s = w.store ∨ ∃ r, w.store.autocommit engine p (q.eval w.seqs w.clock) = some (r, s)
  | .sql .trx q =>
    s = w.store ∨ ∃ r, w.store.query engine p (q.eval w.seqs w.clock) = some (r, s)
  | _ => s = w.store

/-- No condition on what the environment answers or on the moment of an operation. -/
def anyOp (_ : Pid) (_ : Op) (_ : Env) (_ : World) : Prop := True

/-- The operations that can change the committed tables. -/
def Op.commits : Op → Bool
  | .commit => true
  | .sql .pool _ => true
  | _ => false

variable {p q : Pid} {o : Op} {e : Env} {w w' : World} {r : Except Err o.Res}

theorem exec_store (h : exec p o e w = some (r, w')) : StoreStep p w w'.store o := by
  cases o with
  | sql c s =>
    simp only [exec] at h
    split_ifs at h with hfail
    · simp only [Option.some.injEq, Prod.mk.injEq] at h
      rw [← h.2]
      cases c <;> exact .inl rfl
    · cases c with
      | pool =>
        obtain ⟨a, ha, h⟩ := Option.map_eq_some_iff.mp h
        simp only [Prod.mk.injEq] at h
        rw [← h.2]
        exact .inr ⟨a.1, ha⟩
      | trx =>
        obtain ⟨a, ha, h⟩ := Option.map_eq_some_iff.mp h
        split at h <;> simp only [Prod.mk.injEq] at h <;> rw [← h.2]
        · exact .inl rfl
        · exact .inr ⟨a.1, ha⟩
  | commit =>
    simp only [exec] at h
    split_ifs at h with hfail
    · simp only [Option.some.injEq, Prod.mk.injEq] at h
      rw [← h.2]
      exact .inl rfl
    · split at h <;> simp only [Option.some.injEq, Prod.mk.injEq] at h <;> rw [← h.2]
      · exact .inr (.inl rfl)
      · next s hs => exact .inr (.inr hs)
  | start =>
    simp only [exec] at h
    split_ifs at h with hfail <;> simp only [Option.some.injEq, Prod.mk.injEq] at h <;> rw [← h.2]
    · exact .inl rfl
    · exact .inr rfl
  | rollback | now | emit m | getBranch b | getCustomerAddress a | getBranchProducts b ps
  | createSession i | random36 | fetchRefund ps =>
    simp only [exec, Option.some.injEq, Prod.mk.injEq] at h
    rw [← h.2]
    rfl
  | randomUUID | reserveStock b is k | undoReserveStock b is k | cache c =>
    simp only [exec] at h
    split_ifs at h <;> simp only [Option.some.injEq, Prod.mk.injEq] at h <;> rw [← h.2] <;> rfl

/-- The operations that read an order by its public id. -/
def Op.finds : Op → Bool
  | .sql _ q => q.finds
  | _ => false

theorem observe_eq {s : Sql} {seen : Pid → Option OrderStatus} {a : Except Err s.Res}
    (hq : q ≠ p ∨ s.finds = false) : s.observe p seen a q = seen q := by
  unfold Sql.observe
  split
  · rcases hq with hq | hq
    · exact Function.update_of_ne hq _ _
    · cases hq
  · rfl

/-- Only a call's own reads of an order move its ghost. -/
theorem exec_seen (h : exec p o e w = some (r, w')) (hq : q ≠ p ∨ o.finds = false) :
    w'.seen q = w.seen q := by
  cases o with
  | sql c s =>
    simp only [exec] at h
    split_ifs at h with hfail
    · simp only [Option.some.injEq, Prod.mk.injEq] at h
      rw [← h.2]
    · cases c with
      | pool =>
        obtain ⟨a, _, h⟩ := Option.map_eq_some_iff.mp h
        simp only [Prod.mk.injEq] at h
        rw [← h.2]
        exact observe_eq hq
      | trx =>
        obtain ⟨a, _, h⟩ := Option.map_eq_some_iff.mp h
        split at h <;> simp only [Prod.mk.injEq] at h <;> rw [← h.2]
        exact observe_eq hq
  | commit =>
    simp only [exec] at h
    split_ifs at h
    · simp only [Option.some.injEq, Prod.mk.injEq] at h
      rw [← h.2]
    · split at h <;> simp only [Option.some.injEq, Prod.mk.injEq] at h <;> rw [← h.2]
  | rollback | now | emit m | getBranch b | getCustomerAddress a | getBranchProducts b ps
  | createSession i | random36 | fetchRefund ps =>
    simp only [exec, Option.some.injEq, Prod.mk.injEq] at h
    rw [← h.2]
  | start | randomUUID | reserveStock b is k | undoReserveStock b is k | cache c =>
    simp only [exec] at h
    split_ifs at h <;> simp only [Option.some.injEq, Prod.mk.injEq] at h <;> rw [← h.2]

theorem exec_locked (hl : Locked engine w.store) (h : exec p o e w = some (r, w')) :
    Locked engine w'.store := by
  have hs := exec_store h
  cases o with
  | sql c s =>
    cases c with
    | pool =>
      rcases hs with hs | ⟨a, hs⟩
      · rwa [hs]
      · exact autocommit_locked hl hs
    | trx =>
      rcases hs with hs | ⟨a, hs⟩
      · rwa [hs]
      · exact query_locked hl hs
  | commit =>
    rcases hs with hs | hs | hs
    · rw [hs]
      exact rollback_locked hl
    · rwa [hs]
    · exact commit_locked hl hs
  | start =>
    rcases hs with hs | hs
    · rwa [hs]
    · rw [hs]
      exact start_locked hl
  | rollback =>
    have hs : w'.store = w.store.rollback p := hs
    rw [hs]
    exact rollback_locked hl
  | _ =>
    have hs : w'.store = w.store := hs
    rwa [hs]

/-- What the operation of one call looks like to the others. -/
theorem exec_rely (hl : Locked engine w.store) (h : exec p o e w = some (r, w')) (hqp : q ≠ p) :
    Rely engine q w.store w'.store := by
  have hs := exec_store h
  cases o with
  | sql c s =>
    cases c with
    | pool =>
      rcases hs with hs | ⟨a, hs⟩
      · exact .of_eq_store hs
      · exact autocommit_rely hs hqp
    | trx =>
      rcases hs with hs | ⟨a, hs⟩
      · exact .of_eq_store hs
      · exact query_rely hs hqp
  | commit =>
    rcases hs with hs | hs | hs
    · rw [hs]
      exact rollback_rely hqp
    · exact .of_eq_store hs
    · exact commit_rely hl hs hqp
  | start =>
    rcases hs with hs | hs
    · exact .of_eq_store hs
    · rw [hs]
      exact start_rely hqp
  | rollback =>
    have hs : w'.store = w.store.rollback p := hs
    rw [hs]
    exact rollback_rely hqp
  | _ =>
    have hs : w'.store = w.store := hs
    exact .of_eq_store hs

/-- An operation that does not commit leaves the committed tables alone. -/
theorem exec_quiet (h : exec p o e w = some (r, w')) (ho : o.commits = false) :
    w'.store.db = w.store.db ∧ w'.store.history = w.store.history := by
  have hs := exec_store h
  cases o with
  | sql c s =>
    cases c with
    | pool => cases ho
    | trx =>
      rcases hs with hs | ⟨a, hs⟩
      · rw [hs]
        exact ⟨rfl, rfl⟩
      · rcases query_cases hs with ⟨_, hs, _⟩ | ⟨_, _, _, _, hs⟩ <;> rw [hs] <;> exact ⟨rfl, rfl⟩
  | commit => cases ho
  | start =>
    rcases hs with hs | hs <;> rw [hs] <;> exact ⟨rfl, rfl⟩
  | rollback =>
    have hs : w'.store = w.store.rollback p := hs
    rw [hs]
    exact ⟨rfl, rfl⟩
  | _ =>
    have hs : w'.store = w.store := hs
    rw [hs]
    exact ⟨rfl, rfl⟩

end Steps

section Specs

/-- A specification under which a call can rely on its transaction, its locks and its ghost,
and whose invariant only a commit can break. -/
structure Isolated (S : Spec Pid World) (p : Pid) : Prop where
  sees : ∀ w w', S.rely p w w' → Rely engine p w.store w'.store ∧ w'.seen p = w.seen p
  guarantee : ∀ o e w r w', S.inv w → exec p o e w = some (r, w') → ∀ q, q ≠ p → S.rely q w w'
  quiet : ∀ o e w r w', o.commits = false → S.inv w → exec p o e w = some (r, w') → S.inv w'

/-- Any calls at the same time: the invariant is about the committed tables and the commits
that led to them. -/
def sharedSpec (I : Db → List (Pid × List Write) → Prop) : Spec Pid World where
  inv w := Locked engine w.store ∧ I w.store.db w.store.history
  rely p w w' := Rely engine p w.store w'.store ∧ w'.seen p = w.seen p

variable {I : Db → List (Pid × List Write) → Prop} {p : Pid}

theorem sharedSpec_isolated (I : Db → List (Pid × List Write) → Prop) (p : Pid) :
    Isolated (sharedSpec I) p where
  sees _ _ h := h
  guarantee _ _ _ _ _ hi h _ hqp := ⟨exec_rely hi.1 h hqp, exec_seen h (.inl hqp)⟩
  quiet _ _ _ _ _ ho hi h := by
    obtain ⟨hdb, hhist⟩ := exec_quiet h ho
    exact ⟨exec_locked hi.1 h, by rw [hdb, hhist]; exact hi.2⟩

theorem sharedSpec_fits (I : Db → List (Pid × List Write) → Prop) :
    (sharedSpec I).Fits machine where
  refl p w := ⟨.refl p w.store, rfl⟩
  trans p w w' w'' h h' := ⟨h.1.trans h'.1, h'.2.trans h.2⟩
  crash p w hi := ⟨⟨rollback_locked hi.1, hi.2⟩, fun q hqp => ⟨rollback_rely hqp, rfl⟩⟩
  ext x w hi := by
    cases x with
    | tick d => exact ⟨hi, fun q => ⟨.refl q w.store, rfl⟩⟩
    | drop k => exact ⟨hi, fun q => ⟨.refl q w.store, rfl⟩⟩

theorem sharedSpec_inv_of_store {w w' : World} (h : w'.store = w.store)
    (hi : (sharedSpec I).inv w) : (sharedSpec I).inv w' := by
  obtain ⟨hl, hI⟩ := hi
  exact ⟨by rw [h]; exact hl, by rw [h]; exact hI⟩

theorem soloSpec_isolated {J : World → Prop}
    (hquiet : ∀ o e w r w', o.commits = false → J w → exec p o e w = some (r, w') → J w') :
    Isolated (soloSpec J p) p where
  sees w w' h := by
    have heq : w' = w := h rfl
    rw [heq]
    exact ⟨.refl p w.store, rfl⟩
  guarantee _ _ _ _ _ _ _ _ hqp := fun heq => absurd heq hqp
  quiet o e w r w' ho hi h := hquiet o e w r w' ho hi h

end Specs

section Systems
variable {α : Type} {I : Db → List (Pid × List Write) → Prop} {ok : Pid → Op → Env → World → Prop}

/-- Nothing has been committed yet and no transaction is open. -/
structure World.AtRest (w : World) : Prop where
  history : w.store.history = []
  txn : ∀ p, w.store.txn p = .idle
  locks : w.store.locks = []

theorem World.AtRest.locked {w : World} (h : w.AtRest) : Locked engine w.store where
  log_locked p w' hw' := by
    rw [h.txn p] at hw'
    cases hw'
  exclusive k p q hp := by
    rw [h.locks] at hp
    cases hp

/-- What every call keeps while the others run holds in every interleaving, and what a call
promises of its result holds when it has returned. -/
theorem shared_sound {P : Pid → α → World → Prop} {s t : Sys Pid Op Op.Res Err World α}
    (hs : s.world.AtRest) (hI : I s.world.store.db [])
    (hP : ∀ p a w w', (sharedSpec I).rely p w w' → P p a w → P p a w')
    (hwp : ∀ p prog, s.procs p = some prog →
      wp machine ok (sharedSpec I) p prog (OnOk (P p)) s.world)
    (h : machine.Reaches ok s t) : I t.world.store.db t.world.store.history ∧
      ∀ p a, t.procs p = some (.pure a) → P p a t.world := by
  have hstable : ∀ p : Pid, (sharedSpec I).Stable p (OnOk (ε := Err) (P p)) := by
    intro p r w w' hr _ hQ
    cases r with
    | ok a => exact hP p a w w' hr hQ
    | error e => trivial
  have hinit : (sharedSpec I).inv s.world := ⟨hs.locked, by rw [hs.history]; exact hI⟩
  have hsound := sound_reaches (sharedSpec_fits I) hstable ⟨hinit, hwp⟩ h
  exact ⟨hsound.1.2, fun p a hp => hsound.2 p _ hp⟩

/-- An invariant that every call keeps while the others run holds in every interleaving. -/
theorem shared_reaches {s t : Sys Pid Op Op.Res Err World α} (hs : s.world.AtRest)
    (hI : I s.world.store.db [])
    (hwp : ∀ p prog, s.procs p = some prog →
      wp machine ok (sharedSpec I) p prog (OnOk fun _ _ => True) s.world)
    (h : machine.Reaches ok s t) : I t.world.store.db t.world.store.history := by
  have hsound := shared_sound (P := fun _ _ _ => True) hs hI (fun _ _ _ _ _ _ => trivial) hwp h
  exact hsound.1

end Systems

section Worlds

/-- The tables that call `p` sees in its transaction. -/
def World.view (w : World) (p : Pid) : Db := w.store.view engine p

/-- What the statement does in the transaction of `p`. -/
def World.inTrx (w : World) (p : Pid) (q : Sql) : Answer Write Key (Except Err q.Res) :=
  q.eval w.seqs w.clock (w.view p)

def World.onPool (w : World) (q : Sql) : Answer Write Key (Except Err q.Res) :=
  q.eval w.seqs w.clock w.store.db

def World.log (w : World) (p : Pid) : List Write := (w.store.txn p).log

/-- The world after the statement ran in the transaction of `p`. -/
def World.queried (w : World) (p : Pid) (q : Sql) : World :=
  { w with
    store := { w.store with
      txn := Function.update w.store.txn p (.active (w.log p ++ (w.inTrx p q).writes))
      locks := w.store.locks ++ (engine.keys (w.inTrx p q)).map (·, p) }
    seqs := q.bump w.seqs
    seen := q.observe p w.seen (w.inTrx p q).reply }

/-- The world after the statement ran on the pool. -/
def World.pooled (w : World) (p : Pid) (q : Sql) : World :=
  { w with
    store := { w.store with
      db := engine.applyAll (w.onPool q).writes w.store.db
      history := if (w.onPool q).writes.isEmpty then w.store.history
        else w.store.history ++ [(p, (w.onPool q).writes)] }
    seqs := q.bump w.seqs
    seen := q.observe p w.seen (w.onPool q).reply }

/-- The world after `p` committed its log. -/
def World.committed (w : World) (p : Pid) : World :=
  { w with store :=
      { db := engine.applyAll (w.log p) w.store.db
        history := w.store.history ++ [(p, w.log p)]
        txn := Function.update w.store.txn p .closed
        locks := w.store.locks.filter (fun l => l.2 ≠ p) } }

variable {p : Pid} {q : Sql} {w : World} {log : List Write}

theorem World.log_of_active (h : w.store.txn p = .active log) : w.log p = log := by
  rw [World.log, h]
  rfl

theorem World.commit_eq (h : w.store.txn p = .active log) :
    w.store.commit engine p = some (w.committed p).store := by
  simp only [Store.commit, h, World.committed, World.log_of_active h]

theorem World.view_eq (w : World) (p : Pid) :
    w.view p = engine.applyAll (w.log p) w.store.db := rfl

@[simp] theorem World.queried_db : (w.queried p q).store.db = w.store.db := rfl

@[simp] theorem World.queried_history : (w.queried p q).store.history = w.store.history := rfl

theorem World.queried_txn : (w.queried p q).store.txn p
    = .active (w.log p ++ (w.inTrx p q).writes) := Function.update_self _ _ _

theorem World.mem_queried_locks {k : Key} (h : k ∈ engine.keys (w.inTrx p q)) :
    (k, p) ∈ (w.queried p q).store.locks :=
  List.mem_append_right _ (List.mem_map.mpr ⟨k, h, rfl⟩)

theorem World.queried_locks_mono {l : Key × Pid} (h : l ∈ w.store.locks) :
    l ∈ (w.queried p q).store.locks := List.mem_append_left _ h

/-- A statement that writes nothing leaves the store as it was. -/
theorem World.pooled_store (h : (w.onPool q).writes = []) : (w.pooled p q).store = w.store := by
  simp only [World.pooled, h, applyAll_nil, List.isEmpty_nil, if_true]

theorem World.start_txn (w : World) (p : Pid) : (w.store.start p).txn p = .active [] :=
  Function.update_self _ _ _

theorem World.queried_txn_of_read {log : List Write} (hlog : w.store.txn p = .active log)
    (h : (w.inTrx p q).writes = []) : (w.queried p q).store.txn p = .active log := by
  rw [World.queried_txn, h, World.log_of_active hlog, List.append_nil]

theorem World.queried_txn_of_log {log : List Write} (hlog : w.store.txn p = .active log) :
    (w.queried p q).store.txn p = .active (log ++ (w.inTrx p q).writes) := by
  rw [World.queried_txn, World.log_of_active hlog]

theorem exec_trx {e : Env} (hlog : w.store.txn p = .active log) (hfail : e.fail = false)
    {r : Except Err q.Res} {w' : World} (h : exec p (.sql .trx q) e w = some (r, w')) :
    r = (w.inTrx p q).reply ∧ w' = w.queried p q := by
  simp only [exec, hfail, Bool.false_eq_true, if_false, execSql] at h
  obtain ⟨a, ha, h⟩ := Option.map_eq_some_iff.mp h
  obtain ⟨r', s⟩ := a
  rcases query_cases ha with ⟨_, _, hno⟩ | ⟨log', hlog', hr, _, hs⟩
  · exact absurd hlog (hno log)
  · subst hr
    simp only [Prod.mk.injEq] at h
    obtain ⟨rfl, rfl⟩ := h
    refine ⟨rfl, ?_⟩
    rw [hs]
    simp only [World.queried, World.log_of_active hlog', World.inTrx, World.view]

theorem exec_trx_closed {e : Env} (hno : ∀ l, w.store.txn p ≠ .active l)
    {r : Except Err q.Res} {w' : World} (h : exec p (.sql .trx q) e w = some (r, w')) :
    (∃ err, r = .error err) ∧ w' = w := by
  simp only [exec, execSql] at h
  split_ifs at h with hfail
  · simp only [Option.some.injEq, Prod.mk.injEq] at h
    exact ⟨⟨.failed, h.1.symm⟩, h.2.symm⟩
  · obtain ⟨a, ha, h⟩ := Option.map_eq_some_iff.mp h
    obtain ⟨r', s⟩ := a
    rcases query_cases ha with ⟨hr, hs, _⟩ | ⟨l, hl, _⟩
    · subst hr
      simp only [Prod.mk.injEq] at h
      exact ⟨⟨.completed, h.1.symm⟩, h.2.symm⟩
    · exact absurd hl (hno l)

theorem exec_pool {e : Env} (hfail : e.fail = false) {r : Except Err q.Res} {w' : World}
    (h : exec p (.sql .pool q) e w = some (r, w')) :
    r = (w.onPool q).reply ∧ w' = w.pooled p q ∧
      ∀ k ∈ engine.keys (w.onPool q), ∀ q', (k, q') ∉ w.store.locks := by
  simp only [exec, hfail, Bool.false_eq_true, if_false, execSql] at h
  obtain ⟨a, ha, h⟩ := Option.map_eq_some_iff.mp h
  obtain ⟨r', s⟩ := a
  obtain ⟨hr, hfree, hs⟩ := autocommit_cases ha
  subst hr
  simp only [Prod.mk.injEq] at h
  obtain ⟨rfl, rfl⟩ := h
  refine ⟨rfl, ?_, hfree⟩
  rw [hs]
  rfl

/-- A statement answers from the committed tables or from those of its transaction. -/
theorem exec_sql_reply {c : Conn} {e : Env} {a : q.Res} {w' : World}
    (h : exec p (.sql c q) e w = some (.ok a, w')) :
    (c = .pool ∧ (w.onPool q).reply = .ok a) ∨ (c = .trx ∧ (w.inTrx p q).reply = .ok a) := by
  have hfail : e.fail = false := by
    rw [Bool.eq_false_iff]
    intro hf
    simp [exec, hf] at h
  cases c with
  | pool => exact .inl ⟨rfl, (exec_pool hfail h).1.symm⟩
  | trx =>
    cases htxn : w.store.txn p with
    | active log => exact .inr ⟨rfl, (exec_trx htxn hfail h).1.symm⟩
    | idle =>
      obtain ⟨⟨err, herr⟩, _⟩ := exec_trx_closed (by rw [htxn]; exact fun _ h => by cases h) h
      cases herr
    | closed =>
      obtain ⟨⟨err, herr⟩, _⟩ := exec_trx_closed (by rw [htxn]; exact fun _ h => by cases h) h
      cases herr

end Worlds

section Rules
variable {ok : Pid → Op → Env → World → Prop} {S : Spec Pid World} {p : Pid} {w : World}

theorem Isolated.inv_rollback (hS : Isolated S p) {w : World} (hi : S.inv w) :
    S.inv { w with store := w.store.rollback p } :=
  hS.quiet .rollback {} w (.ok ()) _ rfl hi rfl

/-- An operation that does not touch the store or the ghost. -/
def Op.outer : Op → Bool
  | .now => true
  | .randomUUID => true
  | .getBranch _ => true
  | .getCustomerAddress _ => true
  | .getBranchProducts .. => true
  | .reserveStock .. => true
  | .undoReserveStock .. => true
  | .createSession _ => true
  | .random36 => true
  | .fetchRefund _ => true
  | .cache _ => true
  | .emit _ => true
  | _ => false

theorem exec_outer {o : Op} {e : Env} {r : Except Err o.Res} {w' : World} (ho : o.outer = true)
    (h : exec p o e w = some (r, w')) :
    w'.store = w.store ∧ w'.seen = w.seen ∧ w'.seqs = w.seqs := by
  cases o with
  | start | commit | rollback | sql c s => cases ho
  | now | emit m | getBranch b | getCustomerAddress a | getBranchProducts b ps
  | createSession i | random36 | fetchRefund ps =>
    simp only [exec, Option.some.injEq, Prod.mk.injEq] at h
    rw [← h.2]
    exact ⟨rfl, rfl, rfl⟩
  | randomUUID | reserveStock b is k | undoReserveStock b is k | cache c =>
    simp only [exec] at h
    split_ifs at h <;> simp only [Option.some.injEq, Prod.mk.injEq] at h <;> rw [← h.2] <;>
      exact ⟨rfl, rfl, rfl⟩

theorem Op.not_commits_of_outer {o : Op} (ho : o.outer = true) : o.commits = false := by
  cases o with
  | sql c s => cases ho
  | commit => cases ho
  | _ => rfl

theorem machine_exec : machine.exec = exec := rfl

theorem wp_outer (hS : Isolated S p) {o : Op} (ho : o.outer = true)
    {Q : Except Err o.Res → World → Prop}
    (h : ∀ w₁ e r w₂, S.rely p w w₁ → S.inv w₁ → ok p o e w₁ → exec p o e w₁ = some (r, w₂) →
      S.inv w₂ → w₂.store = w₁.store → w₂.seen = w₁.seen → w₂.seqs = w₁.seqs → Q r w₂) :
    wp machine ok S p (.perform o) Q w := by
  apply wp_perform
  intro w₁ hr hi e r w₂ hok hx
  rw [machine_exec] at hx
  have hi₂ := hS.quiet o e w₁ r w₂ (Op.not_commits_of_outer ho) hi hx
  obtain ⟨hstore, hseen, hseqs⟩ := exec_outer ho hx
  exact ⟨hi₂, hS.guarantee o e w₁ r w₂ hi hx, h w₁ e r w₂ hr hi hok hx hi₂ hstore hseen hseqs⟩

theorem wp_now (hS : Isolated S p) {Q : Except Err Time → World → Prop}
    (h : ∀ w₁, S.rely p w w₁ → S.inv w₁ → Q (.ok w₁.clock) w₁) :
    wp machine ok S p now Q w := by
  apply wp_outer hS rfl
  intro w₁ e r w₂ hr hi _ hx _ _ _ _
  simp only [exec, Option.some.injEq, Prod.mk.injEq] at hx
  rw [← hx.1, ← hx.2]
  exact h w₁ hr hi

theorem wp_start (hS : Isolated S p) {Q : Except Err Unit → World → Prop}
    (hfail : ∀ w₁ e, S.rely p w w₁ → S.inv w₁ → ok p .start e w₁ → e.fail = true →
      Q (.error .failed) w₁)
    (hok : ∀ w₁ e, S.rely p w w₁ → S.inv w₁ → ok p .start e w₁ →
      S.inv { w₁ with store := w₁.store.start p } → Q (.ok ()) { w₁ with store := w₁.store.start p }) :
    wp machine ok S p startTransaction Q w := by
  apply wp_perform
  intro w₁ hr hi e r w₂ hok' hx
  rw [machine_exec] at hx
  refine ⟨hS.quiet .start e w₁ r w₂ rfl hi hx, hS.guarantee .start e w₁ r w₂ hi hx, ?_⟩
  have hi₂ := hS.quiet .start e w₁ r w₂ rfl hi hx
  simp only [exec] at hx
  split_ifs at hx with hf <;> simp only [Option.some.injEq, Prod.mk.injEq] at hx
  · rw [← hx.1, ← hx.2]
    exact hfail w₁ e hr hi hok' hf
  · obtain ⟨rfl, rfl⟩ := hx
    exact hok w₁ e hr hi hok' hi₂

theorem wp_rollback (hS : Isolated S p) {Q : Except Err Unit → World → Prop}
    (h : ∀ w₁, S.rely p w w₁ → S.inv w₁ → S.inv { w₁ with store := w₁.store.rollback p } →
      Q (.ok ()) { w₁ with store := w₁.store.rollback p }) :
    wp machine ok S p rollback Q w := by
  apply wp_perform
  intro w₁ hr hi e r w₂ _ hx
  rw [machine_exec] at hx
  have hi₂ := hS.quiet .rollback e w₁ r w₂ rfl hi hx
  refine ⟨hi₂, hS.guarantee .rollback e w₁ r w₂ hi hx, ?_⟩
  simp only [exec, Option.some.injEq, Prod.mk.injEq] at hx
  obtain ⟨rfl, rfl⟩ := hx
  exact h w₁ hr hi hi₂

/-- A statement in the open transaction. -/
theorem wp_trx (hS : Isolated S p) {q : Sql} {log : List Write}
    (hlog : w.store.txn p = .active log) {Q : Except Err q.Res → World → Prop}
    (hfail : ∀ w₁ e, S.rely p w w₁ → S.inv w₁ → ok p (.sql .trx q) e w₁ → e.fail = true →
      Q (.error .failed) w₁)
    (hok : ∀ w₁ e, S.rely p w w₁ → S.inv w₁ → w₁.store.txn p = .active log →
      ok p (.sql .trx q) e w₁ → S.inv (w₁.queried p q) →
      Q (w₁.inTrx p q).reply (w₁.queried p q)) :
    wp machine ok S p (sql .trx q) Q w := by
  apply wp_perform
  intro w₁ hr hi e r w₂ hok' hx
  rw [machine_exec] at hx
  have hi₂ := hS.quiet (.sql .trx q) e w₁ r w₂ rfl hi hx
  refine ⟨hi₂, hS.guarantee (.sql .trx q) e w₁ r w₂ hi hx, ?_⟩
  have hlog₁ : w₁.store.txn p = .active log := (hS.sees w w₁ hr).1.txn.trans hlog
  by_cases hf : e.fail = true
  · simp only [exec, hf, if_true, Option.some.injEq, Prod.mk.injEq] at hx
    rw [← hx.1, ← hx.2]
    exact hfail w₁ e hr hi hok' hf
  · obtain ⟨rfl, rfl⟩ := exec_trx hlog₁ (Bool.eq_false_iff.mpr hf) hx
    exact hok w₁ e hr hi hlog₁ hok' hi₂

/-- A statement on the pool. -/
theorem wp_pool (hS : Isolated S p) {q : Sql} {Q : Except Err q.Res → World → Prop}
    (hfail : ∀ w₁ e, S.rely p w w₁ → S.inv w₁ → ok p (.sql .pool q) e w₁ → e.fail = true →
      Q (.error .failed) w₁)
    (hok : ∀ w₁ e, S.rely p w w₁ → S.inv w₁ → ok p (.sql .pool q) e w₁ →
      (∀ k ∈ engine.keys (w₁.onPool q), ∀ q', (k, q') ∉ w₁.store.locks) →
      S.inv (w₁.pooled p q) ∧ Q (w₁.onPool q).reply (w₁.pooled p q)) :
    wp machine ok S p (sql .pool q) Q w := by
  apply wp_perform
  intro w₁ hr hi e r w₂ hok' hx
  rw [machine_exec] at hx
  by_cases hf : e.fail = true
  · have hx' := hx
    simp only [exec, hf, if_true, Option.some.injEq, Prod.mk.injEq] at hx'
    obtain ⟨rfl, rfl⟩ := hx'
    exact ⟨hi, hS.guarantee (.sql .pool q) e w₁ _ w₁ hi hx, hfail w₁ e hr hi hok' hf⟩
  · obtain ⟨rfl, rfl, hfree⟩ := exec_pool (Bool.eq_false_iff.mpr hf) hx
    obtain ⟨hi₂, hQ⟩ := hok w₁ e hr hi hok' hfree
    exact ⟨hi₂, hS.guarantee (.sql .pool q) e w₁ _ _ hi hx, hQ⟩

/-- The commit of the open transaction. -/
theorem wp_commit (hS : Isolated S p) {log : List Write} (hlog : w.store.txn p = .active log)
    {Q : Except Err Unit → World → Prop}
    (hfail : ∀ w₁ e, S.rely p w w₁ → S.inv w₁ → ok p .commit e w₁ → e.fail = true →
      Q (.error .failed) { w₁ with store := w₁.store.rollback p })
    (hok : ∀ w₁ e, S.rely p w w₁ → S.inv w₁ → w₁.store.txn p = .active log →
      ok p .commit e w₁ → S.inv (w₁.committed p) ∧ Q (.ok ()) (w₁.committed p)) :
    wp machine ok S p commit Q w := by
  apply wp_perform
  intro w₁ hr hi e r w₂ hok' hx
  rw [machine_exec] at hx
  have hlog₁ : w₁.store.txn p = .active log := (hS.sees w w₁ hr).1.txn.trans hlog
  by_cases hf : e.fail = true
  · have hx' := hx
    simp only [exec, hf, if_true, Option.some.injEq, Prod.mk.injEq] at hx'
    obtain ⟨rfl, rfl⟩ := hx'
    exact ⟨hS.inv_rollback hi, hS.guarantee .commit e w₁ _ _ hi hx, hfail w₁ e hr hi hok' hf⟩
  · have hx' := hx
    simp only [exec, hf, Bool.false_eq_true, if_false, Store.commit, hlog₁, Option.some.injEq,
      Prod.mk.injEq] at hx'
    obtain ⟨rfl, hw⟩ := hx'
    have hw₂ : w₂ = w₁.committed p := by
      rw [← hw]
      simp only [World.committed, World.log_of_active hlog₁]
    obtain ⟨hi₂, hQ⟩ := hok w₁ e hr hi hlog₁ hok'
    rw [hw₂] at hx ⊢
    exact ⟨hi₂, hS.guarantee .commit e w₁ _ _ hi hx, hQ⟩

/-- After an error everything that the transaction did is undone. -/
theorem wp_abort {α : Type} (hS : Isolated S p) {err : Err} {P : α → World → Prop} :
    wp machine ok S p (do rollback; throw err : Svc α) (OnOk P) w := by
  apply wp_seq
  apply wp_rollback hS
  intro w₁ _ _ _
  trivial

end Rules

section OkRules
variable {ok : Pid → Op → Env → World → Prop} {S : Spec Pid World} {p : Pid} {w : World}

theorem wp_start_ok (hS : Isolated S p) {P : Unit → World → Prop}
    (hok : ∀ w₁, S.rely p w w₁ → S.inv w₁ → S.inv { w₁ with store := w₁.store.start p } →
      P () { w₁ with store := w₁.store.start p }) :
    wp machine ok S p startTransaction (OnOk P) w := by
  apply wp_start hS
  · intro w₁ e _ _ _ _
    trivial
  · intro w₁ e hr hi _ hi₂
    exact hok w₁ hr hi hi₂

theorem wp_trx_ok (hS : Isolated S p) {q : Sql} {log : List Write}
    (hlog : w.store.txn p = .active log) {P : q.Res → World → Prop}
    (hok : ∀ w₁ e a, S.rely p w w₁ → S.inv w₁ → w₁.store.txn p = .active log →
      ok p (.sql .trx q) e w₁ → S.inv (w₁.queried p q) → (w₁.inTrx p q).reply = .ok a →
      P a (w₁.queried p q)) :
    wp machine ok S p (sql .trx q) (OnOk P) w := by
  apply wp_trx hS hlog
  · intro w₁ e _ _ _ _
    trivial
  · intro w₁ e hr hi hlog₁ hok' hi₂
    cases hreply : (w₁.inTrx p q).reply with
    | ok a => exact hok w₁ e a hr hi hlog₁ hok' hi₂ hreply
    | error err => trivial

theorem wp_pool_ok (hS : Isolated S p) {q : Sql} {P : q.Res → World → Prop}
    (hok : ∀ w₁ e, S.rely p w w₁ → S.inv w₁ → ok p (.sql .pool q) e w₁ →
      (∀ k ∈ engine.keys (w₁.onPool q), ∀ q', (k, q') ∉ w₁.store.locks) →
      S.inv (w₁.pooled p q) ∧ ∀ a, (w₁.onPool q).reply = .ok a → P a (w₁.pooled p q)) :
    wp machine ok S p (sql .pool q) (OnOk P) w := by
  apply wp_pool hS
  · intro w₁ e _ _ _ _
    trivial
  · intro w₁ e hr hi hok' hfree
    obtain ⟨hi₂, hP⟩ := hok w₁ e hr hi hok' hfree
    refine ⟨hi₂, ?_⟩
    cases hreply : (w₁.onPool q).reply with
    | ok a => exact hP a hreply
    | error err => trivial

theorem wp_commit_ok (hS : Isolated S p) {log : List Write} (hlog : w.store.txn p = .active log)
    {P : Unit → World → Prop}
    (hok : ∀ w₁, S.rely p w w₁ → S.inv w₁ → w₁.store.txn p = .active log →
      S.inv (w₁.committed p) ∧ P () (w₁.committed p)) :
    wp machine ok S p commit (OnOk P) w := by
  apply wp_commit hS hlog
  · intro w₁ e _ _ _ _
    trivial
  · intro w₁ e hr hi hlog₁ _
    exact hok w₁ hr hi hlog₁

/-- Operations outside the store, with the transaction and the invariant as they were. -/
theorem wp_outer_ok (hS : Isolated S p) {o : Op} (ho : o.outer = true) {P : o.Res → World → Prop}
    (h : ∀ w₁ e a w₂, S.rely p w w₁ → S.inv w₁ → ok p o e w₁ → exec p o e w₁ = some (.ok a, w₂) →
      S.inv w₂ → w₂.store = w₁.store → w₂.seen = w₁.seen → w₂.seqs = w₁.seqs → P a w₂) :
    wp machine ok S p (.perform o) (OnOk P) w := by
  apply wp_outer hS ho
  intro w₁ e r w₂ hr hi hok hx hi₂ hstore hseen hseqs
  cases r with
  | ok a => exact h w₁ e a w₂ hr hi hok hx hi₂ hstore hseen hseqs
  | error err => trivial

theorem wp_now_ok (hS : Isolated S p) {P : Time → World → Prop}
    (h : ∀ w₁, S.rely p w w₁ → S.inv w₁ → P w₁.clock w₁) :
    wp machine ok S p now (OnOk P) w := wp_now hS h

/-- A missing row ends the call. -/
theorem wp_toEntity {α : Type} {row : Option α} {P : α → World → Prop}
    (h : ∀ a, row = some a → P a w) : wp machine ok S p (toEntity row) (OnOk P) w := by
  cases row with
  | none => trivial
  | some a => exact h a rfl

/-- An invariant of the store. -/
def OfStore (S : Spec Pid World) : Prop := ∀ w w' : World, w'.store = w.store → S.inv w → S.inv w'

/-- A statement on the pool that only reads. -/
theorem wp_pool_read (hS : Isolated S p) (hstore : OfStore S) {q : Sql} {P : q.Res → World → Prop}
    (hread : ∀ seqs clock db, (q.eval seqs clock db).writes = [])
    (h : ∀ w₁ e a, S.rely p w w₁ → S.inv w₁ → ok p (.sql .pool q) e w₁ →
      (w₁.onPool q).reply = .ok a → (w₁.pooled p q).store = w₁.store →
      S.inv (w₁.pooled p q) → P a (w₁.pooled p q)) :
    wp machine ok S p (sql .pool q) (OnOk P) w := by
  apply wp_pool_ok hS
  intro w₁ e hr hi hok _
  have hsame : (w₁.pooled p q).store = w₁.store := World.pooled_store (hread w₁.seqs w₁.clock _)
  have hinv := hstore w₁ _ hsame hi
  exact ⟨hinv, fun a ha => h w₁ e a hr hi hok ha hsame hinv⟩

section Shared
variable {I : Db → List (Pid × List Write) → Prop}

theorem sharedSpec_ofStore : OfStore (sharedSpec I) :=
  fun _ _ h hi => sharedSpec_inv_of_store h hi

/-- A statement on the pool that writes is a commit of its own. -/
theorem wp_pool_shared {q : Sql} {P : q.Res → World → Prop}
    (h : ∀ w₁ e, (sharedSpec I).rely p w w₁ → (sharedSpec I).inv w₁ → ok p (.sql .pool q) e w₁ →
      ((w₁.onPool q).writes ≠ [] → I (engine.applyAll (w₁.onPool q).writes w₁.store.db)
        (w₁.store.history ++ [(p, (w₁.onPool q).writes)])) ∧
      ∀ a, (w₁.onPool q).reply = .ok a → P a (w₁.pooled p q)) :
    wp machine ok (sharedSpec I) p (sql .pool q) (OnOk P) w := by
  apply wp_pool_ok (sharedSpec_isolated I p)
  intro w₁ e hr hi hok _
  obtain ⟨hI, hP⟩ := h w₁ e hr hi hok
  refine ⟨⟨⟨hi.1.log_locked, hi.1.exclusive⟩, ?_⟩, hP⟩
  by_cases hempty : (w₁.onPool q).writes = []
  · have hstore := World.pooled_store (p := p) hempty
    rw [hstore]
    exact hi.2
  · simp only [World.pooled, List.isEmpty_iff, hempty, if_false]
    exact hI hempty

/-- A commit only has to establish the invariant of the committed tables. It may rely on what its
run meets. -/
theorem wp_commit_meets {log : List Write} {P : Unit → World → Prop}
    (hlog : w.store.txn p = .active log)
    (h : ∀ w₁ e, (sharedSpec I).rely p w w₁ → (sharedSpec I).inv w₁ →
      w₁.store.txn p = .active log → ok p .commit e w₁ →
      I (engine.applyAll log w₁.store.db) (w₁.store.history ++ [(p, log)]) ∧
        P () (w₁.committed p)) :
    wp machine ok (sharedSpec I) p commit (OnOk P) w := by
  apply wp_commit (sharedSpec_isolated I p) hlog
  · intro w₁ e _ _ _ _
    trivial
  · intro w₁ e hr hi hlog₁ hok
    obtain ⟨hI, hP⟩ := h w₁ e hr hi hlog₁ hok
    refine ⟨⟨commit_locked hi.1 (World.commit_eq hlog₁), ?_⟩, hP⟩
    simp only [World.committed, World.log_of_active hlog₁]
    exact hI

theorem wp_commit_shared {log : List Write} {P : Unit → World → Prop}
    (hlog : w.store.txn p = .active log)
    (h : ∀ w₁, (sharedSpec I).rely p w w₁ → (sharedSpec I).inv w₁ →
      w₁.store.txn p = .active log →
      I (engine.applyAll log w₁.store.db) (w₁.store.history ++ [(p, log)]) ∧
        P () (w₁.committed p)) :
    wp machine ok (sharedSpec I) p commit (OnOk P) w :=
  wp_commit_meets hlog fun w₁ _ hr hi hlog₁ _ => h w₁ hr hi hlog₁

end Shared

end OkRules

end OrderService
