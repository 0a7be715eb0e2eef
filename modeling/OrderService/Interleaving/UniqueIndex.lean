import OrderService.Interleaving.ReadCommitted
import Mathlib.Data.List.Nodup

/-! A unique index under read committed isolation: a statement inserts only values that it does
not see, and locks them, so no two committed rows come to have the same. -/
namespace ReadCommitted

structure UniqueIndex {Db Write Key : Type} (E : Engine Db Write Key) (V : Type) where
  values : Db → List V
  entries : Write → List V
  values_apply : ∀ x db, values (E.apply x db) = values db ++ entries x
  key : V → Key
  locked : ∀ x v, v ∈ entries x → E.key x = some (key v)

namespace UniqueIndex
variable {Pid Db Write Key V ρ : Type} {E : Engine Db Write Key} (U : UniqueIndex E V)

/-- The values that the open transaction of `p` adds. -/
def pending (s : Store Pid Db Write Key) (p : Pid) : List V := (s.txn p).log.flatMap U.entries

/-- What a statement inserts on these tables, each once, is not in them. -/
def Admits (ws : List Write) (db : Db) : Prop :=
  (ws.flatMap U.entries).Nodup ∧ ∀ v ∈ ws.flatMap U.entries, v ∉ U.values db

/-- The statement inserts only values that it does not see, each once. -/
def Guards (ask : Db → Answer Write Key ρ) : Prop :=
  ∀ db, ((ask db).writes.flatMap U.entries).Nodup ∧
    ∀ v ∈ (ask db).writes.flatMap U.entries, v ∉ U.values db

/-- No value is twice in what any transaction sees. -/
structure Unique (s : Store Pid Db Write Key) : Prop where
  committed : (U.values s.db).Nodup
  seen : ∀ p, (U.values s.db ++ U.pending s p).Nodup

variable {U}

theorem values_applyAll (ws : List Write) (db : Db) :
    U.values (E.applyAll ws db) = U.values db ++ ws.flatMap U.entries := by
  induction ws generalizing db with
  | nil => simp
  | cons x ws ih =>
    rw [applyAll_cons, ih, U.values_apply, List.append_assoc, List.flatMap_cons]

theorem values_view (s : Store Pid Db Write Key) (p : Pid) :
    U.values (s.view E p) = U.values s.db ++ U.pending s p := values_applyAll _ _

variable {s s' : Store Pid Db Write Key} {p : Pid}

theorem pending_of_log {w : List Write} (h : (s.txn p).log = w) :
    U.pending s p = w.flatMap U.entries := by
  rw [pending, h]

/-- A value that a transaction is about to insert is locked by it. -/
theorem pending_locked (hl : Locked E s) {v : V} (hv : v ∈ U.pending s p) :
    (U.key v, p) ∈ s.locks := by
  obtain ⟨x, hx, hvx⟩ := List.mem_flatMap.mp hv
  exact hl.log_locked p x hx _ (U.locked x v hvx)

/-- Transactions may lose their logs. -/
theorem Unique.of_fewer (h : U.Unique s) (hdb : s'.db = s.db)
    (hlog : ∀ q, (s'.txn q).log = (s.txn q).log ∨ (s'.txn q).log = []) : U.Unique s' := by
  refine ⟨by rw [hdb]; exact h.committed, fun q => ?_⟩
  rcases hlog q with hq | hq <;> rw [hdb, pending, hq]
  · exact h.seen q
  · rw [List.flatMap_nil, List.append_nil]
    exact h.committed

variable [DecidableEq Pid]

theorem log_update (s : Store Pid Db Write Key) (p q : Pid) {t : Txn Write} (ht : t.log = []) :
    (Function.update s.txn p t q).log = (s.txn q).log ∨
      (Function.update s.txn p t q).log = [] := by
  by_cases hqp : q = p
  · subst hqp
    exact .inr (by rw [Function.update_self]; exact ht)
  · exact .inl (by rw [Function.update_of_ne hqp])

theorem Unique.rollback (h : U.Unique s) : U.Unique (s.rollback p) :=
  h.of_fewer rfl fun q => log_update s p q rfl

theorem Unique.start (h : U.Unique s) : U.Unique (s.start p) :=
  h.of_fewer rfl fun q => log_update s p q rfl

/-- The values of two transactions are apart, because both have them locked. -/
theorem Unique.commit (hl : Locked E s) (h : U.Unique s) (hc : s.commit E p = some s') :
    U.Unique s' := by
  obtain ⟨log, hlog, hs'⟩ := commit_cases hc
  have htxn : s'.txn = Function.update s.txn p .closed := by rw [hs']
  have hpending : U.pending s p = log.flatMap U.entries := pending_of_log (by rw [hlog]; rfl)
  have hvalues : U.values s'.db = U.values s.db ++ U.pending s p := by
    rw [hs', hpending]
    exact values_applyAll _ _
  refine ⟨by rw [hvalues]; exact h.seen p, fun q => ?_⟩
  rw [hvalues]
  by_cases hqp : q = p
  · subst hqp
    have hnone : U.pending s' q = [] :=
      pending_of_log (w := []) (by rw [htxn, Function.update_self]; rfl)
    rw [hnone, List.append_nil]
    exact h.seen q
  · have hother : U.pending s' q = U.pending s q :=
      pending_of_log (by rw [htxn, Function.update_of_ne hqp])
    have hq := List.nodup_append.mp (h.seen q)
    rw [hother, List.nodup_append]
    refine ⟨h.seen p, hq.2.1, fun v hv v' hv' heq => ?_⟩
    subst heq
    rcases List.mem_append.mp hv with hv | hv
    · exact hq.2.2 v hv v hv' rfl
    · exact hqp (hl.exclusive _ q p (pending_locked hl hv') (pending_locked hl hv))

variable [DecidableEq Key]

theorem Unique.query (h : U.Unique s) {ask : Db → Answer Write Key ρ}
    (hask : U.Admits (ask (s.view E p)).writes (s.view E p)) {r : Option ρ}
    (hq : s.query E p ask = some (r, s')) : U.Unique s' := by
  rcases query_cases hq with ⟨_, rfl, _⟩ | ⟨log, hlog, _, _, hs'⟩
  · exact h
  have hdb : s'.db = s.db := by rw [hs']
  have htxn : s'.txn
      = Function.update s.txn p (.active (log ++ (ask (s.view E p)).writes)) := by rw [hs']
  refine ⟨by rw [hdb]; exact h.committed, fun q => ?_⟩
  rw [hdb]
  by_cases hqp : q = p
  · subst hqp
    obtain ⟨hnodup, hnew⟩ := hask
    have hbefore : U.pending s q = log.flatMap U.entries := pending_of_log (by rw [hlog]; rfl)
    have hafter : U.pending s' q
        = U.pending s q ++ (ask (s.view E q)).writes.flatMap U.entries := by
      rw [hbefore, ← List.flatMap_append]
      exact pending_of_log (by rw [htxn, Function.update_self]; rfl)
    rw [hafter, ← List.append_assoc, ← values_view, List.nodup_append]
    refine ⟨by rw [values_view]; exact h.seen q, hnodup, fun v hv v' hv' heq => ?_⟩
    subst heq
    exact hnew v hv' hv
  · have hother : U.pending s' q = U.pending s q :=
      pending_of_log (by rw [htxn, Function.update_of_ne hqp])
    rw [hother]
    exact h.seen q

omit [DecidableEq Pid] in
theorem Unique.autocommit (hl : Locked E s) (h : U.Unique s) {ask : Db → Answer Write Key ρ}
    (hask : U.Admits (ask s.db).writes s.db) {r : ρ}
    (hq : s.autocommit E p ask = some (r, s')) : U.Unique s' := by
  obtain ⟨_, hfree, hs'⟩ := autocommit_cases hq
  obtain ⟨hnodup, hnew⟩ := hask
  have hpending : ∀ q, U.pending s' q = U.pending s q := fun q =>
    pending_of_log (by rw [hs'])
  have hvalues : U.values s'.db = U.values s.db ++ (ask s.db).writes.flatMap U.entries := by
    rw [hs']
    exact values_applyAll _ _
  have hcommitted : (U.values s.db ++ (ask s.db).writes.flatMap U.entries).Nodup := by
    rw [List.nodup_append]
    refine ⟨h.committed, hnodup, fun v hv v' hv' heq => ?_⟩
    subst heq
    exact hnew v hv' hv
  refine ⟨by rw [hvalues]; exact hcommitted, fun q => ?_⟩
  have hq := List.nodup_append.mp (h.seen q)
  rw [hvalues, hpending, List.nodup_append]
  refine ⟨hcommitted, hq.2.1, fun v hv v' hv' heq => ?_⟩
  subst heq
  rcases List.mem_append.mp hv with hv | hv
  · exact hq.2.2 v hv v hv' rfl
  · -- What is inserted now was locked by nobody.
    obtain ⟨x, hx, hvx⟩ := List.mem_flatMap.mp hv
    have hkey : U.key v ∈ E.keys (ask s.db) :=
      List.mem_append_right _ (List.mem_filterMap.mpr ⟨x, hx, U.locked x v hvx⟩)
    exact hfree _ hkey q (pending_locked hl hv')

end UniqueIndex

end ReadCommitted
