import OrderService.Effects
import OrderService.Rows

/-! The ids that the sequences give: no two rows of a table have the same one, in whatever
transactions they are inserted and whichever of these are committed. -/
namespace OrderService
open ReadCommitted Interleaving

section Worlds
variable {p : Pid} {q : Sql} {c : Conn} {e : Env} {w w' : World} {r : Except Err q.Res}

/-- A statement does nothing, or is one of the pool or of the open transaction. -/
theorem exec_sql_cases (h : exec p (.sql c q) e w = some (r, w')) :
    w' = w ∨ (c = .pool ∧ w' = w.pooled p q) ∨
      (c = .trx ∧ w' = w.queried p q ∧ ∃ log, w.store.txn p = .active log) := by
  by_cases hfail : e.fail = true
  · simp only [exec, hfail, if_true, Option.some.injEq, Prod.mk.injEq] at h
    exact .inl h.2.symm
  have hfail : e.fail = false := Bool.eq_false_iff.mpr hfail
  cases c with
  | pool => exact .inr (.inl ⟨rfl, (exec_pool hfail h).2.1⟩)
  | trx =>
    cases htxn : w.store.txn p with
    | active log => exact .inr (.inr ⟨rfl, (exec_trx htxn hfail h).2, log, rfl⟩)
    | idle => exact .inl (exec_trx_closed (by rw [htxn]; exact fun _ h => by cases h) h).2
    | closed => exact .inl (exec_trx_closed (by rw [htxn]; exact fun _ h => by cases h) h).2

/-- Only statements draw numbers. -/
theorem exec_seqs {o : Op} {r : Except Err o.Res} (ho : ∀ c q, o ≠ .sql c q)
    (h : exec p o e w = some (r, w')) : w'.seqs = w.seqs := by
  cases o with
  | sql c q => exact absurd rfl (ho c q)
  | commit =>
    simp only [exec] at h
    split_ifs at h
    · simp only [Option.some.injEq, Prod.mk.injEq] at h
      rw [← h.2]
    · split at h <;> simp only [Option.some.injEq, Prod.mk.injEq] at h <;> rw [← h.2]
  | rollback =>
    simp only [exec, Option.some.injEq, Prod.mk.injEq] at h
    rw [← h.2]
  | start =>
    simp only [exec] at h
    split_ifs at h <;> simp only [Option.some.injEq, Prod.mk.injEq] at h <;> rw [← h.2]
  | _ => exact (exec_outer rfl h).2.2

end Worlds

/-- A table whose rows take their ids from a sequence. -/
structure Serial where
  ids : Db → List Nat
  drawn : Write → List Nat
  next : Seqs → Nat
  ids_apply : ∀ x db, ids (engine.apply x db) = ids db ++ drawn x
  drawn_fresh : ∀ seqs clock (q : Sql) db,
    ((q.eval seqs clock db).writes.flatMap drawn).Nodup ∧
      ∀ i ∈ (q.eval seqs clock db).writes.flatMap drawn, next seqs ≤ i ∧ i < next (q.bump seqs)
  next_bump : ∀ seqs (q : Sql), next seqs ≤ next (q.bump seqs)

namespace Serial
variable (T : Serial)

/-- The ids in the open transaction of `p`. -/
def pending (w : World) (p : Pid) : List Nat := (w.log p).flatMap T.drawn

/-- All ids, committed or not, are different, and lie below the next one. -/
structure Numbered (w : World) : Prop where
  started : 0 < T.next w.seqs
  committed : ∀ i ∈ T.ids w.store.db, 0 < i ∧ i < T.next w.seqs
  open_ : ∀ p, ∀ i ∈ T.pending w p, 0 < i ∧ i < T.next w.seqs ∧ i ∉ T.ids w.store.db
  nodup : (T.ids w.store.db).Nodup
  nodup_open : ∀ p, (T.pending w p).Nodup
  disjoint : ∀ p q, p ≠ q → ∀ i ∈ T.pending w p, i ∉ T.pending w q

variable {T}

theorem ids_applyAll (ws : List Write) (db : Db) :
    T.ids (engine.applyAll ws db) = T.ids db ++ ws.flatMap T.drawn := by
  induction ws generalizing db with
  | nil => simp
  | cons x ws ih =>
    rw [applyAll_cons, ih, T.ids_apply, List.append_assoc, List.flatMap_cons]

variable {w : World} {p : Pid}

/-- Nothing changes for the ids when tables, logs and sequences stay, or logs are given up. -/
theorem Numbered.of_fewer {w' : World} (h : T.Numbered w) (hdb : w'.store.db = w.store.db)
    (hseqs : w'.seqs = w.seqs) (hlog : ∀ q, w'.log q = w.log q ∨ w'.log q = []) :
    T.Numbered w' := by
  have hpending : ∀ q, T.pending w' q = T.pending w q ∨ T.pending w' q = [] := by
    intro q
    rcases hlog q with hq | hq
    · exact .inl (by rw [pending, hq, pending])
    · exact .inr (by rw [pending, hq]; rfl)
  constructor
  case started => exact by rw [hseqs]; exact h.started
  case committed => exact by rw [hdb, hseqs]; exact h.committed
  case open_ =>
    intro q i hi
    rcases hpending q with hq | hq <;> rw [hq] at hi
    · rw [hdb, hseqs]
      exact h.open_ q i hi
    · cases hi
  case nodup => exact by rw [hdb]; exact h.nodup
  case nodup_open =>
    intro q
    rcases hpending q with hq | hq <;> rw [hq]
    · exact h.nodup_open q
    · exact List.nodup_nil
  case disjoint =>
    intro q q' hqq i hi hi'
    rcases hpending q with hq | hq <;> rw [hq] at hi
    · rcases hpending q' with hq' | hq' <;> rw [hq'] at hi'
      · exact h.disjoint q q' hqq i hi hi'
      · cases hi'
    · cases hi

theorem log_update (w : World) (p q : Pid) (t : Txn Write) (ht : t.log = []) :
    (Function.update w.store.txn p t q).log = w.log q ∨
      (Function.update w.store.txn p t q).log = [] := by
  by_cases hqp : q = p
  · subst hqp
    exact .inr (by rw [Function.update_self]; exact ht)
  · exact .inl (by rw [Function.update_of_ne hqp]; rfl)

theorem Numbered.rolledBack (h : T.Numbered w) :
    T.Numbered { w with store := w.store.rollback p } :=
  h.of_fewer rfl rfl fun q => log_update w p q .closed rfl

theorem Numbered.started_ (h : T.Numbered w) : T.Numbered { w with store := w.store.start p } :=
  h.of_fewer rfl rfl fun q => log_update w p q (.active []) rfl

/-- A statement on the pool commits its numbers at once. -/
theorem Numbered.pooled (h : T.Numbered w) (q : Sql) : T.Numbered (w.pooled p q) := by
  obtain ⟨hnodup, hfresh⟩ := T.drawn_fresh w.seqs w.clock q w.store.db
  have hnext := T.next_bump w.seqs q
  have hids : T.ids (w.pooled p q).store.db
      = T.ids w.store.db ++ (w.onPool q).writes.flatMap T.drawn := ids_applyAll _ _
  have hpending : ∀ q', T.pending (w.pooled p q) q' = T.pending w q' := fun _ => rfl
  constructor
  case started =>
    exact lt_of_lt_of_le h.started hnext
  case committed =>
    intro i hi
    rw [hids, List.mem_append] at hi
    rcases hi with hi | hi
    · exact ⟨(h.committed i hi).1, lt_of_lt_of_le (h.committed i hi).2 hnext⟩
    · have hrange := hfresh i hi
      exact ⟨lt_of_lt_of_le h.started hrange.1, hrange.2⟩
  case open_ =>
    intro q' i hi
    rw [hpending] at hi
    obtain ⟨hpos, hlt, hnew⟩ := h.open_ q' i hi
    refine ⟨hpos, lt_of_lt_of_le hlt hnext, fun hmem => ?_⟩
    rw [hids, List.mem_append] at hmem
    rcases hmem with hmem | hmem
    · exact hnew hmem
    · have hle := (hfresh i hmem).1
      omega
  case nodup =>
    rw [hids, List.nodup_append]
    refine ⟨h.nodup, hnodup, fun i hi j hj heq => ?_⟩
    have hlt := (h.committed i hi).2
    have hle := (hfresh j hj).1
    omega
  case nodup_open => exact h.nodup_open
  case disjoint => exact h.disjoint

/-- A statement in a transaction draws numbers that nobody has. -/
theorem Numbered.queried (h : T.Numbered w) (q : Sql) : T.Numbered (w.queried p q) := by
  obtain ⟨hnodup, hfresh⟩ := T.drawn_fresh w.seqs w.clock q (w.view p)
  have hnext := T.next_bump w.seqs q
  have hown : T.pending (w.queried p q) p
      = T.pending w p ++ (w.inTrx p q).writes.flatMap T.drawn := by
    rw [pending, World.log, World.queried_txn]
    exact List.flatMap_append
  have hother : ∀ q', q' ≠ p → T.pending (w.queried p q) q' = T.pending w q' := by
    intro q' hne
    have htxn : (w.queried p q).store.txn q' = w.store.txn q' := Function.update_of_ne hne _ _
    rw [pending, World.log, htxn]
    rfl
  constructor
  case started => exact lt_of_lt_of_le h.started hnext
  case committed =>
    intro i hi
    exact ⟨(h.committed i hi).1, lt_of_lt_of_le (h.committed i hi).2 hnext⟩
  case open_ =>
    intro q' i hi
    by_cases hq : q' = p
    · subst hq
      rw [hown, List.mem_append] at hi
      rcases hi with hi | hi
      · obtain ⟨hpos, hlt, hnew⟩ := h.open_ q' i hi
        exact ⟨hpos, lt_of_lt_of_le hlt hnext, hnew⟩
      · obtain ⟨hle, hlt⟩ := hfresh i hi
        refine ⟨lt_of_lt_of_le h.started hle, hlt, fun hmem => ?_⟩
        have hbelow := (h.committed i hmem).2
        omega
    · rw [hother q' hq] at hi
      obtain ⟨hpos, hlt, hnew⟩ := h.open_ q' i hi
      exact ⟨hpos, lt_of_lt_of_le hlt hnext, hnew⟩
  case nodup => exact h.nodup
  case nodup_open =>
    intro q'
    by_cases hq : q' = p
    · subst hq
      rw [hown, List.nodup_append]
      refine ⟨h.nodup_open q', hnodup, fun i hi j hj heq => ?_⟩
      have hlt := (h.open_ q' i hi).2.1
      have hle := (hfresh j hj).1
      omega
    · rw [hother q' hq]
      exact h.nodup_open q'
  case disjoint =>
    -- An old number of one is below a new number of the other.
    have hnew : ∀ q', q' ≠ p → ∀ i ∈ T.pending w q', i ∉ T.pending (w.queried p q) p := by
      intro q' hq i hi hmem
      rw [hown, List.mem_append] at hmem
      rcases hmem with hmem | hmem
      · exact h.disjoint q' p hq i hi hmem
      · have hlt := (h.open_ q' i hi).2.1
        have hle := (hfresh i hmem).1
        omega
    intro a b hab i hi hmem
    by_cases ha : a = p
    · subst ha
      rw [hother b (Ne.symm hab)] at hmem
      exact hnew b (Ne.symm hab) i hmem hi
    · rw [hother a ha] at hi
      by_cases hb : b = p
      · subst hb
        exact hnew a ha i hi hmem
      · rw [hother b hb] at hmem
        exact h.disjoint a b hab i hi hmem

theorem Numbered.committed_ (h : T.Numbered w) : T.Numbered (w.committed p) := by
  have hids : T.ids (w.committed p).store.db = T.ids w.store.db ++ T.pending w p :=
    ids_applyAll _ _
  have hown : T.pending (w.committed p) p = [] := by
    have htxn : (w.committed p).store.txn p = .closed := Function.update_self _ _ _
    rw [pending, World.log, htxn]
    rfl
  have hother : ∀ q, q ≠ p → T.pending (w.committed p) q = T.pending w q := by
    intro q hne
    have htxn : (w.committed p).store.txn q = w.store.txn q := Function.update_of_ne hne _ _
    rw [pending, World.log, htxn]
    rfl
  have hfew : ∀ q, ∀ i ∈ T.pending (w.committed p) q, q ≠ p ∧ i ∈ T.pending w q := by
    intro q i hi
    by_cases hq : q = p
    · subst hq
      rw [hown] at hi
      cases hi
    · rw [hother q hq] at hi
      exact ⟨hq, hi⟩
  constructor
  case started => exact h.started
  case committed =>
    intro i hi
    rw [hids, List.mem_append] at hi
    rcases hi with hi | hi
    · exact h.committed i hi
    · exact ⟨(h.open_ p i hi).1, (h.open_ p i hi).2.1⟩
  case open_ =>
    intro q i hi
    obtain ⟨hq, hi⟩ := hfew q i hi
    obtain ⟨hpos, hlt, hnew⟩ := h.open_ q i hi
    refine ⟨hpos, hlt, fun hmem => ?_⟩
    rw [hids, List.mem_append] at hmem
    rcases hmem with hmem | hmem
    · exact hnew hmem
    · exact h.disjoint q p hq i hi hmem
  case nodup =>
    rw [hids, List.nodup_append]
    refine ⟨h.nodup, h.nodup_open p, fun i hi j hj heq => ?_⟩
    subst heq
    exact (h.open_ p i hj).2.2 hi
  case nodup_open =>
    intro q
    by_cases hq : q = p
    · subst hq
      rw [hown]
      exact List.nodup_nil
    · rw [hother q hq]
      exact h.nodup_open q
  case disjoint =>
    intro a b hab i hi hmem
    exact h.disjoint a b hab i (hfew a i hi).2 (hfew b i hmem).2

theorem Numbered.of_store {w' : World} (h : T.Numbered w) (hstore : w'.store = w.store)
    (hseqs : w'.seqs = w.seqs) : T.Numbered w' :=
  h.of_fewer (by rw [hstore]) hseqs fun q => .inl (by rw [World.log, hstore]; rfl)

/-- No operation gives a number twice. -/
theorem numbered_exec (T : Serial) {p : Pid} {o : Op} {e : Env} {w w' : World}
    {r : Except Err o.Res} (h : T.Numbered w) (hx : exec p o e w = some (r, w')) :
    T.Numbered w' := by
  have hs := exec_store hx
  cases o with
  | sql c q =>
    rcases exec_sql_cases hx with rfl | ⟨_, rfl⟩ | ⟨_, rfl, _⟩
    · exact h
    · exact h.pooled q
    · exact h.queried q
  | start =>
    have hseqs := exec_seqs (fun _ _ => by simp) hx
    rcases hs with hs | hs
    · exact h.of_store hs hseqs
    · exact (h.started_ (p := p)).of_store hs hseqs
  | commit =>
    have hseqs := exec_seqs (fun _ _ => by simp) hx
    rcases hs with hs | hs | hs
    · exact (h.rolledBack (p := p)).of_store hs hseqs
    · exact h.of_store hs hseqs
    · obtain ⟨log, hlog, _⟩ := commit_cases hs
      rw [World.commit_eq hlog, Option.some.injEq] at hs
      exact (h.committed_ (p := p)).of_store hs.symm hseqs
  | rollback =>
    have hs : w'.store = w.store.rollback p := hs
    have hseqs := exec_seqs (fun _ _ => by simp) hx
    exact (h.rolledBack (p := p)).of_store hs hseqs
  | _ => exact h.of_store hs (exec_seqs (fun _ _ => by simp) hx)

/-- In every interleaving, no two rows ever get the same number. -/
theorem numbered_reaches (T : Serial) {α : Type} {ok : Pid → Op → Env → World → Prop}
    {s t : Sys Pid Op Op.Res Err World α} (h : T.Numbered s.world) (ht : machine.Reaches ok s t) :
    T.Numbered t.world := by
  apply Machine.Reaches.keeps _ _ _ h ht
  · exact fun p o e w r w' hw hx => numbered_exec T hw hx
  · exact fun p w hw => hw.rolledBack
  · intro x w hw
    cases x <;> exact hw.of_store rfl rfl

/-- Before anything happened it is enough to look at the committed rows. -/
theorem numbered_atRest (T : Serial) {w : World} (hw : w.AtRest) (hstart : 0 < T.next w.seqs)
    (hids : ∀ i ∈ T.ids w.store.db, 0 < i ∧ i < T.next w.seqs)
    (hnodup : (T.ids w.store.db).Nodup) : T.Numbered w := by
  have hpending : ∀ p, T.pending w p = [] := by
    intro p
    rw [pending, World.log, hw.txn p]
    rfl
  constructor
  case started => exact hstart
  case committed => exact hids
  case open_ =>
    intro p i hi
    rw [hpending p] at hi
    cases hi
  case nodup => exact hnodup
  case nodup_open =>
    intro p
    rw [hpending p]
    exact List.nodup_nil
  case disjoint =>
    intro p q _ i hi
    rw [hpending p] at hi
    cases hi

end Serial

section Tables

/-- The id of an order that the write inserts. -/
def Write.orderId : Write → List Nat
  | .insertOrder row => [row.id]
  | _ => []

def Write.transactionId : Write → List Nat
  | .insertTransaction row => [row.id]
  | _ => []

theorem createOrder_of_mayWrite {q : Sql} {row : OrderEntity} (h : q.MayWrite (.insertOrder row)) :
    ∃ data now, q = .createOrder data now := by
  cases q <;> simp [Sql.MayWrite] at h ⊢

theorem createTransaction_of_mayWrite {q : Sql} {row : TransactionEntity}
    (h : q.MayWrite (.insertTransaction row)) : ∃ data now, q = .createTransaction data now := by
  cases q <;> simp [Sql.MayWrite] at h ⊢

/-- A statement that inserts at most one row, whose id is the next number. -/
theorem drawn_fresh_of {drawn : Write → List Nat} {next : Seqs → Nat} {seqs : Seqs} {q : Sql}
    {ws : List Write}
    (h : ws.flatMap drawn = [] ∨ ws.flatMap drawn = [next seqs] ∧ next seqs < next (q.bump seqs)) :
    (ws.flatMap drawn).Nodup ∧
      ∀ i ∈ ws.flatMap drawn, next seqs ≤ i ∧ i < next (q.bump seqs) := by
  rcases h with h | ⟨h, hlt⟩ <;> rw [h]
  · exact ⟨List.nodup_nil, fun i hi => by cases hi⟩
  · refine ⟨List.nodup_singleton _, fun i hi => ?_⟩
    rw [List.mem_singleton] at hi
    omega

theorem drawn_nil_of {drawn : Write → List Nat} {seqs : Seqs} {clock : Time} {q : Sql} {db : Db}
    (h : ∀ x, q.MayWrite x → drawn x = []) :
    (q.eval seqs clock db).writes.flatMap drawn = [] := by
  rw [List.flatMap_eq_nil_iff]
  exact fun x hx => h x (Sql.mayWrite_of_mem hx)

def orderSerial : Serial where
  ids db := db.orders.map OrderEntity.id
  drawn := Write.orderId
  next := Seqs.orders
  ids_apply x db := by
    cases x with
    | insertOrder row => exact List.map_append
    | setOrderStatus publicId status stamp now =>
      refine Eq.trans ?_ (List.append_nil _).symm
      change (db.orders.map _).map _ = _
      rw [List.map_map]
      refine List.map_congr_left fun o _ => ?_
      simp only [Function.comp_apply]
      split <;> simp
    | assignOrder publicId agentId now =>
      refine Eq.trans ?_ (List.append_nil _).symm
      change (db.orders.map _).map _ = _
      rw [List.map_map]
      refine List.map_congr_left fun o _ => ?_
      simp only [Function.comp_apply]
      split <;> rfl
    | _ => exact (List.append_nil _).symm
  drawn_fresh seqs clock q db := by
    apply drawn_fresh_of
    by_cases hq : ∃ data now, q = .createOrder data now
    · obtain ⟨data, now, rfl⟩ := hq
      simp only [Sql.eval]
      split
      · exact .inl rfl
      · exact .inr ⟨rfl, Nat.lt_succ_self _⟩
    · refine .inl (drawn_nil_of fun x hx => ?_)
      cases x with
      | insertOrder row => exact absurd (createOrder_of_mayWrite hx) hq
      | _ => rfl
  next_bump seqs q := by
    cases q <;> simp [Sql.bump]

def transactionSerial : Serial where
  ids db := db.transactions.map TransactionEntity.id
  drawn := Write.transactionId
  next := Seqs.transactions
  ids_apply x db := by
    cases x with
    | insertTransaction row => exact List.map_append
    | setTransactionStatus id status now | markRefunded id now =>
      refine Eq.trans ?_ (List.append_nil _).symm
      change (db.transactions.map _).map _ = _
      rw [List.map_map]
      refine List.map_congr_left fun t _ => ?_
      simp only [Function.comp_apply]
      split <;> rfl
    | _ => exact (List.append_nil _).symm
  drawn_fresh seqs clock q db := by
    apply drawn_fresh_of
    by_cases hq : ∃ data now, q = .createTransaction data now
    · obtain ⟨data, now, rfl⟩ := hq
      simp only [Sql.eval]
      split
      · exact .inl rfl
      · exact .inr ⟨rfl, Nat.lt_succ_self _⟩
    · refine .inl (drawn_nil_of fun x hx => ?_)
      cases x with
      | insertTransaction row => exact absurd (createTransaction_of_mayWrite hx) hq
      | _ => rfl
  next_bump seqs q := by
    cases q <;> simp [Sql.bump]

end Tables

end OrderService
