import OrderService.Interleaving.Paced
import OrderService.LifecycleStamps
import OrderService.PlacementEffects

/-! One call while no other runs and time passes: what it commits keeps the orders consistent. -/
namespace OrderService
open ReadCommitted Interleaving

section Spec

/-- Between the operations of a call that runs by itself. -/
structure TurnInv (w : World) : Prop where
  locked : Locked engine w.store
  orders : OrdersConsistent w.store.db.orders w.uuids w.clock

/-- While call `p` runs, only time passes and Redis keys disappear. -/
def inTurnSpec (p : Pid) : Spec Pid World where
  inv := TurnInv
  rely q w w' := q = p → w'.store = w.store ∧ w'.seen = w.seen ∧ w'.uuids = w.uuids ∧
    w.clock ≤ w'.clock

variable {p q : Pid} {o : Op} {e : Env} {w w' : World} {r : Except Err o.Res}

theorem ext_clock (x : Ext) (w : World) : w.clock ≤ (machine.ext x w).clock := by
  cases x with
  | tick d => exact Nat.le_add_right _ _
  | drop key => exact Nat.le_refl _

/-- Operations take no time, and ids that were drawn stay drawn. -/
theorem exec_clock (h : exec p o e w = some (r, w')) : w'.clock = w.clock ∧ w.uuids ⊆ w'.uuids := by
  cases o with
  | sql c s =>
    simp only [exec] at h
    split_ifs at h
    · simp only [Option.some.injEq, Prod.mk.injEq] at h
      rw [← h.2]
      exact ⟨rfl, List.Subset.refl _⟩
    · cases c with
      | pool =>
        obtain ⟨a, _, h⟩ := Option.map_eq_some_iff.mp h
        simp only [Prod.mk.injEq] at h
        rw [← h.2]
        exact ⟨rfl, List.Subset.refl _⟩
      | trx =>
        obtain ⟨a, _, h⟩ := Option.map_eq_some_iff.mp h
        split at h <;> simp only [Prod.mk.injEq] at h <;> rw [← h.2] <;>
          exact ⟨rfl, List.Subset.refl _⟩
  | commit =>
    simp only [exec] at h
    split_ifs at h
    · simp only [Option.some.injEq, Prod.mk.injEq] at h
      rw [← h.2]
      exact ⟨rfl, List.Subset.refl _⟩
    · split at h <;> simp only [Option.some.injEq, Prod.mk.injEq] at h <;> rw [← h.2] <;>
        exact ⟨rfl, List.Subset.refl _⟩
  | randomUUID =>
    simp only [exec] at h
    split_ifs at h
    simp only [Option.some.injEq, Prod.mk.injEq] at h
    rw [← h.2]
    exact ⟨rfl, List.subset_cons_self _ _⟩
  | rollback | now | emit m | getBranch b | getCustomerAddress a | getBranchProducts b ps
  | createSession i | random36 | fetchRefund ps =>
    simp only [exec, Option.some.injEq, Prod.mk.injEq] at h
    rw [← h.2]
    exact ⟨rfl, List.Subset.refl _⟩
  | start | reserveStock b is k | undoReserveStock b is k | cache c =>
    simp only [exec] at h
    split_ifs at h <;> simp only [Option.some.injEq, Prod.mk.injEq] at h <;> rw [← h.2] <;>
      exact ⟨rfl, List.Subset.refl _⟩

theorem TurnInv.keep (h : TurnInv w) (hx : exec p o e w = some (r, w'))
    (horders : w'.store.db.orders = w.store.db.orders) : TurnInv w' := by
  obtain ⟨hclock, huuids⟩ := exec_clock hx
  refine ⟨exec_locked h.locked hx, ?_⟩
  rw [horders]
  exact h.orders.mono huuids hclock.ge

theorem inTurnSpec_isolated (p : Pid) : Isolated (inTurnSpec p) p where
  sees w w' hr := ⟨.of_eq_store (hr rfl).1, congrFun (hr rfl).2.1 p⟩
  guarantee _ _ _ _ _ _ _ q hqp := fun heq => absurd heq hqp
  quiet o e w r w' ho hi hx := hi.keep hx (by rw [(exec_quiet hx ho).1])

theorem inTurnSpec_admits (p : Pid) : (inTurnSpec p).Admits machine where
  refl q w := fun _ => ⟨rfl, rfl, rfl, Nat.le_refl _⟩
  trans q w w' w'' h h' := fun heq => by
    obtain ⟨hstore, hseen, huuids, hclock⟩ := h heq
    obtain ⟨hstore', hseen', huuids', hclock'⟩ := h' heq
    exact ⟨hstore'.trans hstore, hseen'.trans hseen, huuids'.trans huuids,
      Nat.le_trans hclock hclock'⟩
  ext x w hi := by
    cases x with
    | tick d =>
      have hle : w.clock ≤ w.clock + d := Nat.le_add_right _ _
      exact ⟨⟨hi.locked, hi.orders.mono (List.Subset.refl _) hle⟩, fun q _ => ⟨rfl, rfl, rfl, hle⟩⟩
    | drop key => exact ⟨⟨hi.locked, hi.orders⟩, fun q _ => ⟨rfl, rfl, rfl, Nat.le_refl _⟩⟩

end Spec

section Writing
variable {ok : Pid → Op → Env → World → Prop} {p : Pid} {w : World} {α : Type}

theorem off_orders_kept (p : Pid) (orders : List OrderEntity) :
    KeptBy (fun db _ => db.orders = orders) p Write.OffOrders :=
  fun db _ _ hdb hoff => (orders_applyAll (fun x hx => (hoff x hx).table) db).trans hdb

/-- A program that does not write orders keeps them. -/
theorem wp_offOrders {prog : Svc α} (hc : Within Write.OffOrders prog)
    (hlog : ∀ x ∈ w.log p, x.OffOrders) {P : α → World → Prop}
    (hP : ∀ a v, (∀ x ∈ v.log p, x.OffOrders) → P a v) :
    wp machine ok (inTurnSpec p) p prog (OnOk P) w := by
  induction prog generalizing w with
  | pure a => exact hP a w hlog
  | throw e => trivial
  | op o k ih =>
    intro w₁ hr hi e r w₂ _ hx
    rw [machine_exec] at hx
    have hlog₁ : ∀ x ∈ w₁.log p, x.OffOrders := by
      rw [World.log, (hr rfl).1]
      exact hlog
    have hsame := (inv_exec (off_orders_kept p w₁.store.db.orders) hx hc.1 hlog₁
      ⟨hi.locked, rfl⟩).2
    refine ⟨hi.keep hx hsame, fun q hq heq => absurd heq hq, ih r ?_ (log_exec hx hc.1 hlog₁)⟩
    cases r with
    | error err => exact hc.2.1 err
    | ok a => exact hc.2.2 a trivial

/-- After its transaction a call writes on the pool alone. -/
theorem wp_closed {prog : Svc α}
    (hc : prog.Calls (Op.Pooled Write.OffOrders) (fun _ _ => True) fun _ => True)
    (hclosed : ∀ log, w.store.txn p ≠ .active log) :
    wp machine ok (inTurnSpec p) p prog (OnOk fun _ _ => True) w := by
  induction prog generalizing w with
  | pure a => trivial
  | throw e => trivial
  | op o k ih =>
    intro w₁ hr hi e r w₂ _ hx
    rw [machine_exec] at hx
    have hclosed₁ : ∀ log, w₁.store.txn p ≠ .active log := by
      rw [(hr rfl).1]
      exact hclosed
    have hsame := (pooled_exec (off_orders_kept p w₁.store.db.orders) hc.1 hclosed₁ hx
      ⟨hi.locked, rfl⟩).2
    refine ⟨hi.keep hx hsame, fun q hq heq => absurd heq hq,
      ih r ?_ (inactive_exec hc.1 hclosed₁ hx)⟩
    cases r with
    | error err => exact hc.2.1 err
    | ok a => exact hc.2.2 a trivial

/-- The call has a transaction open, in which it sees the orders of `db`. -/
structure Sees (p : Pid) (db : Db) (w : World) : Prop where
  active : ∃ log, w.store.txn p = .active log
  orders : (w.view p).orders = db.orders
  consistent : OrdersConsistent db.orders w.uuids w.clock

variable {db : Db} {publicId : String}

theorem Sees.order (h : Sees p db w) (publicId : String) :
    (w.view p).order publicId = db.order publicId := by
  rw [Db.order, h.orders]
  rfl

theorem Sees.later {w' : World} (h : Sees p db w) (hr : (inTurnSpec p).rely p w w') :
    Sees p db w' := by
  obtain ⟨hstore, _, huuids, hclock⟩ := hr rfl
  refine ⟨?_, ?_, ?_⟩
  · rw [hstore]
    exact h.active
  · rw [World.view, hstore]
    exact h.orders
  · rw [huuids]
    exact h.consistent.mono (List.Subset.refl _) hclock

/-- What a statement writes, its transaction sees. -/
theorem World.queried_view {q : Sql} {log : List Write} (hlog : w.store.txn p = .active log) :
    (w.queried p q).view p = engine.applyAll (w.inTrx p q).writes (w.view p) := by
  rw [World.view_eq, World.log_of_active (World.queried_txn_of_log hlog), World.view_eq,
    World.log_of_active hlog, World.queried_db, applyAll_append]

theorem Sees.exec {o : Op} {e : Env} {r : Except Err o.Res} {w' : World} (h : Sees p db w)
    (ho : o.Appends Write.OffOrders) (hx : exec p o e w = some (r, w')) : Sees p db w' := by
  obtain ⟨hclock, huuids⟩ := exec_clock hx
  obtain ⟨log, hlog⟩ := h.active
  have hconsistent := h.consistent.mono huuids hclock.ge
  have hsame : w'.store = w.store → Sees p db w' := by
    intro hstore
    refine ⟨⟨log, by rw [hstore]; exact hlog⟩, ?_, hconsistent⟩
    rw [World.view, hstore]
    exact h.orders
  cases o with
  | sql c q =>
    cases c with
    | pool => exact absurd ho id
    | trx =>
      by_cases hf : e.fail = true
      · simp only [OrderService.exec, hf, if_true, Option.some.injEq, Prod.mk.injEq] at hx
        exact hsame (by rw [← hx.2])
      · obtain ⟨_, rfl⟩ := exec_trx hlog (Bool.eq_false_iff.mpr hf) hx
        refine ⟨⟨_, World.queried_txn⟩, ?_, hconsistent⟩
        rw [World.queried_view hlog]
        exact (orders_applyAll (fun x hx => (ho x (Sql.mayWrite_of_mem hx)).table) _).trans h.orders
  | start | commit | rollback => exact absurd ho Bool.false_ne_true
  | _ => exact hsame (exec_outer ho hx).1

/-- A part of the transaction that does not write orders. -/
theorem wp_sees {prog : Svc α}
    (hc : prog.Calls (Op.Appends Write.OffOrders) (fun _ _ => True) fun _ => True)
    (h : Sees p db w) {P : α → World → Prop} (hP : ∀ a v, Sees p db v → P a v) :
    wp machine ok (inTurnSpec p) p prog (OnOk P) w := by
  obtain ⟨log, hlog⟩ := h.active
  apply wp_mono _ (wp_appends (inTurnSpec_isolated p) (fun o ho => ho) hc
    (fun _ _ hr h => h.later hr) (fun o e w r w' ho _ _ hx h => ⟨h.exec ho hx, fun _ _ => trivial⟩)
    hlog h)
  intro r v hr
  cases r with
  | error err => trivial
  | ok a => exact hP a v hr.1

theorem wp_start_sees {P : Unit → World → Prop}
    (hP : ∀ v, Sees p w.store.db v → v.store.db = w.store.db → v.log p = [] →
      v.uuids = w.uuids → P () v) :
    wp machine ok (inTurnSpec p) p startTransaction (OnOk P) w := by
  apply wp_start_ok (inTurnSpec_isolated p)
  intro w₁ hr hi _
  obtain ⟨hstore, _, huuids, _⟩ := hr rfl
  have hlog : World.log { w₁ with store := w₁.store.start p } p = [] :=
    World.log_of_active (World.start_txn w₁ p)
  have hdb : w₁.store.db = w.store.db := by rw [hstore]
  refine hP _ ⟨⟨[], World.start_txn w₁ p⟩, ?_, ?_⟩ hdb hlog huuids
  · rw [World.view_eq, hlog]
    change w₁.store.db.orders = _
    rw [hstore]
  · rw [← hstore]
    exact hi.orders

/-- After the commit no transaction is open. -/
theorem wp_commit_sees (h : Sees p db w) {P : Unit → World → Prop}
    (hP : ∀ v, (∀ log, v.store.txn p ≠ .active log) → P () v) :
    wp machine ok (inTurnSpec p) p commit (OnOk P) w := by
  obtain ⟨log, hlog⟩ := h.active
  apply wp_commit_ok (inTurnSpec_isolated p) hlog
  intro w₁ hr hi hlog₁
  have h₁ := h.later hr
  refine ⟨⟨commit_locked hi.locked (World.commit_eq hlog₁), ?_⟩, hP _ fun l => ?_⟩
  · change OrdersConsistent (w₁.view p).orders w₁.uuids w₁.clock
    rw [h₁.orders]
    exact h₁.consistent
  · simp [World.committed]

theorem wp_find_sees (h : Sees p db w) {P : Option OrderEntity → World → Prop}
    (hP : ∀ v, Sees p db v → P (db.order publicId) v) :
    wp machine ok (inTurnSpec p) p (findOrderByPublicId publicId .trx) (OnOk P) w := by
  obtain ⟨log, hlog⟩ := h.active
  apply wp_trx_ok (inTurnSpec_isolated p) hlog
  intro w₁ e found hr _ hlog₁ _ _ hreply
  have h₁ := h.later hr
  have hfound : found = db.order publicId := by
    rw [← h₁.order]
    exact (Except.ok.inj hreply).symm
  rw [hfound]
  refine hP _ ⟨⟨_, World.queried_txn⟩, ?_, h₁.consistent⟩
  rw [World.queried_view hlog₁]
  exact h₁.orders

theorem orders_apply_congr {db db' : Db} (h : db.orders = db'.orders) (x : Write) :
    (engine.apply x db).orders = (engine.apply x db').orders := by
  cases x with
  | insertOrder row => exact congrArg (· ++ [row]) h
  | setOrderStatus publicId status stamp now => exact congrArg (List.map _) h
  | assignOrder publicId agentId now => exact congrArg (List.map _) h
  | _ => exact h

/-- A statement that writes one row. -/
theorem Sees.writes {q : Sql} {x : Write} (h : Sees p db w) (hwrites : (w.inTrx p q).writes = [x])
    (hx : OrdersConsistent (engine.apply x db).orders w.uuids w.clock) :
    Sees p (engine.apply x db) (w.queried p q) := by
  obtain ⟨log, hlog⟩ := h.active
  refine ⟨⟨_, World.queried_txn⟩, ?_, hx⟩
  rw [World.queried_view hlog, hwrites]
  exact orders_apply_congr h.orders x

/-- The move of an order along a rule, in the transaction. -/
theorem wp_move_sees (h : Sees p db w) {o : OrderEntity} {target : OrderStatus}
    {rule : TransitionRule} (ho : db.order publicId = some o)
    (hrule : transitions o.status target = some rule) (htarget : target ≠ .assigned)
    {P : OrderEntity → World → Prop} (hP : ∀ o' v db', Sees p db' v → P o' v) :
    wp machine ok (inTurnSpec p) p (updateOrderStatus publicId target .trx rule.stamp)
      (OnOk P) w := by
  have hS := inTurnSpec_isolated p
  apply wp_seq
  apply wp_now_ok hS
  intro w₁ hr₁ _
  have h₁ := h.later hr₁
  obtain ⟨log, hlog₁⟩ := h₁.active
  apply wp_seq
  apply wp_trx_ok hS hlog₁
  intro w₂ e row hr₂ _ _ _ _ _
  have h₂ := h₁.later hr₂
  have hwrites : (w₂.inTrx p (.updateOrderStatus publicId target rule.stamp w₁.clock)).writes
      = [.setOrderStatus publicId target rule.stamp w₁.clock] := by
    simp only [World.inTrx, Sql.eval, h₂.order, ho]
    rfl
  apply wp_toEntity
  rintro o' rfl
  refine hP o' _ _ (h₂.writes hwrites ?_)
  exact h₂.consistent.move h₁.consistent.stamped (hr₂ rfl).2.2.2 ho hrule htarget

/-- The same on the pool, where it commits at once. -/
theorem wp_move_pool {o : OrderEntity} {target : OrderStatus} {rule : TransitionRule}
    (ho : w.store.db.order publicId = some o)
    (hrule : transitions o.status target = some rule) (htarget : target ≠ .assigned)
    {P : OrderEntity → World → Prop} (hP : ∀ o' v, v.log p = w.log p → P o' v) :
    wp machine ok (inTurnSpec p) p (updateOrderStatus publicId target .pool rule.stamp)
      (OnOk P) w := by
  have hS := inTurnSpec_isolated p
  apply wp_seq
  apply wp_now_ok hS
  intro w₁ hr₁ hi₁
  apply wp_seq
  apply wp_pool_ok hS
  intro w₂ e hr₂ hi₂ _ _
  obtain ⟨hstore₁, _⟩ := hr₁ rfl
  obtain ⟨hstore₂, _, _, hclock₂⟩ := hr₂ rfl
  have ho₂ : w₂.store.db.order publicId = some o := by
    rw [hstore₂, hstore₁]
    exact ho
  have hpast : ∀ o ∈ w₂.store.db.orders, o.StampedBy w₁.clock := by
    rw [hstore₂]
    exact hi₁.orders.stamped
  have hwrites : (w₂.onPool (.updateOrderStatus publicId target rule.stamp w₁.clock)).writes
      = [.setOrderStatus publicId target rule.stamp w₁.clock] := by
    simp only [World.onPool, Sql.eval, ho₂]
    rfl
  refine ⟨⟨⟨hi₂.locked.log_locked, hi₂.locked.exclusive⟩, ?_⟩, fun row _ => ?_⟩
  · simp only [World.pooled, hwrites, applyAll_cons, applyAll_nil]
    exact hi₂.orders.move hpast hclock₂ ho₂ hrule htarget
  · apply wp_toEntity
    rintro o' rfl
    refine hP o' _ ?_
    change (w₂.store.txn p).log = _
    rw [hstore₂, hstore₁]
    rfl

end Writing

section Pool
variable {ok : Pid → Op → Env → World → Prop} {p : Pid} {w : World}

theorem wp_emptyLog {α : Type} {prog : Svc α} (hc : Within Write.OffOrders prog)
    (hlog : w.log p = []) :
    wp machine ok (inTurnSpec p) p prog (OnOk fun _ _ => True) w := by
  apply wp_offOrders hc
  · rw [hlog]
    exact fun x hx => absurd hx List.not_mem_nil
  · exact fun _ _ _ => trivial

/-- After a rollback the transaction is empty. -/
theorem wp_rollback_then {α : Type} {prog : Svc α} (hc : Within Write.OffOrders prog) :
    wp machine ok (inTurnSpec p) p (do rollback; prog) (OnOk fun _ _ => True) w := by
  apply wp_seq
  apply wp_rollback (inTurnSpec_isolated p)
  intro w₁ _ _ _
  apply wp_emptyLog hc
  simp [World.log, Store.rollback, Txn.log]

/-- The pool's answer to a lookup is the committed order, and changes nothing. -/
theorem wp_lookup {publicId : String} {P : Option OrderEntity → World → Prop}
    (hP : ∀ v, v.store = w.store → P (w.store.db.order publicId) v) :
    wp machine ok (inTurnSpec p) p (findOrderByPublicId publicId .pool) (OnOk P) w := by
  apply wp_pool_ok (inTurnSpec_isolated p)
  intro w₁ e hr hi _ _
  obtain ⟨hstore, _⟩ := hr rfl
  have hsame : (w₁.pooled p (.findOrderByPublicId publicId)).store = w₁.store :=
    World.pooled_store rfl
  refine ⟨⟨by rw [hsame]; exact hi.locked, by rw [hsame]; exact hi.orders⟩, fun a ha => ?_⟩
  have hfound : a = w.store.db.order publicId := by
    rw [← hstore]
    exact (Except.ok.inj ha).symm
  rw [hfound]
  exact hP _ (hsame.trans hstore)

end Pool

end OrderService
