import OrderService.AssignmentSpec
import OrderService.DeliveredSettled
import OrderService.Interleaving.Paced
import OrderService.Interleaving.Verdict

/-! What a call that throws leaves in the database: nothing, unless it fails after its commit. -/
namespace OrderService
open ReadCommitted Interleaving

section Statement

/-- The calls that go on after the commit of their transaction. -/
inductive CommittingCall where
  | deliver (order : OrderEntity) (agentId : Nat) (region : String)
  | claim (publicId : String) (agentId : Nat) (region : String)
  | processWebhook (event : Json) (ctx : WebhookContext) (providerEventId : String)

def CommittingCall.prog (cfg : Config) : CommittingCall → Svc Unit
  | .deliver order agentId region => do
    let _ ← OrderService.deliver cfg order agentId region
    pure ()
  | .claim publicId agentId region => do
    let _ ← OrderService.claim cfg publicId agentId region
    pure ()
  | .processWebhook event ctx providerEventId => receiveWebhook event ctx providerEventId

/-- The commands that the call sends to Redis after its commit. -/
def CommittingCall.followUp : CommittingCall → CacheCmd → Bool
  | .deliver .., .sremBusy .. => true
  | .deliver .., .del (.claim _) => true
  | .claim .., .saddBusy .. => true
  | .claim .., .del (.offer _) => true
  | .processWebhook .., .del (.restaurantOrders ..) => true
  | _, _ => false

/-- Redis carries these commands out. -/
def CommittingCall.FollowUpsSucceed (c : CommittingCall) (_ : Pid) :
    Op → List Ext × Env → World → Prop
  | .cache cmd, e, _ => c.followUp cmd = true → e.2.fail = false
  | _, _, _ => True

instance (c : CommittingCall) (p : Pid) (o : Op) (e : List Ext × Env) (w : World) :
    Decidable (c.FollowUpsSucceed p o e w) := by
  unfold CommittingCall.FollowUpsSucceed
  split <;> infer_instance

/-- The rows of orders, money, sessions and the outbox are the same. -/
structure SameTables (db db' : Db) : Prop where
  orders : db'.orders = db.orders
  transactions : db'.transactions = db.transactions
  balances : db'.restaurantBalances = db.restaurantBalances
  earnings : db'.agentEarnings = db.agentEarnings
  sessions : db'.paymentSessions = db.paymentSessions
  outbox : db'.eventsOutbox = db.eventsOutbox

/-- No transaction that marked a webhook event as processed is committed where the event carries
an error. -/
def ErrorsUncommitted (w w' : World) : Prop :=
  ∀ event ∈ w'.store.db.webhookEvents, event.processError.isSome = true →
    ∀ batch ∈ w'.store.history.drop w.store.history.length, ∀ t,
      .setWebhookEvent event.id t none ∉ batch.2

/-- What the call that started in the world `w` has to leave. -/
def NothingCommitted (w : World) : Outcome Err Unit × World → Prop
  | (.threw _, w') => SameTables w.store.db w'.store.db ∧ ErrorsUncommitted w w'
  | (.returned _, w') => ErrorsUncommitted w w'
  | (.crashed, _) => True

end Statement

section Tables
variable {db db' : Db} {x : Write} {log : List Write}

theorem SameTables.refl (db : Db) : SameTables db db := ⟨rfl, rfl, rfl, rfl, rfl, rfl⟩

theorem SameTables.trans {db'' : Db} (h : SameTables db db') (h' : SameTables db' db'') :
    SameTables db db'' :=
  ⟨h'.orders.trans h.orders, h'.transactions.trans h.transactions, h'.balances.trans h.balances,
    h'.earnings.trans h.earnings, h'.sessions.trans h.sessions, h'.outbox.trans h.outbox⟩

theorem SameTables.symm (h : SameTables db db') : SameTables db' db :=
  ⟨h.orders.symm, h.transactions.symm, h.balances.symm, h.earnings.symm, h.sessions.symm,
    h.outbox.symm⟩

theorem sameTables_webhook (hx : x.table = .webhookEvents) (db : Db) :
    SameTables db (engine.apply x db) := by
  cases x with
  | insertWebhookEvent row => exact ⟨rfl, rfl, rfl, rfl, rfl, rfl⟩
  | setWebhookEvent id t err => exact ⟨rfl, rfl, rfl, rfl, rfl, rfl⟩
  | _ => cases hx

theorem outbox_length_le (log : List Write) (db : Db) :
    db.eventsOutbox.length ≤ (engine.applyAll log db).eventsOutbox.length := by
  induction log generalizing db with
  | nil => exact le_refl _
  | cons x log ih =>
    rw [applyAll_cons]
    refine le_trans ?_ (ih (engine.apply x db))
    cases x with
    | insertOutbox row =>
      have hlength : (engine.apply (.insertOutbox row) db).eventsOutbox.length
          = db.eventsOutbox.length + 1 := List.length_append
      omega
    | _ => exact le_refl _

/-- A log that tells of an event shows in the outbox. -/
theorem not_same_of_outbox {row : OutboxRow} (hrow : .insertOutbox row ∈ log) (db : Db) :
    ¬SameTables db (engine.applyAll log db) := by
  intro hsame
  obtain ⟨before, after, rfl⟩ := List.append_of_mem hrow
  rw [applyAll_append, applyAll_cons] at hsame
  have hbefore := outbox_length_le before db
  have hafter := outbox_length_le after
    (engine.apply (.insertOutbox row) (engine.applyAll before db))
  have hlength : (engine.apply (.insertOutbox row) (engine.applyAll before db)).eventsOutbox.length
      = (engine.applyAll before db).eventsOutbox.length + 1 := List.length_append
  have hequal := congrArg List.length hsame.outbox
  omega

/-- An assignment shows in the row of the order, which was ready. -/
theorem not_same_of_assign {publicId : String} {agentId : Nat} {now : Time} {o : OrderEntity}
    (ho : db.claimableOrder publicId = some o) :
    ¬SameTables db (engine.applyAll [.assignOrder publicId agentId now] db) := by
  intro hsame
  have hfound := List.find?_some ho
  simp only [decide_eq_true_eq] at hfound
  have hready : o.status = .ready := by
    have hclaimable := hfound.2
    simp only [OrderEntity.claimable, Bool.and_eq_true, decide_eq_true_eq] at hclaimable
    exact hclaimable.1
  have hkept : db.orders.map (fun o => if o.publicId = publicId ∧ o.claimable then
      o.assignTo agentId now else o) = db.orders.map id := by
    rw [List.map_id]
    exact hsame.orders
  have hassigned := List.map_inj_left.mp hkept o (List.mem_of_find?_eq_some ho)
  rw [if_pos hfound, id_eq] at hassigned
  have hstatus : (o.assignTo agentId now).status = .assigned := rfl
  rw [hassigned, hready] at hstatus
  cases hstatus

end Tables

section Steps
variable {c : CommittingCall} {p : Pid} {db : Db} {history : List (Pid × List Write)}
  {H H' : List Write → Prop} {G : Write → Prop} {met : Prop} {w : World} {α β : Type}

/-- What has been committed so far. -/
structure Intact (db : Db) (history : List (Pid × List Write)) (w : World) : Prop where
  db : w.store.db = db
  history : w.store.history = history

/-- The same, and `p` has written a log that meets `H` in its open transaction. -/
structure Uncommitted (p : Pid) (H : List Write → Prop) (db : Db) (history : List (Pid × List Write))
    (w : World) : Prop extends Intact db history w where
  txn : ∃ log, w.store.txn p = .active log ∧ H log

/-- A program, judged by the commands that follow the commit. Time passes and keys expire between
its operations. -/
abbrev Followed (c : CommittingCall) (p : Pid) (prog : Svc α) (Q : Prop → Except Err α → World → Prop)
    (met : Prop) (w : World) : Prop :=
  Judged machine.paced (fun _ _ _ _ => True) c.FollowUpsSucceed p prog Q met w

def CommittingCall.spares (c : CommittingCall) : Op → Bool
  | .cache cmd => !c.followUp cmd
  | _ => true

theorem CommittingCall.succeeds_of_spares {o : Op} (ho : c.spares o = true) (e : List Ext × Env)
    (w : World) : c.FollowUpsSucceed p o e w := by
  cases o with
  | cache cmd =>
    intro hfollow
    simp only [CommittingCall.spares, hfollow, Bool.not_true] at ho
    cases ho
  | _ => trivial

theorem moves_store (xs : List Ext) (w : World) : (machine.moves xs w).store = w.store := by
  induction xs generalizing w with
  | nil => rfl
  | cons x xs ih =>
    refine (ih (machine.ext x w)).trans ?_
    cases x <;> rfl

theorem Intact.moved (h : Intact db history w) (xs : List Ext) :
    Intact db history (machine.moves xs w) := by
  have hstore := moves_store xs w
  exact ⟨by rw [hstore]; exact h.db, by rw [hstore]; exact h.history⟩

theorem Uncommitted.moved (h : Uncommitted p H db history w) (xs : List Ext) :
    Uncommitted p H db history (machine.moves xs w) :=
  ⟨h.toIntact.moved xs, by rw [moves_store]; exact h.txn⟩

theorem Intact.quiet {o : Op} {e : Env} {r : Except Err o.Res} {w' : World}
    (h : Intact db history w) (hx : exec p o e w = some (r, w')) (ho : o.commits = false) :
    Intact db history w' := by
  obtain ⟨hdb, hhistory⟩ := exec_quiet hx ho
  exact ⟨hdb.trans h.db, hhistory.trans h.history⟩

/-- Nothing is committed by operations that do not commit. -/
theorem followed_quiet {prog : Svc α}
    (hc : prog.Calls (fun o => o.commits = false ∧ c.spares o = true) (fun _ _ => True) fun _ => True)
    (h : Intact db history w) {Q : Prop → Except Err α → World → Prop}
    (hthrow : ∀ e w', Intact db history w' → Q met (.error e) w')
    (hreturn : ∀ a w', Intact db history w' → Q met (.ok a) w') : Followed c p prog Q met w := by
  refine judged_free (F := Intact db history) hc ?_ h hthrow fun a w' _ => hreturn a w'
  intro o e v r v' ho hv _ hx
  exact ⟨CommittingCall.succeeds_of_spares ho.2 e v, (hv.moved e.1).quiet hx ho.1, fun _ _ => trivial⟩

theorem Uncommitted.appends {o : Op} {e : Env} {r : Except Err o.Res} {w' : World} (ho : o.Appends G)
    (hH : ∀ log ws, H log → (∀ x ∈ ws, G x) → H (log ++ ws)) (h : Uncommitted p H db history w)
    (hx : exec p o e w = some (r, w')) : Uncommitted p H db history w' := by
  obtain ⟨hdb, hhistory, _⟩ := exec_appends ho hx
  refine ⟨⟨hdb.trans h.db, hhistory.trans h.history⟩, ?_⟩
  obtain ⟨log, htxn, hlog⟩ := h.txn
  cases o with
  | sql conn q =>
    cases conn with
    | pool => exact absurd ho id
    | trx =>
      by_cases hfail : e.fail = true
      · simp only [exec, hfail, if_true, Option.some.injEq, Prod.mk.injEq] at hx
        rw [← hx.2]
        exact h.txn
      · obtain ⟨_, rfl⟩ := exec_trx htxn (Bool.eq_false_iff.mpr hfail) hx
        refine ⟨_, World.queried_txn_of_log htxn, hH log _ hlog fun x hxw => ?_⟩
        exact ho x (Sql.mayWrite_of_mem hxw)
  | start | commit | rollback => exact absurd ho Bool.false_ne_true
  | _ =>
    refine ⟨log, ?_, hlog⟩
    rw [(exec_outer ho hx).1]
    exact htxn

/-- A part of the transaction. -/
theorem followed_appends {prog : Svc α}
    (hc : prog.Calls (fun o => o.Appends G ∧ c.spares o = true) (fun _ _ => True) fun _ => True)
    (hH : ∀ log ws, H log → (∀ x ∈ ws, G x) → H (log ++ ws)) (h : Uncommitted p H db history w)
    {Q : Prop → Except Err α → World → Prop}
    (hthrow : ∀ e w', Intact db history w' → Q met (.error e) w')
    (hreturn : ∀ a w', Uncommitted p H db history w' → Q met (.ok a) w') :
    Followed c p prog Q met w := by
  refine judged_free (F := Uncommitted p H db history) hc ?_ h
    (fun e w' hv => hthrow e w' hv.toIntact) fun a w' _ => hreturn a w'
  intro o e v r v' ho hv _ hx
  exact ⟨CommittingCall.succeeds_of_spares ho.2 e v, (hv.moved e.1).appends ho.1 hH hx,
    fun _ _ => trivial⟩

/-- A statement in the transaction, with what it answers and writes. -/
theorem followed_trx {q : Sql} (h : Uncommitted p H db history w)
    {Q : Prop → Except Err q.Res → World → Prop}
    (hthrow : ∀ e w', Intact db history w' → Q met (.error e) w')
    (hreturn : ∀ log seqs clock a w', H log →
      (q.eval seqs clock (engine.applyAll log db)).reply = .ok a →
      Uncommitted p (· = log ++ (q.eval seqs clock (engine.applyAll log db)).writes) db history w' →
      Q met (.ok a) w') : Followed c p (sql .trx q) Q met w := by
  apply judged_unasked fun _ _ => trivial
  intro e r w' _ hx
  replace hx : exec p (.sql .trx q) e.2 (machine.moves e.1 w) = some (r, w') := hx
  have hmoved := h.moved e.1
  have hintact : Intact db history w' := hmoved.toIntact.quiet hx rfl
  by_cases hfail : e.2.fail = true
  · simp only [exec, hfail, if_true, Option.some.injEq, Prod.mk.injEq] at hx
    rw [← hx.1]
    exact hthrow .failed w' hintact
  · obtain ⟨log, htxn, hlog⟩ := hmoved.txn
    obtain ⟨hr, rfl⟩ := exec_trx htxn (Bool.eq_false_iff.mpr hfail) hx
    cases r with
    | error err => exact hthrow err _ hintact
    | ok a =>
      have hview : (machine.moves e.1 w).view p = engine.applyAll log db := by
        rw [World.view_eq, World.log_of_active htxn, hmoved.db]
      rw [World.inTrx, hview] at hr
      refine hreturn log _ _ a _ hlog hr.symm ⟨hintact, _, World.queried_txn_of_log htxn, ?_⟩
      rw [World.inTrx, hview]

/-- A transaction is opened. -/
theorem followed_start (h : Intact db history w) {Q : Prop → Except Err Unit → World → Prop}
    (hthrow : ∀ e w', Intact db history w' → Q met (.error e) w')
    (hreturn : ∀ w', Uncommitted p (· = []) db history w' → Q met (.ok ()) w') :
    Followed c p startTransaction Q met w := by
  apply judged_unasked fun _ _ => trivial
  intro e r w' _ hx
  replace hx : exec p .start e.2 (machine.moves e.1 w) = some (r, w') := hx
  have hmoved := h.moved e.1
  have hintact : Intact db history w' := hmoved.quiet hx rfl
  simp only [exec] at hx
  split_ifs at hx <;> simp only [Option.some.injEq, Prod.mk.injEq] at hx <;> rw [← hx.1]
  · exact hthrow .failed w' hintact
  · refine hreturn w' ⟨hintact, [], ?_, rfl⟩
    rw [← hx.2]
    exact World.start_txn _ p

/-- The commit leaves the log in the tables, or fails. -/
theorem followed_commit (h : Uncommitted p H db history w) {Q : Prop → Except Err Unit → World → Prop}
    (hthrow : ∀ e w', Intact db history w' → Q met (.error e) w')
    (hreturn : ∀ log w', H log →
      Intact (engine.applyAll log db) (history ++ [(p, log)]) w' → Q met (.ok ()) w') :
    Followed c p commit Q met w := by
  apply judged_unasked fun _ _ => trivial
  intro e r w' _ hx
  replace hx : exec p .commit e.2 (machine.moves e.1 w) = some (r, w') := hx
  have hmoved := h.moved e.1
  obtain ⟨log, htxn, hlog⟩ := hmoved.txn
  by_cases hfail : e.2.fail = true
  · simp only [exec, hfail, if_true, Option.some.injEq, Prod.mk.injEq] at hx
    obtain ⟨rfl, rfl⟩ := hx
    exact hthrow .failed _ ⟨hmoved.db, hmoved.history⟩
  · simp only [exec, hfail, Bool.false_eq_true, if_false, Store.commit, htxn, Option.some.injEq,
      Prod.mk.injEq] at hx
    obtain ⟨rfl, rfl⟩ := hx
    refine hreturn log _ hlog ⟨?_, ?_⟩
    · rw [← hmoved.db]
    · rw [← hmoved.history]

/-- A command that follows the commit. -/
theorem followed_followUp {cmd : CacheCmd} (hcmd : c.followUp cmd = true)
    (h : Intact db history w) {Q : Prop → Except Err cmd.Res → World → Prop}
    (hthrow : ∀ e w', Intact db history w' → Q False (.error e) w')
    (hreturn : ∀ a w', Intact db history w' → Q met (.ok a) w') :
    Followed c p (cache cmd) Q met w := by
  apply judged_perform
  intro e r w' _ hx
  replace hx : exec p (.cache cmd) e.2 (machine.moves e.1 w) = some (r, w') := hx
  have hintact : Intact db history w' := (h.moved e.1).quiet hx rfl
  by_cases hfail : e.2.fail = true
  · have hmet : (met ∧ c.FollowUpsSucceed p (.cache cmd) e w) = False := by
      simp [CommittingCall.FollowUpsSucceed, hcmd, hfail]
    simp only [exec, hfail, if_true, Option.some.injEq, Prod.mk.injEq] at hx
    rw [hmet, ← hx.1]
    exact hthrow .failed w' hintact
  · have hmet : (met ∧ c.FollowUpsSucceed p (.cache cmd) e w) = met := by
      simp [CommittingCall.FollowUpsSucceed, hfail]
    simp only [exec, hfail, Bool.false_eq_true, if_false, Option.some.injEq, Prod.mk.injEq]
      at hx
    rw [hmet, ← hx.1]
    exact hreturn _ w' hintact

end Steps

section Verdicts
variable {w₀ w : World} {db : Db} {history since : List (Pid × List Write)} {err : Err}

/-- The verdict on the steps is the verdict on what the call leaves. -/
def Accords (w₀ : World) (met : Prop) : Except Err Unit → World → Prop
  | .ok a, w => met ↔ NothingCommitted w₀ (.returned a, w)
  | .error e, w => met ↔ NothingCommitted w₀ (.threw e, w)

theorem errorsUncommitted_of (hhistory : history = w₀.store.history ++ since)
    (h : Intact db history w) (hsince : ∀ batch ∈ since, ∀ id t,
      .setWebhookEvent id t none ∉ batch.2) : ErrorsUncommitted w₀ w := by
  intro event _ _ batch hbatch t
  rw [h.history, hhistory, List.drop_left] at hbatch
  exact hsince batch hbatch event.id t

theorem accords_kept (hdb : SameTables w₀.store.db db) (hhistory : history = w₀.store.history ++ since)
    (h : Intact db history w) (hsince : ∀ batch ∈ since, ∀ id t,
      .setWebhookEvent id t none ∉ batch.2) : Accords w₀ True (.error err) w := by
  refine iff_of_true trivial ⟨?_, errorsUncommitted_of hhistory h hsince⟩
  rw [h.db]
  exact hdb

/-- Before anything is committed. -/
theorem accords_intact (h : Intact w₀.store.db w₀.store.history w) :
    Accords w₀ True (.error err) w :=
  accords_kept (SameTables.refl _) (List.append_nil _).symm h fun batch hbatch => by cases hbatch

theorem accords_changed (hdb : ¬SameTables w₀.store.db w.store.db) :
    Accords w₀ False (.error err) w := iff_of_false id fun h => hdb h.1

end Verdicts

section Deliveries
variable {c : CommittingCall} {p : Pid} {db : Db} {history : List (Pid × List Write)}
  {met : Prop} {w : World} {α β : Type} {H : List Write → Prop}

/-- The log says nothing of webhook events. -/
def OffWebhooks (log : List Write) : Prop := ∀ x ∈ log, x.table ≠ .webhookEvents

/-- The log tells of an event besides. -/
def Telling (log : List Write) : Prop := OffWebhooks log ∧ ∃ row, .insertOutbox row ∈ log

/-- A step of the transaction that leaves the webhook events alone. -/
def CommittingCall.Writes (c : CommittingCall) (o : Op) : Prop :=
  o.Appends (fun x => x.table ≠ .webhookEvents) ∧ c.spares o = true

theorem OffWebhooks.append {log ws : List Write} (h : OffWebhooks log)
    (hws : ∀ x ∈ ws, x.table ≠ .webhookEvents) : OffWebhooks (log ++ ws) :=
  List.forall_mem_append.mpr ⟨h, hws⟩

theorem Telling.append {log ws : List Write} (h : Telling log)
    (hws : ∀ x ∈ ws, x.table ≠ .webhookEvents) : Telling (log ++ ws) := by
  obtain ⟨row, hrow⟩ := h.2
  exact ⟨h.1.append hws, row, List.mem_append_left ws hrow⟩

theorem Uncommitted.mono {H H' : List Write → Prop} (h : Uncommitted p H db history w)
    (hH : ∀ log, H log → H' log) : Uncommitted p H' db history w := by
  obtain ⟨log, htxn, hlog⟩ := h.txn
  exact ⟨h.toIntact, log, htxn, hH log hlog⟩

theorem CommittingCall.writes_now : c.Writes .now := ⟨rfl, rfl⟩

theorem CommittingCall.writes_trx {q : Sql} (hq : ∀ x, q.MayWrite x → x.table ≠ .webhookEvents) :
    c.Writes (.sql .trx q) := ⟨hq, rfl⟩

theorem writes_updateOrderStatus {publicId : String} {status : OrderStatus} {stamp : Option Stamp} :
    (updateOrderStatus publicId status .trx stamp).Calls c.Writes (fun _ _ => True)
      fun _ => True := by
  apply Prog.calls_do (calls_now CommittingCall.writes_now fun _ => trivial)
  intro now _
  apply Prog.calls_do (Q := fun _ => True)
  · refine calls_sql (CommittingCall.writes_trx fun x hx => ?_) fun _ _ => trivial
    rw [show x = .setOrderStatus publicId status stamp now from hx]
    simp [Write.table]
  · exact fun row _ => calls_toEntity fun _ _ => trivial

/-- The event of a transaction. -/
theorem followed_tells {input : OutboxInput} (h : Uncommitted p OffWebhooks db history w)
    {Q : Prop → Except Err Unit → World → Prop}
    (hthrow : ∀ e w', Intact db history w' → Q met (.error e) w')
    (hreturn : ∀ w', Uncommitted p Telling db history w' → Q met (.ok ()) w') :
    Followed c p (insertOutboxEvent .trx input) Q met w := by
  apply followed_trx h hthrow
  intro log seqs clock a w' hlog _ h'
  refine hreturn w' (h'.mono fun log' hlog' => ?_)
  rw [hlog']
  constructor
  · apply hlog.append
    intro x hx
    obtain ⟨id, clock, rfl⟩ := Sql.mayWrite_of_mem hx
    simp [Write.table]
  · exact ⟨_, List.mem_append_right log (List.mem_singleton_self _)⟩

/-- A step of the transaction, and what follows it. -/
theorem followed_writes {prog : Svc α} {f : α → Svc β}
    (hc : prog.Calls c.Writes (fun _ _ => True) fun _ => True)
    (h : Uncommitted p OffWebhooks db history w) {Q : Prop → Except Err β → World → Prop}
    (hthrow : ∀ e w', Intact db history w' → Q met (.error e) w')
    (hnext : ∀ a w', Uncommitted p OffWebhooks db history w' → Followed c p (f a) Q met w') :
    Followed c p (prog >>= f) Q met w := by
  apply judged_do
  apply followed_appends hc (fun log ws hlog hws => OffWebhooks.append hlog hws) h
  · exact fun e w' h' => hthrow e w' h'
  · exact fun a w' h' => hnext a w' h'

/-- A settlement tells of the delivery at its end. -/
theorem followed_settlement {cfg : Config} {order : OrderEntity} {agentId : Nat}
    (h : Uncommitted p OffWebhooks db history w) {Q : Prop → Except Err Int → World → Prop}
    (hthrow : ∀ e w', Intact db history w' → Q met (.error e) w')
    (hreturn : ∀ a w', Uncommitted p Telling db history w' → Q met (.ok a) w') :
    Followed c p (settleDeliveredOrder cfg order agentId .trx) Q met w := by
  have hsql : ∀ q : Sql, (∀ x, q.MayWrite x → SettlementWrite order agentId (fun _ => True) x) →
      c.Writes (.sql .trx q) := by
    intro q hq
    apply CommittingCall.writes_trx
    intro x hx
    have hwrite := hq x hx
    cases hwrite <;> simp [Write.table]
  have hcredit : ∀ bps, (creditRestaurant order (order.subtotal - bpsOf order.subtotal bps)
      .trx).Calls c.Writes (fun _ _ => True) fun _ => True :=
    fun bps => calls_creditRestaurant hsql trivial
  have hnow : c.Writes .now := CommittingCall.writes_now
  have hbranch : c.Writes (.getBranch order.branchId) := ⟨rfl, rfl⟩
  unfold settleDeliveredOrder
  apply followed_writes (calls_fetchCommissionBps hbranch (fun _ _ => trivial) trivial) h hthrow
  intro bps w₁ h₁
  apply followed_writes (calls_onlyIf (calls_collectCod hsql hnow)) h₁ hthrow
  intro _ w₂ h₂
  apply followed_writes (calls_onlyIf (calls_bookTransfer hsql hnow
    fun id now => .commission bps id now trivial)) h₂ hthrow
  intro _ w₃ h₃
  apply followed_writes (calls_onlyIf (calls_bookTransfer hsql hnow
    fun id now => .serviceFee id now)) h₃ hthrow
  intro _ w₄ h₄
  apply followed_writes (calls_onlyIf (calls_bookTransfer hsql hnow
    fun id now => .deliveryFee id now)) h₄ hthrow
  intro _ w₅ h₅
  apply followed_writes (calls_onlyIf (hcredit bps)) h₅ hthrow
  intro _ w₆ h₆
  apply followed_writes (calls_onlyIf (calls_recordEarning hsql)) h₆ hthrow
  intro _ w₇ h₇
  apply followed_writes (calls_now hnow fun _ => trivial) h₇ hthrow
  intro deliveredAt w₈ h₈
  apply judged_do
  apply followed_tells h₈ (fun e w' h' => hthrow e w' h')
  exact fun w₉ h₉ => hreturn _ w₉ h₉

/-- A rollback, and the error again. -/
theorem followed_rollback {err : Err} (h : Intact db history w)
    {Q : Prop → Except Err α → World → Prop}
    (hthrow : ∀ e w', Intact db history w' → Q met (.error e) w') :
    Followed c p (do
      rollback
      throw err : Svc α) Q met w := by
  apply judged_do
  apply followed_quiet (calls_any ⟨rfl, rfl⟩) h
  · exact fun e w' h' => hthrow e w' h'
  · exact fun _ w' h' => hthrow err w' h'

/-- A socket takes every message. -/
theorem followed_emit {room : Room} {event : SocketEvent} {orderId : String}
    (h : Intact db history w) {Q : Prop → Except Err Unit → World → Prop}
    (hreturn : ∀ w', Intact db history w' → Q met (.ok ()) w') :
    Followed c p (emit room event orderId) Q met w := by
  apply judged_unasked fun _ _ => trivial
  intro e r w' _ hx
  replace hx : exec p (.emit ⟨room, event, orderId⟩) e.2 (machine.moves e.1 w) = some (r, w') := hx
  have hintact : Intact db history w' := (h.moved e.1).quiet hx rfl
  simp only [exec, Option.some.injEq, Prod.mk.injEq] at hx
  rw [← hx.1]
  exact hreturn w' hintact

/-- A delivery throws before its commit, or because a command after it fails, or it returns. -/
theorem followed_delivery {cfg : Config} {order : OrderEntity} {agentId : Nat} {region : String}
    (h : Intact db history w) {Q : Prop → Except Err OrderEntity → World → Prop}
    (hthrow : ∀ e w', Intact db history w' → Q True (.error e) w')
    (hlate : ∀ e log w', Telling log → Intact (engine.applyAll log db) (history ++ [(p, log)]) w' →
      Q False (.error e) w')
    (hreturn : ∀ a log w', Telling log →
      Intact (engine.applyAll log db) (history ++ [(p, log)]) w' → Q True (.ok a) w') :
    Followed (.deliver order agentId region) p (deliver cfg order agentId region) Q True w := by
  unfold deliver
  split_ifs
  · exact hthrow _ w h
  apply judged_do
  apply followed_start h (fun e w' h' => hthrow e w' h')
  intro w₁ h₁
  have hopen : Uncommitted p OffWebhooks db history w₁ := h₁.mono fun log hlog => by
    rw [hlog]
    exact fun x hx => by cases hx
  apply judged_catch
  unfold deliverBody
  apply followed_writes writes_updateOrderStatus hopen
  · exact fun e w' h' => followed_rollback h' hthrow
  intro updated w₂ h₂
  apply judged_do
  apply followed_settlement h₂
  · exact fun e w' h' => followed_rollback h' hthrow
  intro _ w₃ h₃
  apply judged_do
  apply followed_commit h₃
  · exact fun e w' h' => followed_rollback h' hthrow
  intro log w₄ hlog h₄
  -- The commit is done: from here on an error comes of a command that was not carried out.
  apply judged_do
  apply followed_followUp rfl h₄
  · exact fun e w' h' => followed_rollback h' fun e' v hv => hlate e' log v hlog hv
  intro _ w₅ h₅
  apply judged_do
  apply judged_do
  apply followed_emit h₅
  intro w₆ h₆
  apply followed_emit h₆
  intro w₇ h₇
  apply judged_do
  apply followed_followUp rfl h₇
  · exact fun e w' h' => followed_rollback h' fun e' v hv => hlate e' log v hlog hv
  exact fun _ w₈ h₈ => hreturn updated log w₈ hlog h₈

end Deliveries

section Claims
variable {p : Pid} {db : Db} {history : List (Pid × List Write)} {met : Prop} {w : World} {α : Type}
  {publicId : String} {agentId : Nat} {region : String}

/-- The log assigns an order that could be claimed. -/
def Assigning (db : Db) (log : List Write) : Prop :=
  ∃ publicId agentId now o, log = [.assignOrder publicId agentId now] ∧
    db.claimableOrder publicId = some o

theorem calls_claimQuiet {o : Op} (ho : o.commits = false)
    (hspares : (CommittingCall.claim publicId agentId region).spares o = true)
    {R : (o : Op) → o.Res → Prop} : (Prog.perform o : Svc o.Res).Calls (fun o => o.commits = false ∧
      (CommittingCall.claim publicId agentId region).spares o = true) R fun _ => True :=
  calls_any ⟨ho, hspares⟩

/-- The claim key is dropped again, or not: the error stays. -/
theorem followed_release {err : Err} (h : Intact db history w)
    {Q : Prop → Except Err α → World → Prop}
    (hthrow : ∀ e w', Intact db history w' → Q met (.error e) w') :
    Followed (.claim publicId agentId region) p (do
      releaseClaim publicId
      throw err : Svc α) Q met w := by
  apply judged_do
  apply followed_quiet (Prog.calls_discard (calls_claimQuiet rfl rfl) trivial) h
  · exact fun e w' h' => hthrow e w' h'
  · exact fun _ w' h' => hthrow err w' h'

theorem followed_undoClaim {err : Err} (h : Intact db history w)
    {Q : Prop → Except Err α → World → Prop}
    (hthrow : ∀ e w', Intact db history w' → Q met (.error e) w') :
    Followed (.claim publicId agentId region) p (do
      rollback
      releaseClaim publicId
      throw err : Svc α) Q met w := by
  apply judged_do
  apply followed_quiet (calls_claimQuiet rfl rfl) h
  · exact fun e w' h' => hthrow e w' h'
  · exact fun _ w' h' => followed_release h' hthrow

/-- The transaction of a claim. -/
theorem followed_takeOrder (h : Uncommitted p (· = []) db history w)
    {Q : Prop → Except Err OrderEntity → World → Prop}
    (hthrow : ∀ e w', Intact db history w' → Q True (.error e) w')
    (hreturn : ∀ a log w', Assigning db log →
      Intact (engine.applyAll log db) (history ++ [(p, log)]) w' → Q True (.ok a) w') :
    Followed (.claim publicId agentId region) p (takeOrder publicId agentId) Q True w := by
  unfold takeOrder claimReadyOrderForAgent
  apply judged_do
  apply judged_do
  apply followed_appends (G := fun _ => False) (calls_now ⟨rfl, rfl⟩ fun _ => trivial) ?_ h
  · exact fun e w' h' => hthrow e w' h'
  · intro assignedAt w₁ h₁
    apply followed_trx h₁
    · exact fun e w' h' => hthrow e w' h'
    intro log seqs clock claimed w₂ hlog hreply h₂
    rw [hlog, applyAll_nil] at hreply h₂
    cases claimed with
    | none => exact followed_release h₂.toIntact hthrow
    | some updated =>
      obtain ⟨hwrites, o, ho⟩ := claimReady_reply hreply
      rw [hwrites, List.nil_append] at h₂
      apply judged_do
      apply followed_commit h₂
      · exact fun e w' h' => hthrow e w' h'
      exact fun log w₃ hlog' h₃ => hreturn updated log w₃ ⟨_, _, _, o, hlog', ho⟩ h₃
  · intro log ws hlog hws
    rw [hlog, List.eq_nil_iff_forall_not_mem.mpr hws]
    rfl

theorem followed_claimTransaction (h : Uncommitted p (· = []) db history w)
    {Q : Prop → Except Err OrderEntity → World → Prop}
    (hthrow : ∀ e w', Intact db history w' → Q True (.error e) w')
    (hreturn : ∀ a log w', Assigning db log →
      Intact (engine.applyAll log db) (history ++ [(p, log)]) w' → Q True (.ok a) w') :
    Followed (.claim publicId agentId region) p (releasingOnError publicId do
      let order ← findOrderByPublicId publicId .trx
      match order with
      | none =>
        releaseClaim publicId
        throw (.app orderNotInReadyStateError)
      | some _ => takeOrder publicId agentId) Q True w := by
  unfold releasingOnError
  apply judged_catch
  apply judged_do
  apply followed_trx h
  · exact fun e w' h' => followed_undoClaim h' hthrow
  intro log seqs clock order w₁ hlog hreply h₁
  have hopen : Uncommitted p (· = []) db history w₁ := h₁.mono fun log' hlog' => by
    rw [hlog', hlog]
    rfl
  cases order with
  | none => exact followed_release h₁.toIntact fun e w' h' => followed_undoClaim h' hthrow
  | some o =>
    apply followed_takeOrder hopen
    · exact fun e w' h' => followed_undoClaim h' hthrow
    · exact fun a log' w' hlog' h' => hreturn a log' w' hlog' h'

theorem followed_announceTask {updated : OrderEntity} {losers : List Nat}
    (h : Intact db history w) {c : CommittingCall} {Q : Prop → Except Err Unit → World → Prop}
    (hreturn : ∀ w', Intact db history w' → Q met (.ok ()) w') :
    Followed c p (announceTask updated agentId losers) Q met w := by
  unfold announceTask
  apply judged_do
  apply followed_emit h
  intro w₁ h₁
  have hlosers : ∀ {w₂}, Intact db history w₂ → Followed c p
      (losers.forM fun loser => emit (.agent loser) .offerCancelled updated.publicId)
      (fun met' r w' => met' = met ∧ r = .ok () ∧ Intact db history w') met w₂ := by
    intro w₂ h₂
    induction losers generalizing w₂ with
    | nil => exact ⟨rfl, rfl, h₂⟩
    | cons loser losers ih =>
      apply judged_do
      apply followed_emit h₂
      exact fun w₃ h₃ => ih h₃
  apply judged_do
  refine (hlosers h₁).mono ?_
  rintro met' r w₂ ⟨rfl, rfl, h₂⟩
  apply judged_do
  apply followed_emit h₂
  intro w₃ h₃
  apply followed_emit h₃
  exact fun w₄ h₄ => hreturn w₄ h₄

/-- Without an answer of core there is no branch. -/
theorem followed_branchOrNull {branchId : Nat} (h : Intact db history w) {c : CommittingCall}
    {Q : Prop → Except Err (Option Branch) → World → Prop}
    (hreturn : ∀ a w', Intact db history w' → Q met (.ok a) w') :
    Followed c p (branchOrNull branchId) Q met w := by
  unfold branchOrNull
  apply judged_catch
  apply judged_do
  apply followed_quiet (calls_any ⟨rfl, rfl⟩) h
  · exact fun e w' h' => hreturn none w' h'
  · exact fun branch w' h' => hreturn (some branch) w' h'

theorem followed_claim {cfg : Config} (h : Intact db history w)
    {Q : Prop → Except Err DeliveryTaskResponse → World → Prop}
    (hthrow : ∀ e w', Intact db history w' → Q True (.error e) w')
    (hlate : ∀ e log w', Assigning db log →
      Intact (engine.applyAll log db) (history ++ [(p, log)]) w' → Q False (.error e) w')
    (hreturn : ∀ a log w', Assigning db log →
      Intact (engine.applyAll log db) (history ++ [(p, log)]) w' → Q True (.ok a) w') :
    Followed (.claim publicId agentId region) p (claim cfg publicId agentId region) Q True w := by
  unfold claim
  apply judged_do
  apply followed_quiet (calls_claimQuiet rfl rfl) h
  · exact fun e w' h' => hthrow e w' h'
  intro offered w₁ h₁
  cases offered with
  | none => exact hthrow _ w₁ h₁
  | some value =>
    dsimp only
    split_ifs with hoffered
    swap
    · exact hthrow _ w₁ h₁
    apply judged_do
    apply followed_quiet (calls_claimQuiet rfl rfl) h₁
    · exact fun e w' h' => hthrow e w' h'
    intro ok w₂ h₂
    dsimp only
    split_ifs
    · exact hthrow _ w₂ h₂
    apply judged_do
    apply followed_start h₂ (fun e w' h' => hthrow e w' h')
    intro w₃ h₃
    apply judged_do
    apply followed_claimTransaction h₃ (fun e w' h' => hthrow e w' h')
    intro updated log w₄ hlog h₄
    unfold afterAssignment
    apply judged_do
    apply followed_followUp rfl h₄
    · exact fun e w' h' => hlate e log w' hlog h'
    intro _ w₅ h₅
    apply judged_do
    apply followed_branchOrNull h₅
    intro branch w₆ h₆
    apply judged_do
    apply followed_announceTask h₆
    intro w₇ h₇
    apply judged_do
    apply followed_followUp rfl h₇
    · exact fun e w' h' => hlate e log w' hlog h'
    exact fun _ w₈ h₈ => hreturn _ log w₈ hlog h₈

end Claims

section Webhooks
variable {c : CommittingCall} {p : Pid} {db : Db} {history : List (Pid × List Write)} {met : Prop}
  {w w₀ : World} {event : Json} {ctx : WebhookContext} {id : Nat}

/-- A statement on the pool that is not rejected. -/
theorem followed_pool {q : Sql} (h : Intact db history w)
    (hq : ∀ seqs clock, ∃ a, (q.eval seqs clock db).reply = .ok a)
    {Q : Prop → Except Err q.Res → World → Prop}
    (hthrow : ∀ e w', Intact db history w' → Q met (.error e) w')
    (hreturn : ∀ seqs clock answer a w', q.eval seqs clock db = answer → answer.reply = .ok a →
      Intact (engine.applyAll answer.writes db)
        (if answer.writes.isEmpty then history else history ++ [(p, answer.writes)]) w' →
      Q met (.ok a) w') :
    Followed c p (sql .pool q) Q met w := by
  apply judged_unasked fun _ _ => trivial
  intro e r w' _ hx
  replace hx : exec p (.sql .pool q) e.2 (machine.moves e.1 w) = some (r, w') := hx
  have hmoved := h.moved e.1
  by_cases hfail : e.2.fail = true
  · simp only [exec, hfail, if_true, Option.some.injEq, Prod.mk.injEq] at hx
    rw [← hx.1, ← hx.2]
    exact hthrow .failed _ hmoved
  · obtain ⟨hr, rfl, _⟩ := exec_pool (Bool.eq_false_iff.mpr hfail) hx
    obtain ⟨a, ha⟩ := hq (machine.moves e.1 w).seqs (machine.moves e.1 w).clock
    rw [World.onPool, hmoved.db, ha] at hr
    rw [hr]
    refine hreturn _ _ _ a _ rfl ha ⟨?_, ?_⟩
    · rw [World.pooled, World.onPool, hmoved.db]
    · rw [World.pooled, World.onPool, hmoved.db, hmoved.history]

theorem followed_insertWebhookEvent {data : WebhookEventData} (h : Intact db history w)
    {Q : Prop → Except Err (Option PaymentWebhookEventEntity) → World → Prop}
    (hthrow : ∀ e w', Intact db history w' → Q met (.error e) w')
    (hknown : ∀ w', Intact db history w' → Q met (.ok none) w')
    (hnew : ∀ row w', Intact (engine.apply (.insertWebhookEvent row) db)
      (history ++ [(p, [.insertWebhookEvent row])]) w' → Q met (.ok (some row)) w') :
    Followed c p (insertWebhookEvent data .pool) Q met w := by
  unfold insertWebhookEvent
  apply judged_do
  apply followed_quiet (calls_any ⟨rfl, rfl⟩) h
  · exact fun e w' h' => hthrow e w' h'
  intro receivedAt w₁ h₁
  apply followed_pool h₁
  · intro seqs clock
    simp only [Sql.eval]
    split_ifs <;> exact ⟨_, rfl⟩
  · exact fun e w' h' => hthrow e w' h'
  intro seqs clock answer inserted w₂ heval hreply h₂
  simp only [Sql.eval] at heval
  by_cases htaken : (db.webhookEvents.any fun e => e.providerId = data.providerId &&
      e.providerEventId = data.providerEventId) = true
  · rw [if_pos htaken] at heval
    subst heval
    obtain rfl := Except.ok.inj hreply
    exact hknown w₂ h₂
  · rw [if_neg htaken] at heval
    subst heval
    obtain rfl := Except.ok.inj hreply
    exact hnew _ w₂ h₂

/-- After an error the transaction is rolled back and the error recorded, if that works. -/
theorem followed_recordError {err : Err} (h : Intact db history w)
    {Q : Prop → Except Err Unit → World → Prop}
    (hthrow : ∀ e w' db' since, SameTables db db' →
      (∀ batch ∈ since, ∀ id t, .setWebhookEvent id t none ∉ batch.2) →
      Intact db' (history ++ since) w' → Q met (.error e) w') :
    Followed c p (do
      rollback
      let processedAt ← now
      updateWebhookEventStatus id (some processedAt) (some err.message) .pool
      throw err : Svc Unit) Q met w := by
  have hlost : ∀ e w', Intact db history w' → Q met (.error e) w' := by
    intro e w' h'
    refine hthrow e w' db [] (SameTables.refl db) (fun batch hbatch => by cases hbatch) ?_
    rw [List.append_nil]
    exact h'
  apply judged_do
  apply followed_quiet (calls_any ⟨rfl, rfl⟩) h
  · exact fun e w' h' => hlost e w' h'
  intro _ w₁ h₁
  apply judged_do
  apply followed_quiet (calls_any ⟨rfl, rfl⟩) h₁
  · exact fun e w' h' => hlost e w' h'
  intro processedAt w₂ h₂
  apply judged_do
  apply followed_pool h₂ fun _ _ => ⟨(), rfl⟩
  · exact fun e w' h' => hlost e w' h'
  rintro seqs clock answer _ w₃ rfl _ h₃
  refine hthrow err w₃ _ [(p, [.setWebhookEvent id (some processedAt) (some err.message)])] ?_ ?_ h₃
  · exact sameTables_webhook rfl db
  · intro batch hbatch id' t hmem
    rw [List.mem_singleton.mp hbatch] at hmem
    cases List.mem_singleton.mp hmem

theorem writes_findReferencedOrder {reference : Option Json} :
    (findReferencedOrder reference .trx).Calls c.Writes (fun _ _ => True) fun _ => True := by
  unfold findReferencedOrder
  split
  · exact calls_sql (CommittingCall.writes_trx fun x hx => absurd hx id) fun _ _ => trivial
  · trivial
  · trivial

theorem writes_updateSession {sessionId : Nat} {status : PaymentSessionStatus} :
    (updatePaymentSessionStatus sessionId status .trx).Calls c.Writes (fun _ _ => True)
      fun _ => True := by
  refine calls_updateSession CommittingCall.writes_now fun now =>
    CommittingCall.writes_trx fun x hx => ?_
  rw [show x = .setSessionStatus sessionId status now from hx]
  simp [Write.table]

theorem writes_recordCharge {order : OrderEntity} {session : PaymentSessionEntity}
    {status : TransactionStatus} {dstAccId : Nat} :
    (recordCharge ctx order session status dstAccId).Calls c.Writes (fun _ _ => True)
      fun _ => True := by
  refine calls_recordCharge CommittingCall.writes_now
    (CommittingCall.writes_trx fun x hx => absurd hx id) fun now => CommittingCall.writes_trx ?_
  rintro x ⟨id, rfl⟩
  simp [Write.table]

theorem writes_placePaidOrder {order : OrderEntity} :
    (placePaidOrder order).Calls c.Writes (fun _ _ => True) fun _ => True := by
  unfold placePaidOrder
  split_ifs
  · apply Prog.calls_do writes_updateOrderStatus
    intro placed _
    apply Prog.calls_do (Q := fun _ => True)
    · exact calls_sql (CommittingCall.writes_trx fun x hx => absurd hx id) fun _ _ => trivial
    intro items _
    refine Prog.calls_discard (calls_sql (CommittingCall.writes_trx ?_) fun _ _ => trivial) trivial
    rintro x ⟨id, clock, rfl⟩
    simp [Write.table]
  · trivial

/-- What the transaction has written when there is something to announce. -/
def Announcing (broadcast : Option (OrderEntity × Nat)) (log : List Write) : Prop :=
  OffWebhooks log ∧ (broadcast.isSome = true → ∃ row, .insertOutbox row ∈ log)

theorem Telling.announcing {log : List Write} (h : Telling log)
    (broadcast : Option (OrderEntity × Nat)) : Announcing broadcast log := ⟨h.1, fun _ => h.2⟩

theorem followed_applyEvent {order : OrderEntity} {session : PaymentSessionEntity}
    (h : Uncommitted p OffWebhooks db history w)
    {Q : Prop → Except Err (Option (OrderEntity × Nat)) → World → Prop}
    (hthrow : ∀ e w', Intact db history w' → Q met (.error e) w')
    (hreturn : ∀ broadcast w', Uncommitted p (Announcing broadcast) db history w' →
      Q met (.ok broadcast) w') :
    Followed c p (applyEvent event ctx order session) Q met w := by
  unfold applyEvent
  split_ifs
  · unfold applySuccess
    apply followed_writes writes_updateSession h hthrow
    intro _ w₁ h₁
    apply followed_writes (calls_fetchRestaurantOwner ⟨rfl, rfl⟩) h₁ hthrow
    intro owner w₂ h₂
    apply followed_writes writes_recordCharge h₂ hthrow
    intro _ w₃ h₃
    apply followed_writes (calls_now CommittingCall.writes_now fun _ => trivial) h₃ hthrow
    intro completedAt w₄ h₄
    apply judged_do
    apply followed_tells h₄
    · exact fun e w' h' => hthrow e w' h'
    intro w₅ h₅
    apply followed_appends writes_placePaidOrder (fun log ws hlog hws => Telling.append hlog hws) h₅
      hthrow
    exact fun broadcast w₆ h₆ => hreturn broadcast w₆ (h₆.mono fun log hlog => hlog.announcing _)
  · unfold applyFailure
    apply followed_writes writes_updateSession h hthrow
    intro _ w₁ h₁
    apply followed_writes writes_recordCharge h₁ hthrow
    intro _ w₂ h₂
    apply followed_writes (calls_now CommittingCall.writes_now fun _ => trivial) h₂ hthrow
    intro failedAt w₃ h₃
    apply judged_do
    apply followed_tells h₃
    · exact fun e w' h' => hthrow e w' h'
    exact fun w₄ h₄ => hreturn none w₄ (h₄.mono fun log hlog => hlog.announcing _)
  · exact hreturn none w (h.mono fun log hlog => ⟨hlog, fun hnone => by cases hnone⟩)

/-- The committed log: that of the event, and the mark on it. -/
def Marking (id : Nat) (log : List Write) : Prop :=
  ∃ log' t, OffWebhooks log' ∧ log = log' ++ [.setWebhookEvent id (some t) none]

/-- The processing throws before its commit, or because the cached list of the restaurant cannot be
dropped, or it returns. -/
theorem followed_processing {providerEventId : String} (h : Uncommitted p (· = []) db history w)
    {Q : Prop → Except Err Unit → World → Prop}
    (hthrow : ∀ e w', Intact db history w' → Q True (.error e) w')
    (hlate : ∀ e log w', (∃ row, .insertOutbox row ∈ log) →
      Intact (engine.applyAll log db) (history ++ [(p, log)]) w' → Q False (.error e) w')
    (hreturn : ∀ log w', Marking id log →
      Intact (engine.applyAll log db) (history ++ [(p, log)]) w' → Q True (.ok ()) w') :
    Followed (.processWebhook event ctx providerEventId) p (processWebhook event ctx id) Q True
      w := by
  have hopen : Uncommitted p OffWebhooks db history w := h.mono fun log hlog => by
    rw [hlog]
    exact fun x hx => by cases hx
  unfold processWebhook
  apply followed_writes writes_findReferencedOrder hopen hthrow
  intro found w₁ h₁
  cases found with
  | none => exact hthrow _ w₁ h₁.toIntact
  | some order =>
    have hfind : ∀ x, (Sql.findPaymentSessionByOrderId order.id).MayWrite x →
        x.table ≠ .webhookEvents := fun x hx => False.elim hx
    apply followed_writes (calls_sql (CommittingCall.writes_trx hfind) fun _ _ => trivial) h₁ hthrow
    intro session w₂ h₂
    cases session with
    | none => exact hthrow _ w₂ h₂.toIntact
    | some session =>
      apply judged_do
      apply followed_applyEvent h₂
      · exact fun e w' h' => hthrow e w' h'
      intro broadcast w₃ h₃
      apply judged_do
      apply followed_appends (calls_now CommittingCall.writes_now fun _ => trivial)
        (fun log ws hlog hws => ?_) h₃
      · exact fun e w' h' => hthrow e w' h'
      · intro processedAt w₄ h₄
        apply judged_do
        apply followed_trx h₄
        · exact fun e w' h' => hthrow e w' h'
        intro log seqs clock _ w₅ hlog _ h₅
        apply judged_do
        apply followed_commit h₅
        · exact fun e w' h' => hthrow e w' h'
        intro log' w₆ hlog' h₆
        have hmark : Marking id log' := ⟨log, processedAt, hlog.1, hlog'⟩
        unfold announcePlaced
        cases broadcast with
        | none => exact hreturn log' w₆ hmark h₆
        | some placed =>
          obtain ⟨row, hrow⟩ := hlog.2 rfl
          have htold : ∃ row, .insertOutbox row ∈ log' :=
            ⟨row, by rw [hlog']; exact List.mem_append_left _ hrow⟩
          apply judged_do
          apply followed_followUp rfl h₆
          · exact fun e w' h' => hlate e log' w' htold h'
          intro _ w₇ h₇
          apply judged_do
          apply followed_emit h₇
          intro w₈ h₈
          apply followed_emit h₈
          exact fun w₉ h₉ => hreturn log' w₉ hmark h₉
      · refine ⟨hlog.1.append hws, fun hsome => ?_⟩
        obtain ⟨row, hrow⟩ := hlog.2 hsome
        exact ⟨row, List.mem_append_left ws hrow⟩

end Webhooks

section Result
variable {p : Pid} {w₀ : World}

theorem accords_delivery {cfg : Config} {order : OrderEntity} {agentId : Nat} {region : String} :
    Followed (.deliver order agentId region) p
      (CommittingCall.prog cfg (.deliver order agentId region)) (Accords w₀) True w₀ := by
  unfold CommittingCall.prog
  apply judged_do
  apply followed_delivery ⟨rfl, rfl⟩
  · exact fun e w' h => accords_intact h
  · intro e log w' hlog h
    apply accords_changed
    rw [h.db]
    exact not_same_of_outbox hlog.2.choose_spec w₀.store.db
  · intro a log w' hlog h
    refine iff_of_true trivial (errorsUncommitted_of rfl h fun batch hbatch id t hmem => ?_)
    rw [List.mem_singleton.mp hbatch] at hmem
    exact hlog.1 _ hmem rfl

theorem accords_claim {cfg : Config} {publicId : String} {agentId : Nat} {region : String} :
    Followed (.claim publicId agentId region) p
      (CommittingCall.prog cfg (.claim publicId agentId region)) (Accords w₀) True w₀ := by
  unfold CommittingCall.prog
  apply judged_do
  apply followed_claim ⟨rfl, rfl⟩
  · exact fun e w' h => accords_intact h
  · rintro e log w' ⟨publicId, agentId, now, o, rfl, ho⟩ h
    apply accords_changed
    rw [h.db]
    exact not_same_of_assign ho
  · rintro a log w' ⟨publicId, agentId, now, o, rfl, ho⟩ h
    refine iff_of_true trivial (errorsUncommitted_of rfl h fun batch hbatch id t hmem => ?_)
    rw [List.mem_singleton.mp hbatch] at hmem
    cases List.mem_singleton.mp hmem

/-- A commit that marks an event leaves no error on it. -/
theorem errorsUncommitted_marking {db : Db} {inserted : List (Pid × List Write)} {w : World}
    {id : Nat} {log : List Write}
    (hinserted : ∀ batch ∈ inserted, ∀ id t, .setWebhookEvent id t none ∉ batch.2)
    (hlog : Marking id log) (h : Intact (engine.applyAll log db)
      ((w₀.store.history ++ inserted) ++ [(p, log)]) w) : ErrorsUncommitted w₀ w := by
  obtain ⟨log', processedAt, hoff, rfl⟩ := hlog
  intro event hevent herror batch hbatch t hmem
  rw [h.history, List.append_assoc, List.drop_left] at hbatch
  rcases List.mem_append.mp hbatch with hbatch | hbatch
  · exact hinserted batch hbatch event.id t hmem
  rw [List.mem_singleton.mp hbatch] at hmem
  rcases List.mem_append.mp hmem with hmem | hmem
  · exact hoff _ hmem rfl
  have hid : event.id = id := by
    have hequal := List.mem_singleton.mp hmem
    simp only [Write.setWebhookEvent.injEq] at hequal
    exact hequal.1
  -- The mark has cleared the error of every row with this id.
  rw [h.db, applyAll_append, applyAll_cons, applyAll_nil] at hevent
  obtain ⟨row, _, hrow⟩ := List.mem_map.mp hevent
  have hcleared : event.processError = none := by
    rw [← hrow] at hid ⊢
    split_ifs at hid ⊢ with hsame
    · rfl
    · exact absurd hid hsame
  rw [hcleared] at herror
  cases herror

theorem accords_webhook {cfg : Config} {event : Json} {ctx : WebhookContext}
    {providerEventId : String} :
    Followed (.processWebhook event ctx providerEventId) p
      (CommittingCall.prog cfg (.processWebhook event ctx providerEventId)) (Accords w₀) True
      w₀ := by
  unfold CommittingCall.prog receiveWebhook
  apply judged_do
  have hintact : Intact w₀.store.db w₀.store.history w₀ := ⟨rfl, rfl⟩
  apply followed_insertWebhookEvent hintact
  · exact fun e w' h => accords_intact h
  · exact fun w' h => iff_of_true trivial (errorsUncommitted_of (List.append_nil _).symm h
      fun batch hbatch => by cases hbatch)
  intro row w₁ h₁
  have hsame := sameTables_webhook (x := .insertWebhookEvent row) rfl w₀.store.db
  have hunmarked : ∀ batch ∈ [(p, [Write.insertWebhookEvent row])], ∀ id t,
      .setWebhookEvent id t none ∉ batch.2 := by
    intro batch hbatch id t hmem
    rw [List.mem_singleton.mp hbatch] at hmem
    cases List.mem_singleton.mp hmem
  apply judged_do
  apply followed_start h₁
  · exact fun e w' h => accords_kept hsame rfl h hunmarked
  intro w₂ h₂
  apply judged_catch
  apply followed_processing h₂
  · intro e w' h
    apply followed_recordError h
    intro e' w'' db' since hsame' hsince h'
    rw [List.append_assoc] at h'
    exact accords_kept (hsame.trans hsame') rfl h'
      (List.forall_mem_append.mpr ⟨hunmarked, hsince⟩)
  · rintro e log w' ⟨event, hevent⟩ h
    apply followed_recordError h
    intro e' w'' db' since hsame' _ h'
    apply accords_changed
    rw [h'.db]
    intro hsame''
    exact not_same_of_outbox hevent _ ((hsame.symm.trans hsame'').trans hsame'.symm)
  · exact fun log w' hlog h => iff_of_true trivial (errorsUncommitted_marking hunmarked hlog h)

/-- A call that throws has committed nothing, and the events with an error were not processed, if
and only if the process dies before it ends or Redis carries out every command that follows the
commit. -/
theorem thrown_commits_nothing (cfg : Config) (c : CommittingCall) (w : World) (p : Pid)
    (es : List (List Ext × Env)) :
    NothingCommitted w (machine.paced.runAlone p (c.prog cfg) es w) ↔
      (machine.paced.runAlone p (c.prog cfg) es w).1 = .crashed ∨
        RunMeets machine.paced c.FollowUpsSucceed (fun _ => True) p (c.prog cfg) es w := by
  have hjudged : Followed c p (c.prog cfg) (Accords w) True w := by
    cases c with
    | deliver order agentId region => exact accords_delivery
    | claim publicId agentId region => exact accords_claim
    | processWebhook event ctx providerEventId => exact accords_webhook
  have hsound := judged_sound hjudged (runMeets_true (c.prog cfg) es w)
  cases hrun : machine.paced.runAlone p (c.prog cfg) es w with
  | mk outcome w' =>
    rw [hrun] at hsound
    cases outcome with
    | returned a =>
      rw [true_and] at hsound
      exact hsound.symm.trans (or_iff_right (by simp)).symm
    | threw e =>
      rw [true_and] at hsound
      exact hsound.symm.trans (or_iff_right (by simp)).symm
    | crashed => exact iff_of_true trivial (.inl rfl)

/-- All answers are good but the one after `n` of them. -/
def failsAfter (n : Nat) : List (List Ext × Env) :=
  List.replicate n ([], tenPercent) ++ [([], { tenPercent with fail := true })]
    ++ List.replicate 2 ([], tenPercent)

/-- The agent cannot be marked as free: the agent is told of an error, and the order is delivered
and settled. -/
theorem thrown_delivery_committed :
    let run := machine.paced.runAlone 0 (CommittingCall.prog sampleConfig
      (.deliver (OrderEntity.sample "order-1" .picked) 7 "eg")) (failsAfter 20) pickedOrder
    (run.1 matches .threw _) = true ∧
      run.2.store.db.orders.map OrderEntity.status = [.delivered] ∧
      run.2.store.db.restaurantBalances.map RestaurantBalanceEntity.balance = [9100] ∧
      run.2.store.db.eventsOutbox.length = 1 ∧ ¬NothingCommitted pickedOrder run := by
  intro run
  have hthrew : (run.1 matches .threw _) = true := by decide +kernel
  have htold : run.2.store.db.eventsOutbox.length = 1 := by decide +kernel
  refine ⟨hthrew, by decide +kernel, by decide +kernel, htold, fun hnothing => ?_⟩
  obtain ⟨outcome, w'⟩ := run
  cases outcome with
  | threw e =>
    have hsame : w'.store.db.eventsOutbox = [] := hnothing.1.outbox
    rw [hsame] at htold
    cases htold
  | returned a => cases hthrew
  | crashed => cases hthrew

end Result

end OrderService
