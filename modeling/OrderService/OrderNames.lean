import OrderService.CallEffects
import OrderService.Interleaving.Tickets
import OrderService.LifecycleInTurn
import OrderService.UniqueKeys

/-! The public ids of the orders: each is drawn by one placement, which inserts one order under it,
so in no interleaving two orders have the same. -/
namespace OrderService
open ReadCommitted Interleaving

section Index
variable {V : Type} {U : UniqueIndex engine V} {v : V} {p : Pid} {w w' : World}

/-- The value is committed or about to be. -/
def Entered (U : UniqueIndex engine V) (v : V) (s : Store Pid Db Write Key) : Prop :=
  v ∈ U.values s.db ∨ ∃ p, v ∈ U.pending s p

theorem entered_of_fewer {s s' : Store Pid Db Write Key} (hdb : s'.db = s.db)
    (hlog : ∀ q, (s'.txn q).log = (s.txn q).log ∨ (s'.txn q).log = []) (h : Entered U v s') :
    Entered U v s := by
  rcases h with h | ⟨q, h⟩
  · exact .inl (hdb ▸ h)
  · rcases hlog q with hq | hq <;> rw [UniqueIndex.pending, hq] at h
    · exact .inr ⟨q, h⟩
    · cases h

/-- What is entered after an operation was entered before, or is in a write of its statement. -/
theorem entered_exec {o : Op} {e : Env} {r : Except Err o.Res} (hx : exec p o e w = some (r, w'))
    (h : Entered U v w'.store) :
    Entered U v w.store ∨ ∃ c q x, o = .sql c q ∧ q.MayWrite x ∧ v ∈ U.entries x := by
  have hsame : ∀ {s : Store Pid Db Write Key}, w'.store = s → Entered U v s := fun hs => hs ▸ h
  have hrolled : Entered U v (w.store.rollback p) → Entered U v w.store :=
    entered_of_fewer rfl fun q => UniqueIndex.log_update w.store p q rfl
  have hs := exec_store hx
  cases o with
  | sql c q =>
    have hwritten : ∀ db, v ∈ (q.eval w.seqs w.clock db).writes.flatMap U.entries →
        ∃ c' q' x, Op.sql c q = .sql c' q' ∧ q'.MayWrite x ∧ v ∈ U.entries x := by
      intro db hmem
      obtain ⟨x, hxw, hv⟩ := List.mem_flatMap.mp hmem
      exact ⟨c, q, x, rfl, Sql.mayWrite_of_mem hxw, hv⟩
    rcases exec_sql_cases hx with rfl | ⟨_, rfl⟩ | ⟨_, rfl, log, hlog⟩
    · exact .inl h
    · rcases h with h | h
      · have hvalues : v ∈ U.values w.store.db ++ (w.onPool q).writes.flatMap U.entries := by
          rw [← UniqueIndex.values_applyAll]
          exact h
        rcases List.mem_append.mp hvalues with h | h
        · exact .inl (.inl h)
        · exact .inr (hwritten _ h)
      · exact .inl (.inr h)
    · rcases h with h | ⟨q', h⟩
      · exact .inl (.inl h)
      · by_cases hq' : q' = p
        · subst hq'
          have hpending : v ∈ U.pending w.store q' ++ (w.inTrx q' q).writes.flatMap U.entries := by
            rw [UniqueIndex.pending, World.queried_txn] at h
            rw [UniqueIndex.pending, ← List.flatMap_append]
            exact h
          rcases List.mem_append.mp hpending with h | h
          · exact .inl (.inr ⟨q', h⟩)
          · exact .inr (hwritten _ h)
        · have htxn : (w.queried p q).store.txn q' = w.store.txn q' :=
            Function.update_of_ne hq' _ _
          rw [UniqueIndex.pending, htxn] at h
          exact .inl (.inr ⟨q', h⟩)
  | start =>
    rcases hs with hs | hs
    · exact .inl (hsame hs)
    · have hstarted : Entered U v (w.store.start p) → Entered U v w.store :=
        entered_of_fewer rfl fun q => UniqueIndex.log_update w.store p q rfl
      exact .inl (hstarted (hsame hs))
  | commit =>
    rcases hs with hs | hs | hs
    · exact .inl (hrolled (hsame hs))
    · exact .inl (hsame hs)
    · obtain ⟨log, hlog, hs⟩ := commit_cases hs
      rcases hsame hs with h | ⟨q, h⟩
      · have hvalues : v ∈ U.values w.store.db ++ log.flatMap U.entries := by
          rw [← UniqueIndex.values_applyAll]
          exact h
        rcases List.mem_append.mp hvalues with h | h
        · exact .inl (.inl h)
        · refine .inl (.inr ⟨p, ?_⟩)
          rw [UniqueIndex.pending, hlog]
          exact h
      · rcases UniqueIndex.log_update w.store p q (t := .closed) rfl with hq | hq <;>
          rw [UniqueIndex.pending, hq] at h
        · exact .inl (.inr ⟨q, h⟩)
        · cases h
  | rollback =>
    have hs : w'.store = w.store.rollback p := hs
    exact .inl (hrolled (hsame hs))
  | _ => exact .inl (hsame hs)

end Index

section Names

/-- The public id of an order that the write inserts. -/
def Write.orderNames : Write → List String
  | .insertOrder row => [row.publicId]
  | _ => []

def nameIndex : UniqueIndex engine String where
  values db := db.orders.map OrderEntity.publicId
  entries := Write.orderNames
  values_apply x db := by
    have hkept : x.KeepsOrders → (engine.apply x db).orders.map OrderEntity.publicId
        = db.orders.map OrderEntity.publicId ++ [] := fun hx =>
      (map_orders_apply withStatus_publicId (fun _ _ _ => rfl) hx db).trans
        (List.append_nil _).symm
    cases x with
    | insertOrder row => exact List.map_append
    | _ => exact hkept trivial
  key := .order
  locked x v hv := by
    cases x with
    | insertOrder row =>
      have hname : v = row.publicId := List.mem_singleton.mp hv
      rw [hname]
      rfl
    | _ => cases hv

/-- A placement draws the public id of its order, and spends it with the insert. -/
def naming : Ticketing Op Op.Res String where
  spends
    | .sql _ q, name => ∃ row, q.MayWrite (.insertOrder row) ∧ row.publicId = name
    | _, _ => False
  draws
    | .randomUUID, name => some name
    | _, _ => none

/-- The name was drawn, and no order has it or is about to. -/
def NameFree (name : String) (w : World) : Prop :=
  name ∈ w.uuids ∧ ¬Entered nameIndex name w.store

/-- No two orders have the same name, and every name was drawn. -/
structure NamesApart (w : World) : Prop where
  locked : Locked engine w.store
  unique : nameIndex.Unique w.store
  drawn : ∀ name, Entered nameIndex name w.store → name ∈ w.uuids

variable {p : Pid} {o : Op} {e : Env} {w w' : World} {r : Except Err o.Res}

theorem spends_of_entries {c : Conn} {q : Sql} {x : Write} {name : String} (hx : q.MayWrite x)
    (hname : name ∈ nameIndex.entries x) : naming.spends (.sql c q) name := by
  cases x with
  | insertOrder row => exact ⟨row, hx, (List.mem_singleton.mp hname).symm⟩
  | _ => cases hname

/-- A statement inserts one order at most. -/
theorem names_nodup (seqs : Seqs) (clock : Time) (q : Sql) (db : Db) :
    ((q.eval seqs clock db).writes.flatMap nameIndex.entries).Nodup := by
  by_cases hq : ∃ data now, q = .createOrder data now
  · obtain ⟨data, now, rfl⟩ := hq
    simp only [Sql.eval]
    split
    · exact List.nodup_nil
    · exact List.nodup_singleton _
  · have hnone : (q.eval seqs clock db).writes.flatMap nameIndex.entries = [] := by
      rw [List.flatMap_eq_nil_iff]
      intro x hx
      cases x with
      | insertOrder row => exact absurd (createOrder_of_mayWrite (Sql.mayWrite_of_mem hx)) hq
      | _ => rfl
    rw [hnone]
    exact List.nodup_nil

/-- A name that is free is not in what any statement sees. -/
theorem NameFree.unseen {name : String} (h : NameFree name w) (c : Conn) :
    name ∉ nameIndex.values (w.tables p c) := by
  intro hmem
  cases c with
  | pool => exact h.2 (.inl hmem)
  | trx =>
    have hview : name ∈ nameIndex.values w.store.db ++ nameIndex.pending w.store p := by
      rw [← UniqueIndex.values_view]
      exact hmem
    rcases List.mem_append.mp hview with hmem | hmem
    · exact h.2 (.inl hmem)
    · exact h.2 (.inr ⟨p, hmem⟩)

theorem namesApart_exec (h : NamesApart w) (hfree : ∀ name, naming.spends o name → NameFree name w)
    (hx : exec p o e w = some (r, w')) : NamesApart w' where
  locked := exec_locked h.locked hx
  unique := by
    refine unique_exec (fun c q hq => ⟨names_nodup _ _ _ _, fun name hname => ?_⟩) h.locked
      h.unique hx
    subst hq
    obtain ⟨x, hxw, hentry⟩ := List.mem_flatMap.mp hname
    exact (hfree name (spends_of_entries (Sql.mayWrite_of_mem hxw) hentry)).unseen c
  drawn name hname := by
    apply (exec_clock hx).2
    rcases entered_exec hx hname with hold | ⟨c, q, x, rfl, hmay, hentry⟩
    · exact h.drawn name hold
    · exact (hfree name (spends_of_entries hmay hentry)).1

theorem nameFree_exec {name : String} (hspend : ¬naming.spends o name) (h : NameFree name w)
    (hx : exec p o e w = some (r, w')) : NameFree name w' := by
  refine ⟨(exec_clock hx).2 h.1, fun hname => ?_⟩
  rcases entered_exec hx hname with hold | ⟨c, q, x, rfl, hmay, hentry⟩
  · exact h.2 hold
  · exact hspend (spends_of_entries hmay hentry)

theorem namesApart_of_fewer (h : NamesApart w) (hl : Locked engine w'.store)
    (hdb : w'.store.db = w.store.db) (hlog : ∀ q, (w'.store.txn q).log = (w.store.txn q).log ∨
      (w'.store.txn q).log = []) (huuids : w'.uuids = w.uuids) : NamesApart w' :=
  ⟨hl, h.unique.of_fewer hdb hlog, fun name hname => huuids ▸
    h.drawn name (entered_of_fewer hdb hlog hname)⟩

theorem nameFree_of_fewer {name : String} (h : NameFree name w) (hdb : w'.store.db = w.store.db)
    (hlog : ∀ q, (w'.store.txn q).log = (w.store.txn q).log ∨ (w'.store.txn q).log = [])
    (huuids : w'.uuids = w.uuids) : NameFree name w' :=
  ⟨huuids ▸ h.1, fun hname => h.2 (entered_of_fewer hdb hlog hname)⟩

theorem naming_fits : naming.Fits machine NamesApart NameFree where
  keeps _ _ _ _ _ _ h hfree hx := namesApart_exec h hfree hx
  others _ _ _ _ _ _ _ hspend h hx := nameFree_exec hspend h hx
  drawn p o e w a w' name h hx hdraw := by
    cases o with
    | randomUUID =>
      rw [machine_exec] at hx
      simp only [exec] at hx
      split_ifs at hx with hdrawn
      simp only [Option.some.injEq, Prod.mk.injEq, Except.ok.injEq] at hx
      obtain ⟨rfl, rfl⟩ := hx
      obtain rfl := Option.some.inj hdraw
      exact ⟨fun hfree => hdrawn hfree.1, List.mem_cons_self,
        fun hname => hdrawn (h.drawn _ hname)⟩
    | _ => cases hdraw
  crash p w := by
    have hlog := fun q => UniqueIndex.log_update w.store p q (t := .closed) rfl
    exact ⟨fun h => namesApart_of_fewer h (rollback_locked h.locked) rfl hlog rfl,
      fun name h => nameFree_of_fewer h rfl hlog rfl⟩
  ext x w := by
    cases x with
    | tick d => exact ⟨fun h => ⟨h.locked, h.unique, h.drawn⟩, fun name h => h⟩
    | drop key => exact ⟨fun h => ⟨h.locked, h.unique, h.drawn⟩, fun name h => h⟩

end Names

section Calls
variable {hmacSha256 : String → String → String} {cfg : Config}

theorem idle_of_within {α : Type} {H : Write → Prop} (hH : ∀ row, ¬H (.insertOrder row))
    {prog : Svc α} (h : Within H prog) :
    prog.Calls naming.Idle (fun _ _ => True) fun _ => True := by
  apply h.weaken
  intro o ho name hspend
  cases o with
  | sql c q =>
    obtain ⟨row, hrow, _⟩ := hspend
    exact hH row (ho _ hrow)
  | _ => exact hspend

/-- An operation that is no statement and draws no name. -/
theorem holds_unnamed {α : Type} {ticket : Option String} {o : Op} {f : o.Res → Svc α}
    (ho : naming.Idle o) (hdraw : o ≠ .randomUUID) (hf : ∀ a, naming.Holds ticket (f a)) :
    naming.Holds ticket (Prog.perform o >>= f) := by
  have hnone : ∀ a, naming.draws o a = none := by
    intro a
    cases o with
    | randomUUID => exact absurd rfl hdraw
    | _ => rfl
  exact Ticketing.holds_do (R := fun _ _ => True) (Q := fun _ => True)
    (Prog.calls_perform ⟨ho, hnone⟩ fun _ _ => trivial) (fun _ _ => trivial) fun a _ => hf a

/-- What follows the draw spends the name with the insert alone. -/
theorem holds_insertOrder {data : OrderData} {lines : Nat → List OrderItemData} {name : String}
    (hname : data.publicId = name) : naming.Holds (some name) (insertOrder data lines) := by
  have hno : ∀ row, ¬Write.KeepsOrders (.insertOrder row) := fun row h => h
  refine Ticketing.holds_then ?_ fun order => idle_of_within hno ?_
  · refine holds_unnamed (fun _ h => h) nofun fun now => Ticketing.holds_spend ?_
    rintro other ⟨row, ⟨id, ownerId, _, hrow⟩, rfl⟩
    cases hrow
    exact congrArg some hname.symm
  · refine within_do (within_do within_now fun now => within_sql ?_) fun items => ?_
    · rintro x ⟨row, rfl⟩
      trivial
    refine within_do (calls_onlyIf (within_insertOutboxEvent fun _ _ => trivial)) fun _ => ?_
    exact within_do (within_any trivial) fun _ => trivial

theorem holds_submitOrder {actor : ActorContext} {resolvedRegion : String} {branch : Branch}
    {address : CoreCustomerAddress} {products : List CoreBranchProduct}
    {dto : CreateOrderRequest} :
    naming.Holds none (submitOrder cfg actor resolvedRegion branch address products dto) := by
  have hno : ∀ row, ¬Write.KeepsOrders (.insertOrder row) := fun row h => h
  refine Ticketing.holds_draw (fun name hspend => hspend) fun publicId => ?_
  change naming.Holds (some publicId) _
  refine holds_unnamed (fun _ h => h) nofun fun _ => ?_
  refine holds_unnamed (fun _ h => h) nofun fun _ => ?_
  refine Ticketing.holds_then (Ticketing.holds_catch (holds_insertOrder rfl) fun err => ?_)
    fun placed => ?_
  · refine idle_of_within hno ?_
    refine within_do (within_any trivial) fun _ => within_do within_undoStock fun _ => trivial
  · refine idle_of_within hno ?_
    refine within_do ?_ fun payment => ?_
    · unfold paymentData
      split_ifs
      · exact within_do (within_openPayment cfg (fun _ => trivial) fun _ _ _ => trivial)
          fun _ => trivial
      · trivial
    refine within_do (within_any trivial) fun _ => ?_
    exact within_do (calls_onlyIf (within_any trivial)) fun _ => trivial

theorem holds_placeOrder {actor : ActorContext} {region : Option String}
    {dto : CreateOrderRequest} : naming.Holds none (placeOrder cfg actor region dto) := by
  refine holds_unnamed (fun _ h => h) nofun fun branch => ?_
  split_ifs
  · trivial
  refine holds_unnamed (fun _ h => h) nofun fun flag => ?_
  split_ifs
  · trivial
  refine Ticketing.holds_do (R := fun _ _ => True) (Q := fun _ => True)
    (Prog.calls_ofExcept fun _ _ => trivial) (fun _ _ => trivial) fun resolvedRegion _ => ?_
  split_ifs
  · trivial
  refine holds_unnamed (fun _ h => h) nofun fun address => ?_
  split_ifs
  · trivial
  refine holds_unnamed (fun _ h => h) nofun fun products => ?_
  split_ifs
  · trivial
  · exact holds_submitOrder
  · trivial

theorem holds_call (c : Call) : naming.Holds none (c.prog hmacSha256 cfg) := by
  have hother : (∀ row, ¬c.MayWrite (.insertOrder row)) →
      naming.Holds none (c.prog hmacSha256 cfg) := fun hno =>
    Ticketing.holds_of_calls (idle_of_within hno (within_mayWrite hmacSha256 cfg c)) none
  cases c with
  | placeOrder actor region dto =>
    exact Ticketing.holds_then holds_placeOrder fun _ => trivial
  | agentUpdateStatus publicId agentId region action =>
    refine hother fun row hrow => ?_
    cases action with
    | picked =>
      obtain ⟨_, _, _, hrow⟩ := hrow
      cases hrow
    | delivered =>
      rcases hrow with ⟨_, _, _, hrow⟩ | ⟨order, hrow⟩ <;> cases hrow
    | _ => exact hrow
  | claim | adminAssign =>
    refine hother fun row hrow => ?_
    obtain ⟨_, hrow⟩ := hrow
    cases hrow
  | _ => exact hother fun row hrow => hrow

/-- In every interleaving of any calls, no two orders get the same public id. -/
theorem namesApart_reaches {w : World} (hw : w.AtRest)
    (hnames : (w.store.db.orders.map OrderEntity.publicId).Nodup)
    (hdrawn : ∀ o ∈ w.store.db.orders, o.publicId ∈ w.uuids) (calls : Pid → Option Call)
    {ok : Pid → Op → Env → World → Prop} {t : Sys Pid Op Op.Res Err World Reply}
    (ht : machine.Reaches ok (running hmacSha256 cfg calls w) t) : NamesApart t.world := by
  have hpending : ∀ p, nameIndex.pending w.store p = [] := fun p =>
    UniqueIndex.pending_of_log (w := []) (by rw [hw.txn p]; rfl)
  have hunique : nameIndex.Unique w.store := by
    refine ⟨hnames, fun p => ?_⟩
    rw [hpending p, List.append_nil]
    exact hnames
  have hentered : ∀ name, Entered nameIndex name w.store → name ∈ w.uuids := by
    rintro name (hname | ⟨p, hname⟩)
    · obtain ⟨o, ho, rfl⟩ := List.mem_map.mp hname
      exact hdrawn o ho
    · rw [hpending] at hname
      cases hname
  refine Ticketing.keeps_of_holding naming_fits (fun p prog hprog => ?_)
    ⟨hw.locked, hunique, hentered⟩ ht
  obtain ⟨c, _, rfl⟩ := Option.map_eq_some_iff.mp hprog
  exact holds_call c

end Calls

end OrderService
