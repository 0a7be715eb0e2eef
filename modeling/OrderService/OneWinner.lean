import OrderService.AssignmentSpec
import OrderService.Calls
import OrderService.SettlementEffects

/-! An order is assigned by one call at most, whatever runs at the same time and whatever Redis
forgets. -/
namespace OrderService
open ReadCommitted Interleaving

section Assignments

/-- The agent in the row of an order, where there is a row. -/
def Db.agentOf (db : Db) (publicId : String) : Option (Option Nat) :=
  (db.order publicId).map OrderEntity.deliveryAgentId

/-- The agent to whom a write assigns the order. -/
def Write.assigns (publicId : String) : Write → Option Nat
  | .assignOrder other agentId _ => if other = publicId then some agentId else none
  | _ => none

/-- The committed assignments of an order: the call and the agent of each. -/
def assignments (publicId : String) (history : List (Pid × List Write)) : List (Pid × Nat) :=
  history.flatMap fun b => (b.2.filterMap (Write.assigns publicId)).map fun agentId => (b.1, agentId)

/-- The writes that neither assign an order nor create one. -/
def Write.Unassigning : Write → Prop
  | .assignOrder .. => False
  | .insertOrder _ => False
  | _ => True

theorem mem_assignments {publicId : String} {history : List (Pid × List Write)} {p : Pid}
    {agentId : Nat} :
    (p, agentId) ∈ assignments publicId history ↔
      ∃ b ∈ history, b.1 = p ∧ ∃ x ∈ b.2, x.assigns publicId = some agentId := by
  simp [assignments]

theorem assignments_append (publicId : String) (history : List (Pid × List Write))
    (b : Pid × List Write) :
    assignments publicId (history ++ [b])
      = assignments publicId history
        ++ (b.2.filterMap (Write.assigns publicId)).map fun agentId => (b.1, agentId) := by
  simp [assignments]

theorem Write.assigns_eq_none {x : Write} (hx : x.Unassigning) (publicId : String) :
    x.assigns publicId = none := by
  cases x <;> first | rfl | exact absurd hx id

theorem assignments_unassigning {publicId : String} {history : List (Pid × List Write)} {p : Pid}
    {log : List Write} (hlog : ∀ x ∈ log, x.Unassigning) :
    assignments publicId (history ++ [(p, log)]) = assignments publicId history := by
  have hnone : log.filterMap (Write.assigns publicId) = [] :=
    List.filterMap_eq_nil_iff.mpr fun x hx => Write.assigns_eq_none (hlog x hx) publicId
  rw [assignments_append, hnone, List.map_nil, List.append_nil]

end Assignments

section Rows
variable {db : Db} {publicId : String}

theorem agentOf_apply {x : Write} (hx : x.Unassigning) :
    (engine.apply x db).agentOf publicId = db.agentOf publicId := by
  cases x with
  | insertOrder row => exact absurd hx id
  | assignOrder other agentId now => exact absurd hx id
  | setOrderStatus other status stamp now =>
    by_cases hother : other = publicId
    · subst hother
      rw [Db.agentOf, order_setOrderStatus, Option.map_map, Db.agentOf]
      congr 1
      funext o
      exact withStatus_deliveryAgentId o status stamp now
    · exact congrArg (Option.map OrderEntity.deliveryAgentId)
        (order_setOrderStatus_other hother status stamp now db)
  | _ => rfl

theorem agentOf_applyAll {log : List Write} (hlog : ∀ x ∈ log, x.Unassigning) :
    (engine.applyAll log db).agentOf publicId = db.agentOf publicId := by
  induction log generalizing db with
  | nil => rfl
  | cons x log ih =>
    rw [applyAll_cons, ih fun y hy => hlog y (List.mem_cons_of_mem x hy)]
    exact agentOf_apply (hlog x List.mem_cons_self)

/-- The values of `orders.public_id`. They are random UUIDs; the index on them is a plain one. -/
def Db.publicIds (db : Db) : List String := db.orders.map OrderEntity.publicId

theorem Write.Unassigning.keepsOrders {x : Write} (hx : x.Unassigning) : x.KeepsOrders := by
  cases x <;> trivial

theorem publicIds_assignOrder (agentId : Nat) (now : Time) :
    (engine.apply (.assignOrder publicId agentId now) db).publicIds = db.publicIds := by
  have hkeeps : (Write.assignOrder publicId agentId now).KeepsOrders := trivial
  exact map_orders_apply withStatus_publicId assignTo_publicId hkeeps db

theorem publicIds_applyAll {log : List Write} (hlog : ∀ x ∈ log, x.Unassigning) :
    (engine.applyAll log db).publicIds = db.publicIds :=
  map_orders_applyAll withStatus_publicId assignTo_publicId (fun x hx => (hlog x hx).keepsOrders) db

/-- Where the public ids are distinct, a row is what its public id finds. -/
theorem order_of_mem (hunique : db.publicIds.Nodup) {o : OrderEntity} (ho : o ∈ db.orders) :
    db.order o.publicId = some o := by
  cases hfind : db.order o.publicId with
  | none =>
    have hno := List.find?_eq_none.mp hfind o ho
    exact absurd (decide_eq_true rfl) hno
  | some a =>
    have ha : a.publicId = o.publicId := by simpa using List.find?_some hfind
    rw [List.inj_on_of_nodup_map hunique (List.mem_of_find?_eq_some hfind) ho ha]

/-- Where they are, the row that the guarded update finds is the row of the order. -/
theorem order_of_claimable (hunique : db.publicIds.Nodup) {o : OrderEntity}
    (h : db.claimableOrder publicId = some o) :
    db.order publicId = some o ∧ o.claimable = true := by
  have htest := List.find?_some h
  simp only [decide_eq_true_eq] at htest
  refine ⟨?_, htest.2⟩
  rw [← htest.1]
  exact order_of_mem hunique (List.mem_of_find?_eq_some h)

end Rows

section Invariant

/-- The order and the agent of a call that assigns one. -/
def Call.assigning : Call → Option (String × Nat)
  | .claim publicId agentId _ => some (publicId, agentId)
  | .adminAssign publicId agentId _ => some (publicId, agentId)
  | _ => none

/-- What a call may commit. -/
def Call.Commits (c : Call) (log : List Write) : Prop :=
  match c.assigning with
  | some (publicId, agentId) => ∃ now, log = [.assignOrder publicId agentId now]
  | none => ∀ x ∈ log, x.Unassigning

/-- Between the tables before the run and the committed ones now, an order was not assigned, or
it was free and is the agent's of the one assignment. -/
structure Assigned (calls : Pid → Option Call) (before db : Db)
    (history : List (Pid × List Write)) : Prop where
  unique : db.publicIds.Nodup
  commits : ∀ b ∈ history, ∃ c, calls b.1 = some c ∧ c.Commits b.2
  agents : ∀ publicId,
    (assignments publicId history = [] ∧ db.agentOf publicId = before.agentOf publicId) ∨
    ∃ p agentId, assignments publicId history = [(p, agentId)] ∧
      before.agentOf publicId = some none ∧ db.agentOf publicId = some (some agentId)

variable {calls : Pid → Option Call} {before db : Db} {history : List (Pid × List Write)}
  {p : Pid} {c : Call}

theorem assigned_keptBy (hc : calls p = some c) (hno : c.assigning = none) :
    KeptBy (Assigned calls before) p Write.Unassigning := by
  intro db history log h hlog
  refine ⟨?_, fun b hb => ?_, fun publicId => ?_⟩
  · rw [publicIds_applyAll hlog]
    exact h.unique
  · rcases List.mem_append.mp hb with hb | hb
    · exact h.commits b hb
    · rw [List.mem_singleton.mp hb]
      exact ⟨c, hc, by simpa only [Call.Commits, hno] using hlog⟩
  · rw [assignments_unassigning hlog, agentOf_applyAll hlog]
    exact h.agents publicId

/-- A guarded update commits only on an order that nobody has. -/
theorem Assigned.assign (h : Assigned calls before db history) (hc : calls p = some c)
    {publicId : String} {agentId : Nat} (hassign : c.assigning = some (publicId, agentId))
    {o : OrderEntity} (ho : db.order publicId = some o) (hfree : o.claimable = true) (now : Time) :
    Assigned calls before (engine.applyAll [.assignOrder publicId agentId now] db)
      (history ++ [(p, [.assignOrder publicId agentId now])]) := by
  have hnone : db.agentOf publicId = some none := by
    have hagent : o.deliveryAgentId = none := by
      simp only [OrderEntity.claimable, Bool.and_eq_true] at hfree
      exact Option.isNone_iff_eq_none.mp hfree.2
    rw [Db.agentOf, ho, Option.map_some, hagent]
  refine ⟨?_, fun b hb => ?_, fun other => ?_⟩
  · rw [applyAll_cons, applyAll_nil, publicIds_assignOrder]
    exact h.unique
  · rcases List.mem_append.mp hb with hb | hb
    · exact h.commits b hb
    · rw [List.mem_singleton.mp hb]
      exact ⟨c, hc, by simp only [Call.Commits, hassign]; exact ⟨now, rfl⟩⟩
  · rw [assignments_append, applyAll_cons, applyAll_nil]
    by_cases hother : publicId = other
    · subst hother
      have hagent : (engine.apply (.assignOrder publicId agentId now) db).agentOf publicId
          = some (some agentId) := by
        rw [Db.agentOf, order_assignOrder, ho, Option.map_some, if_pos hfree]
        rfl
      rcases h.agents publicId with ⟨hempty, hsame⟩ | ⟨q, b, _, _, htaken⟩
      · refine .inr ⟨p, agentId, ?_, hsame.symm.trans hnone, hagent⟩
        simp [hempty, Write.assigns]
      · rw [hnone] at htaken
        cases htaken
    · have hsame : (engine.apply (.assignOrder publicId agentId now) db).agentOf other
          = db.agentOf other :=
        congrArg (Option.map OrderEntity.deliveryAgentId)
          (order_assignOrder_other hother agentId now db)
      rw [hsame]
      simpa [Write.assigns, hother] using h.agents other

theorem assigned_keptByAssign (hc : calls p = some c) {publicId : String} {agentId : Nat}
    (hassign : c.assigning = some (publicId, agentId)) :
    KeptByAssign (Assigned calls before) p publicId agentId := by
  intro db history o now h hfind
  obtain ⟨horder, hfree⟩ := order_of_claimable h.unique hfind
  exact h.assign hc hassign horder hfree now

end Invariant

section Runs
variable {calls : Pid → Option Call} {before : Db} {p : Pid} {c : Call}

theorem calls_updateStatus {H : Write → Prop} {R : (o : Op) → o.Res → Prop}
    (hstatus : ∀ publicId status stamp now, H (.setOrderStatus publicId status stamp now))
    (hevent : ∀ row, H (.insertOutbox row)) (actor : ActorContext)
    (dto : UpdateOrderStatusRequest) (region orderId : String) :
    (updateStatus actor dto region orderId).Calls (Op.Harmless H) R fun _ => True := by
  apply Prog.calls_do (calls_sql (fun x hx => absurd hx id) fun _ _ => trivial)
  intro found _
  cases found with
  | none => trivial
  | some order =>
    apply Prog.calls_do (Prog.calls_ofExcept fun _ _ => trivial)
    intro statusActor _
    dsimp only
    rw [assertTransition_eq]
    apply Prog.calls_do (Prog.calls_ofExcept fun _ _ => trivial)
    intro stamp _
    apply Prog.calls_do (calls_any trivial)
    intro _ _
    apply Prog.calls_do (Q := fun _ => True)
    · apply Prog.calls_catch
      · apply Prog.calls_do (calls_updateOrderStatus (fun _ => True) hstatus
          fun _ _ _ _ _ => trivial)
        intro updated _
        apply Prog.calls_do (Q := fun _ => True)
        · unfold emitTransition
          split
          · trivial
          · refine calls_sql ?_ fun _ _ => trivial
            rintro x ⟨id, clock, rfl⟩
            exact hevent _
        intro _ _
        exact Prog.calls_discard (calls_any trivial) trivial
      · exact fun _ => Prog.calls_do (calls_any trivial) fun _ _ => trivial
    intro updated _
    apply Prog.calls_do (calls_any trivial)
    intro _ _
    apply Prog.calls_do (calls_any trivial)
    intro _ _
    exact Prog.calls_discard (calls_any trivial) trivial

/-- Claims, admin assignments, status updates and what agents report. -/
def Call.handlesOrder : Call → Bool
  | .claim .. => true
  | .adminAssign .. => true
  | .updateStatus .. => true
  | .agentUpdateStatus .. => true
  | _ => false

theorem unassigning_of_settlementWrite {order : OrderEntity} {agentId : Nat} {rate : Int → Prop}
    {x : Write} (h : SettlementWrite order agentId rate x) : x.Unassigning := by
  cases h <;> trivial

variable (hmacSha256 : String → String → String) (cfg : Config)

theorem wp_handlesOrder (hc : calls p = some c) (hkind : c.handlesOrder = true) {w : World}
    (hlog : w.log p = []) :
    wp machine anyOp (sharedSpec (Assigned calls before)) p (c.prog hmacSha256 cfg)
      (OnOk fun _ _ => True) w := by
  have hempty : ∀ x ∈ w.log p, x.Unassigning := by
    intro x hx
    rw [hlog] at hx
    cases hx
  cases c with
  | claim publicId agentId region =>
    apply wp_seq
    apply wp_mono _ (wp_claim (assigned_keptByAssign hc rfl) cfg region)
    intro r w' _
    cases r <;> trivial
  | adminAssign publicId agentId region =>
    apply wp_seq
    apply wp_mono _ (wp_adminAssign (assigned_keptByAssign hc rfl) cfg region)
    intro r w' _
    cases r <;> trivial
  | updateStatus actor dto region orderId =>
    apply wp_seq
    apply wp_mono _ (wp_harmless (R := fun _ _ => True) (calls_updateStatus (fun _ _ _ _ => trivial)
      (fun _ => trivial) actor dto region orderId) (assigned_keptBy hc rfl)
      (fun _ _ _ _ _ _ _ _ _ => trivial) hempty)
    intro r w' _
    cases r <;> trivial
  | agentUpdateStatus publicId agentId region action =>
    apply wp_seq
    apply wp_mono _ (wp_harmless (R := fun _ _ => True) (calls_agentUpdateStatus
      (fun _ => True) (fun _ => True) (fun _ _ _ _ => trivial)
      (fun _ _ _ _ _ _ _ _ _ => trivial) (fun _ _ _ hx => unassigning_of_settlementWrite hx)
      (fun _ _ _ => trivial) trivial cfg publicId region action) (assigned_keptBy hc rfl)
      (fun _ _ _ _ _ _ _ _ _ => trivial) hempty)
    intro r w' _
    cases r <;> trivial
  | _ => cases hkind

/-- What one order's history says of its assignment. -/
structure OneWinner (calls : Pid → Option Call) (publicId : String) (before after : Db)
    (history : List (Pid × List Write)) : Prop where
  atMostOne : (assignments publicId history).length ≤ 1
  winner : ∀ p agentId, (p, agentId) ∈ assignments publicId history →
    (∃ c, calls p = some c ∧ c.assigning = some (publicId, agentId)) ∧
      before.agentOf publicId = some none ∧ after.agentOf publicId = some (some agentId)
  unassigned : assignments publicId history = [] →
    after.agentOf publicId = before.agentOf publicId
  writer : ∀ b ∈ history, (∀ agentId, (b.1, agentId) ∉ assignments publicId history) →
    ∀ db, (engine.applyAll b.2 db).agentOf publicId = db.agentOf publicId
  losers : ∀ p c, calls p = some c → c.assigning.isSome →
    (∀ agentId, (p, agentId) ∉ assignments publicId history) →
    ∀ b ∈ history, b.1 = p → ∀ db, (engine.applyAll b.2 db).order publicId = db.order publicId

theorem Call.Commits.assigns {c : Call} {log : List Write} (h : c.Commits log) {publicId : String}
    {agentId : Nat} {x : Write} (hx : x ∈ log) (hassign : x.assigns publicId = some agentId) :
    c.assigning = some (publicId, agentId) := by
  unfold Call.Commits at h
  cases hc : c.assigning with
  | none =>
    rw [hc] at h
    rw [Write.assigns_eq_none (h x hx)] at hassign
    cases hassign
  | some target =>
    rw [hc] at h
    obtain ⟨now, rfl⟩ := h
    rw [List.mem_singleton.mp hx] at hassign
    simp only [Write.assigns] at hassign
    split_ifs at hassign with htarget
    rw [← htarget, ← Option.some.inj hassign]

/-- A call that assigns, but not this order, writes nothing in its row. -/
theorem order_of_loser {db before : Db} {history : List (Pid × List Write)}
    (h : Assigned calls before db history) {publicId : String} (hc : calls p = some c)
    (hassign : c.assigning.isSome) {b : Pid × List Write} (hb : b ∈ history) (hbp : b.1 = p)
    (hno : ∀ agentId, (p, agentId) ∉ assignments publicId history) (d : Db) :
    (engine.applyAll b.2 d).order publicId = d.order publicId := by
  obtain ⟨c', hc', hcommits⟩ := h.commits b hb
  rw [hbp, hc, Option.some.injEq] at hc'
  subst hc'
  obtain ⟨⟨target, agentId⟩, htarget⟩ := Option.isSome_iff_exists.mp hassign
  simp only [Call.Commits, htarget] at hcommits
  obtain ⟨now, hlog⟩ := hcommits
  have hother : target ≠ publicId := by
    rintro rfl
    refine hno agentId (mem_assignments.mpr ⟨b, hb, hbp, .assignOrder target agentId now, ?_,
      if_pos rfl⟩)
    rw [hlog]
    exact List.mem_singleton_self _
  rw [hlog]
  exact order_assignOrder_other hother agentId now d

/-- In every interleaving with claims, admin assignments, status updates and reports of agents,
whatever Redis drops, an order has one winner at most. -/
theorem one_winner_per_order (w : World) (hw : w.AtRest) (hunique : w.store.db.publicIds.Nodup)
    (calls : Pid → Option Call) (hcalls : ∀ p c, calls p = some c → c.handlesOrder = true)
    {t : Sys Pid Op Op.Res Err World Reply}
    (h : machine.Reaches anyOp (running hmacSha256 cfg calls w) t) (publicId : String) :
    OneWinner calls publicId w.store.db t.world.store.db t.world.store.history := by
  have hwp : ∀ p prog, (running hmacSha256 cfg calls w).procs p = some prog →
      wp machine anyOp (sharedSpec (Assigned calls w.store.db)) p prog (OnOk fun _ _ => True) w := by
    intro p prog hprog
    obtain ⟨c, hc, rfl⟩ := Option.map_eq_some_iff.mp hprog
    refine wp_handlesOrder hmacSha256 cfg hc (hcalls p c hc) ?_
    rw [World.log, hw.txn p]
    rfl
  have hinit : Assigned calls w.store.db w.store.db [] :=
    ⟨hunique, by simp, fun publicId => .inl ⟨rfl, rfl⟩⟩
  have hinv := shared_reaches hw hinit hwp h
  have hstate := hinv.agents publicId
  refine ⟨?_, fun p agentId hmem => ⟨?_, ?_⟩, fun hempty => ?_, fun b hb hno db => ?_, ?_⟩
  · rcases hstate with ⟨hempty, _⟩ | ⟨q, agentId, hone, _⟩
    · rw [hempty]
      exact Nat.zero_le 1
    · rw [hone]
      exact Nat.le_refl 1
  · obtain ⟨b, hb, rfl, x, hx, hassign⟩ := mem_assignments.mp hmem
    obtain ⟨c, hc, hcommits⟩ := hinv.commits b hb
    exact ⟨c, hc, hcommits.assigns hx hassign⟩
  · rcases hstate with ⟨hempty, _⟩ | ⟨q, b, hone, hfree, hnow⟩
    · rw [hempty] at hmem
      cases hmem
    · rw [hone, List.mem_singleton, Prod.mk.injEq] at hmem
      rw [hmem.2]
      exact ⟨hfree, hnow⟩
  · rcases hstate with ⟨_, hsame⟩ | ⟨q, agentId, hone, _⟩
    · exact hsame
    · rw [hone] at hempty
      cases hempty
  · obtain ⟨c, hc, hcommits⟩ := hinv.commits b hb
    cases hassign : c.assigning with
    | none =>
      simp only [Call.Commits, hassign] at hcommits
      exact agentOf_applyAll hcommits
    | some target =>
      have hrow := order_of_loser hinv hc (by rw [hassign]; rfl) hb rfl hno db
      exact congrArg (Option.map OrderEntity.deliveryAgentId) hrow
  · exact fun p c hc hassign hno b hb hbp db => order_of_loser hinv hc hassign hb hbp hno db

end Runs

/-- Two agents claim an offered order, an admin assigns it to a third, and a member of the
restaurant cancels it. -/
def rivalClaims : Pid → Option Call
  | 0 => some (.claim "order-1" 7 "eg")
  | 1 => some (.claim "order-1" 8 "eg")
  | 2 => some (.adminAssign "order-1" 5 "eg")
  | 3 => some (.updateStatus ⟨1, .systemAdmin, none, none, none⟩ ⟨.cancelled, some "closed"⟩ "eg"
      "order-1")
  | _ => none

def offeredOrder : World where
  store := Store.ofDb
    { orders := [{ OrderEntity.sample "order-1" .ready with deliveryAgentId := none }] }
  cache := Cache.set {} (.offer "order-1") (some (.ids [7, 8]))

/-- The claim key is lost twice while the first claim waits for its update. -/
def rivalClaimsSchedule : List (Label Pid Env Ext) :=
  let act : Pid → Label Pid Env Ext := fun p => .act p {}
  [0, 0, 0, 0].map act ++ [.ext (.drop (.claim "order-1"))] ++ [1, 1, 1, 1].map act ++
    [.ext (.drop (.claim "order-1"))] ++ [2, 2, 2, 3, 0, 0, 1, 0, 1, 1, 1, 1, 2, 2, 2, 2,
    3, 3, 3, 3, 3, 3, 0, 0, 0].map act

theorem one_winner_per_order_rivals :
    ∃ t, machine.run (fun _ _ _ _ => true) rivalClaimsSchedule
        (running (fun _ _ => "") sampleConfig rivalClaims offeredOrder) = some t ∧
      OneWinner rivalClaims "order-1" offeredOrder.store.db t.world.store.db
        t.world.store.history := by
  have hcalls : ∀ p c, rivalClaims p = some c → c.handlesOrder = true := by
    intro p c hc
    unfold rivalClaims at hc
    split at hc <;> cases hc <;> rfl
  obtain ⟨t, ht⟩ := Option.isSome_iff_exists.mp (by decide : (machine.run (fun _ _ _ _ => true)
    rivalClaimsSchedule (running (fun _ _ => "") sampleConfig rivalClaims
      offeredOrder)).isSome = true)
  exact ⟨t, ht, one_winner_per_order _ sampleConfig offeredOrder ⟨rfl, fun _ => rfl, rfl⟩
    (by decide) rivalClaims hcalls
    (Machine.reaches_of_run (fun _ _ _ _ _ => trivial) _ ht) "order-1"⟩

end OrderService
