import OrderService.ActiveDelivery
import OrderService.OfferHistory
import OrderService.OrderLifecycle

/-! Calls one after another: Redis has those agents as busy who have an order on its way, as long
as what it is told reaches it, no agent delivers one of several orders, and no order leaves its way
by the order route. -/
namespace OrderService
open ReadCommitted Interleaving

section Statement

/-- Redis has an agent as busy if and only if he has an order of the region on its way. -/
def World.MirrorsDeliveries (region : String) (w : World) : Prop :=
  ∀ agentId, (region, agentId) ∈ w.cache.busy ↔
    ∃ o ∈ w.store.db.orders, o.deliveryAgentId = some agentId ∧
      (o.status = .assigned ∨ o.status = .picked)

/-- The agent has an order on its way besides this one. -/
def Db.busyBesides (db : Db) (publicId : String) (agentId : Nat) : Bool :=
  db.orders.any fun o => o.publicId ≠ publicId &&
    (o.underway && o.deliveryAgentId = some agentId)

/-- The agent with whom the order is on its way. -/
def Db.carrier (db : Db) (publicId : String) : Option Nat :=
  (db.order publicId).bind fun o => if o.underway then o.deliveryAgentId else none

/-- The calls that assign an order of the region or move it on. -/
def Call.moves (region : String) : Call → Bool
  | .updateStatus _ _ r _ => r = region
  | .claim _ _ r => r = region
  | .adminAssign _ _ r => r = region
  | .agentUpdateStatus _ _ r _ => r = region
  | _ => false

/-- What Redis is told of a busy agent reaches it. A status that the order route writes leaves the
order on its way, or its agent has another one; a delivery that is committed is the only one of its
agent. -/
def reported (p : Pid) (o : Op) (e : Env) (w : World) : Bool :=
  match o with
  | .cache (.saddBusy ..) => !e.fail
  | .cache (.sremBusy ..) => !e.fail
  | .sql .pool (.updateOrderStatus publicId status _ _) =>
    e.fail || status = .assigned || status = .picked ||
      (w.store.db.carrier publicId).all (w.store.db.busyBesides publicId)
  | .commit => e.fail || (w.log p).all fun
    | .setOrderStatus publicId _ _ _ =>
      !(w.store.db.carrier publicId).any (w.store.db.busyBesides publicId)
    | _ => true
  | _ => true

section Runs
variable (hmacSha256 : String → String → String) (cfg : Config) (region : String)

/-- The calls of the run are of this kind, and each of them completes. -/
def movesInTurn : Pid → List Moment → World → Bool
  | _, [], _ => true
  | n, .call c es :: rest, w => c.moves region &&
      !(machine.runAlone n (c.prog hmacSha256 cfg) es w).1.isCrashed &&
      movesInTurn (n + 1) rest (machine.runAlone n (c.prog hmacSha256 cfg) es w).2
  | n, .ext x :: rest, w => movesInTurn n rest (machine.ext x w)

/-- All operations of the run are reported. -/
def ReportedInTurn : Pid → List Moment → World → Prop
  | _, [], _ => True
  | n, .call c es :: rest, w =>
    RunMeets machine (fun p o e w => reported p o e w = true) (fun _ => True) n
      (c.prog hmacSha256 cfg) es w ∧
    ReportedInTurn (n + 1) rest (machine.runAlone n (c.prog hmacSha256 cfg) es w).2
  | n, .ext x :: rest, w => ReportedInTurn n rest (machine.ext x w)

end Runs

end Statement

section Rows

variable {db : Db} {publicId : String} {agentId : Nat} {o : OrderEntity}

theorem busy_iff : db.busy agentId = true ↔ ∃ o ∈ db.orders, o.deliveryAgentId = some agentId ∧
    (o.status = .assigned ∨ o.status = .picked) := by
  simp only [Db.busy, OrderEntity.underway, List.any_eq_true, Bool.and_eq_true, Bool.or_eq_true,
    decide_eq_true_eq]
  constructor
  · rintro ⟨o, ho, hway, hagent⟩
    exact ⟨o, ho, hagent, hway⟩
  · rintro ⟨o, ho, hagent, hway⟩
    exact ⟨o, ho, hway, hagent⟩

theorem busy_of_orders {db' : Db} (h : db'.orders = db.orders) : db'.busy = db.busy := by
  funext agentId
  rw [Db.busy, h]
  rfl

/-- An agent is busy with this order or with another one. -/
theorem busy_split (hunique : db.publicIds.Nodup) (ho : db.order publicId = some o)
    (agentId : Nat) : db.busy agentId
      = (db.busyBesides publicId agentId || (o.underway && o.deliveryAgentId = some agentId)) := by
  have hid : o.publicId = publicId := by simpa using List.find?_some ho
  rw [Bool.eq_iff_iff, Bool.or_eq_true]
  constructor
  · intro h
    obtain ⟨row, hrow, hbusy⟩ := List.any_eq_true.mp h
    by_cases hpid : row.publicId = publicId
    · have hsame : row = o := by
        have hfound := order_of_mem hunique hrow
        rw [hpid, ho, Option.some.injEq] at hfound
        exact hfound.symm
      rw [← hsame]
      exact .inr hbusy
    · refine .inl (List.any_eq_true.mpr ⟨row, hrow, ?_⟩)
      simp only [ne_eq, hpid, not_false_eq_true, decide_true, Bool.true_and]
      exact hbusy
  · rintro (h | h)
    · obtain ⟨row, hrow, hbusy⟩ := List.any_eq_true.mp h
      exact List.any_eq_true.mpr ⟨row, hrow, (Bool.and_eq_true_iff.mp hbusy).2⟩
    · exact List.any_eq_true.mpr ⟨o, List.mem_of_find?_eq_some ho, h⟩

/-- A write to one order leaves the other ones alone. -/
theorem busyBesides_map {f : OrderEntity → OrderEntity}
    (hpid : ∀ o, (f o).publicId = o.publicId) (hother : ∀ o, o.publicId ≠ publicId → f o = o) :
    Db.busyBesides { db with orders := db.orders.map f } publicId = db.busyBesides publicId := by
  funext agentId
  unfold Db.busyBesides
  rw [List.any_map]
  congr 1
  funext o
  by_cases ho : o.publicId = publicId
  · simp [hpid, ho]
  · simp only [Function.comp_apply, hother o ho]

theorem busyBesides_setOrderStatus (status : OrderStatus) (stamp : Option Stamp) (now : Time) :
    (engine.apply (.setOrderStatus publicId status stamp now) db).busyBesides publicId
      = db.busyBesides publicId := by
  apply busyBesides_map
  · intro o
    split_ifs <;> simp
  · exact fun o ho => if_neg ho

theorem busyBesides_assignOrder (now : Time) :
    (engine.apply (.assignOrder publicId agentId now) db).busyBesides publicId
      = db.busyBesides publicId := by
  apply busyBesides_map
  · intro o
    split_ifs <;> rfl
  · exact fun o ho => if_neg fun h => ho h.1

theorem publicIds_setOrderStatus (status : OrderStatus) (stamp : Option Stamp) (now : Time) :
    (engine.apply (.setOrderStatus publicId status stamp now) db).publicIds = db.publicIds := by
  have hkeeps : (Write.setOrderStatus publicId status stamp now).KeepsOrders := trivial
  exact map_orders_apply withStatus_publicId assignTo_publicId hkeeps db

theorem carrier_of_order (ho : db.order publicId = some o) :
    db.carrier publicId = if o.underway then o.deliveryAgentId else none := by
  rw [Db.carrier, ho, Option.bind_some]

/-- An order whose agent has another one may leave its way, and any order may stay on it. -/
theorem busy_setOrderStatus (hunique : db.publicIds.Nodup) (ho : db.order publicId = some o)
    {status : OrderStatus} {stamp : Option Stamp} {now : Time}
    (hway : (o.withStatus status stamp now).underway = true → o.underway = true)
    (hleaves : (o.withStatus status stamp now).underway = true ∨
      (db.carrier publicId).all (db.busyBesides publicId) = true) :
    (engine.apply (.setOrderStatus publicId status stamp now) db).busy = db.busy := by
  funext agentId
  have ho' := order_setOrderStatus publicId status stamp now db
  rw [ho, Option.map_some] at ho'
  have hunique' : (engine.apply (.setOrderStatus publicId status stamp now) db).publicIds.Nodup := by
    rw [publicIds_setOrderStatus]
    exact hunique
  rw [busy_split hunique' ho', busyBesides_setOrderStatus, busy_split hunique ho,
    withStatus_deliveryAgentId]
  rcases hleaves with hstays | hbesides
  · rw [hstays, hway hstays]
  · rw [carrier_of_order ho] at hbesides
    cases hunderway : o.underway with
    | false =>
      have hoff : (o.withStatus status stamp now).underway = false := by
        rw [Bool.eq_false_iff]
        intro hon
        rw [hway hon] at hunderway
        cases hunderway
      rw [hoff]
    | true =>
      rw [if_pos hunderway] at hbesides
      by_cases hagent : o.deliveryAgentId = some agentId
      · rw [hagent, Option.all_some] at hbesides
        rw [hbesides, Bool.true_or, Bool.true_or]
      · simp only [hagent, decide_false, Bool.and_false]

/-- The last order of its agent leaves its way: he is free, and the others are as busy as before. -/
theorem busy_delivered (hunique : db.publicIds.Nodup) (ho : db.order publicId = some o)
    (hpicked : o.status = .picked) (hagent : o.deliveryAgentId = some agentId)
    (hlast : (db.carrier publicId).any (db.busyBesides publicId) = false)
    {stamp : Option Stamp} {now : Time} (a : Nat) :
    (engine.apply (.setOrderStatus publicId .delivered stamp now) db).busy a
      = if a = agentId then false else db.busy a := by
  have ho' := order_setOrderStatus publicId .delivered stamp now db
  rw [ho, Option.map_some] at ho'
  have hunique' : (engine.apply (.setOrderStatus publicId .delivered stamp now) db).publicIds.Nodup := by
    rw [publicIds_setOrderStatus]
    exact hunique
  have hway : o.underway = true := by simp [OrderEntity.underway, hpicked]
  have hoff : (o.withStatus .delivered stamp now).underway = false := by
    simp [OrderEntity.underway]
  rw [busy_split hunique' ho', busyBesides_setOrderStatus, busy_split hunique ho, hoff, hway,
    Bool.false_and, Bool.or_false, Bool.true_and, hagent]
  rw [carrier_of_order ho, if_pos hway, hagent, Option.any_some] at hlast
  by_cases ha : a = agentId
  · rw [if_pos ha, ha, hlast]
  · have hne : ¬(some agentId = some a) := fun heq => ha (Option.some.inj heq).symm
    rw [if_neg ha, decide_eq_false hne, Bool.or_false]

/-- An assignment makes its agent busy, and nobody else. -/
theorem busy_assigned (hunique : db.publicIds.Nodup) (ho : db.claimableOrder publicId = some o)
    {now : Time} (a : Nat) :
    (engine.apply (.assignOrder publicId agentId now) db).busy a
      = if a = agentId then true else db.busy a := by
  obtain ⟨hfound, hclaimable⟩ := order_of_claimable hunique ho
  have hnone : o.deliveryAgentId = none := by
    simp only [OrderEntity.claimable, Bool.and_eq_true, Option.isNone_iff_eq_none] at hclaimable
    exact hclaimable.2
  have ho' := order_assignOrder publicId agentId now db
  rw [hfound, Option.map_some, if_pos hclaimable] at ho'
  have hunique' : (engine.apply (.assignOrder publicId agentId now) db).publicIds.Nodup := by
    rw [publicIds_assignOrder]
    exact hunique
  rw [busy_split hunique' ho', busyBesides_assignOrder, busy_split hunique hfound, hnone]
  have hway : (o.assignTo agentId now).underway = true := rfl
  have hagent : (o.assignTo agentId now).deliveryAgentId = some agentId := rfl
  rw [hway, hagent]
  by_cases ha : a = agentId
  · simp [ha]
  · have hne : ¬(some agentId = some a) := fun heq => ha (Option.some.inj heq).symm
    simp [ha, hne]

end Rows

section Standing

variable {ok : Pid → Op → Env → World → Prop} {p : Pid} {region : String} {agentId : Nat}
  {w w' : World}

/-- Public ids are unique, and Redis mirrors the deliveries. -/
structure Mirrored (region : String) (w : World) : Prop where
  unique : w.store.db.publicIds.Nodup
  mirrors : ∀ a, (region, a) ∈ w.cache.busy ↔ w.store.db.busy a = true

/-- The same, but Redis is still to be told that the agent is busy now, or not any more. -/
structure Owing (region : String) (agentId : Nat) (busy : Bool) (w : World) : Prop where
  unique : w.store.db.publicIds.Nodup
  others : ∀ a, a ≠ agentId → ((region, a) ∈ w.cache.busy ↔ w.store.db.busy a = true)
  owed : w.store.db.busy agentId = busy

theorem mirrored_iff : Mirrored region w ↔
    w.store.db.publicIds.Nodup ∧ w.MirrorsDeliveries region := by
  constructor
  · intro h
    exact ⟨h.unique, fun a => (h.mirrors a).trans busy_iff⟩
  · intro h
    exact ⟨h.1, fun a => (h.2 a).trans busy_iff.symm⟩

/-- The orders and the busy agents are the same. -/
structure Alike (w w' : World) : Prop where
  orders : w'.store.db.orders = w.store.db.orders
  busy : w'.cache.busy = w.cache.busy

theorem Alike.refl (w : World) : Alike w w := ⟨rfl, rfl⟩

theorem Alike.trans {w'' : World} (h : Alike w w') (h' : Alike w' w'') : Alike w w'' :=
  ⟨h'.orders.trans h.orders, h'.busy.trans h.busy⟩

theorem Mirrored.alike (h : Mirrored region w) (hsame : Alike w w') : Mirrored region w' := by
  refine ⟨?_, fun a => ?_⟩
  · rw [Db.publicIds, hsame.orders]
    exact h.unique
  · rw [hsame.busy, busy_of_orders hsame.orders]
    exact h.mirrors a

theorem Mirrored.update (h : Mirrored region w) {x : Write}
    (hids : (engine.apply x w.store.db).publicIds = w.store.db.publicIds)
    (hdb : w'.store.db.orders = (engine.apply x w.store.db).orders)
    (hcache : w'.cache.busy = w.cache.busy) {busy : Bool}
    (hbusy : ∀ a, (engine.apply x w.store.db).busy a
      = if a = agentId then busy else w.store.db.busy a) : Owing region agentId busy w' := by
  refine ⟨?_, fun a ha => ?_, ?_⟩
  · rw [Db.publicIds, hdb, ← Db.publicIds, hids]
    exact h.unique
  · rw [hcache, busy_of_orders hdb, hbusy, if_neg ha]
    exact h.mirrors a
  · rw [busy_of_orders hdb, hbusy, if_pos rfl]

/-- The operations that commit no write to an order and tell nothing of busy agents. -/
def Op.Aside : Op → Prop
  | .cache (.saddBusy ..) => False
  | .cache (.sremBusy ..) => False
  | .commit => False
  | .sql .pool q => ∀ x, q.MayWrite x → x.OffOrders
  | _ => True

theorem exec_aside {o : Op} {e : Env} {r : Except Err o.Res} (ho : o.Aside)
    (hx : exec p o e w = some (r, w')) : Alike w w' := by
  refine ⟨?_, ?_⟩
  · rcases exec_visible hx with hdb | hdb
    · rw [hdb]
    · rw [hdb]
      apply orders_applyAll
      intro x hx
      cases o with
      | sql c q =>
        cases c with
        | pool => exact (ho x (Sql.mayWrite_of_mem hx)).table
        | trx => cases hx
      | commit => exact absurd ho id
      | _ => cases hx
  · rcases exec_cached hx with heq | ⟨c, rfl, _, heq⟩
    · rw [heq]
    · rw [heq]
      cases c with
      | saddBusy r a => exact absurd ho id
      | sremBusy r a => exact absurd ho id
      | trySet key value ttl =>
        simp only [CacheCmd.run]
        split <;> rfl
      | _ => rfl

/-- A program whose operations are all of that kind. -/
abbrev Aside {α : Type} (prog : Svc α) : Prop :=
  prog.Calls Op.Aside (fun _ _ => True) fun _ => True

theorem wp_aside {α : Type} {prog : Svc α} (hc : Aside prog) (h : Alike w w') :
    wp machine ok (soloSpec (fun _ => True) p) p prog (fun _ v => Alike w v) w' :=
  wp_solo hc (fun _ _ _ _ _ ho _ hx h => h.trans (exec_aside ho hx)) h

/-- Whatever comes of it, Redis mirrors the deliveries. -/
abbrev Mirroring (region : String) {α : Type} : Except Err α → World → Prop :=
  fun _ w => Mirrored region w

theorem wp_aside_mirrored {α : Type} {prog : Svc α} (hc : Aside prog) (h : Mirrored region w) :
    wp machine ok (soloSpec (fun _ => True) p) p prog (Mirroring region) w :=
  wp_mono (fun _ _ hsame => h.alike hsame) (wp_aside hc (.refl w))

/-- What goes on after such a part. -/
theorem wp_aside_do {α β : Type} {prog : Svc α} {f : α → Svc β}
    {Q : Except Err β → World → Prop} (hc : Aside prog) (h : Mirrored region w)
    (hQ : ∀ err v, Mirrored region v → Q (.error err) v)
    (hf : ∀ a v, Mirrored region v → wp machine ok (soloSpec (fun _ => True) p) p (f a) Q v) :
    wp machine ok (soloSpec (fun _ => True) p) p (prog >>= f) Q w := by
  apply wp_do
  apply wp_mono _ (wp_aside_mirrored hc h)
  intro r v hv
  cases r with
  | ok a => exact hf a v hv
  | error err => exact hQ err v hv

theorem solo_isolated : Isolated (soloSpec (fun _ : World => True) p) p :=
  soloSpec_isolated fun _ _ _ _ _ _ _ _ => trivial

end Standing

section Assigning

variable {p : Pid} {region publicId : String} {agentId : Nat} {w : World} {cfg : Config}

/-- The operations of a call that runs by itself, all of them reported. -/
abbrev Reports {α : Type} (p : Pid) (prog : Svc α) (Q : Except Err α → World → Prop) (w : World) :
    Prop :=
  wp machine (fun p o e w => reported p o e w = true) (soloSpec (fun _ => True) p) p prog Q w

/-- On success Redis is still to be told. -/
def Promised (region : String) (agentId : Nat) (busy : Bool) {α : Type} :
    Except Err α → World → Prop
  | .ok _, w => Owing region agentId busy w
  | .error _, w => Mirrored region w

theorem reports_markBusy (h : Owing region agentId true w) :
    Reports p (markBusy agentId region) (Mirroring region) w := by
  apply wp_perform
  intro w₁ hr _ e r w₂ hok hx
  have hsame : w₁ = w := hr rfl
  subst hsame
  have hfail : e.fail = false := by simpa [reported] using hok
  rw [machine_exec] at hx
  simp only [exec, hfail, Bool.false_eq_true, if_false, Option.some.injEq, Prod.mk.injEq] at hx
  obtain ⟨_, rfl⟩ := hx
  refine ⟨trivial, fun q hq heq => absurd heq hq, h.unique, fun a => ?_⟩
  have hbusy : (region, a) ∈ (CacheCmd.run w₁.cache e (.saddBusy region agentId)).2.busy ↔
      a = agentId ∨ (region, a) ∈ w₁.cache.busy := by
    simp only [CacheCmd.run]
    split_ifs with hmem
    · have hin : (region, agentId) ∈ w₁.cache.busy := List.contains_iff_mem.mp hmem
      constructor
      · exact .inr
      · rintro (rfl | ha)
        · exact hin
        · exact ha
    · simp
  rw [hbusy]
  by_cases ha : a = agentId
  · rw [ha, h.owed]
    exact ⟨fun _ => rfl, fun _ => .inl rfl⟩
  · rw [h.others a ha]
    exact or_iff_right ha

theorem reports_markFree (h : Owing region agentId false w) :
    Reports p (markFree agentId region) (Mirroring region) w := by
  apply wp_perform
  intro w₁ hr _ e r w₂ hok hx
  have hsame : w₁ = w := hr rfl
  subst hsame
  have hfail : e.fail = false := by simpa [reported] using hok
  rw [machine_exec] at hx
  simp only [exec, hfail, Bool.false_eq_true, if_false, Option.some.injEq, Prod.mk.injEq] at hx
  obtain ⟨_, rfl⟩ := hx
  refine ⟨trivial, fun q hq heq => absurd heq hq, h.unique, fun a => ?_⟩
  have hbusy : (region, a) ∈ (CacheCmd.run w₁.cache e (.sremBusy region agentId)).2.busy ↔
      (region, a) ∈ w₁.cache.busy ∧ a ≠ agentId := by
    simp [CacheCmd.run, List.mem_filter]
  rw [hbusy]
  by_cases ha : a = agentId
  · rw [ha, h.owed]
    exact ⟨fun hmem => absurd rfl hmem.2, fun hfalse => absurd hfalse Bool.false_ne_true⟩
  · rw [h.others a ha]
    exact and_iff_left ha

theorem aside_releaseClaim : Aside (releaseClaim publicId) :=
  Prog.calls_do (calls_any trivial) fun _ _ => trivial

theorem aside_announceTask {updated : OrderEntity} {losers : List Nat} :
    Aside (announceTask updated agentId losers) := by
  have hlosers : Aside (losers.forM fun loser => emit (.agent loser) .offerCancelled
      updated.publicId) := by
    induction losers with
    | nil => trivial
    | cons loser losers ih => exact Prog.calls_do (calls_any trivial) fun _ _ => ih
  apply Prog.calls_do (calls_any trivial)
  intro _ _
  apply Prog.calls_do hlosers
  intro _ _
  exact Prog.calls_do (calls_any trivial) fun _ _ => calls_any trivial

theorem reports_afterAssignment {updated : OrderEntity} {losers : List Nat}
    (h : Owing region agentId true w) :
    Reports p (afterAssignment publicId updated agentId region losers) (Mirroring region) w := by
  apply wp_do
  apply wp_mono _ (reports_markBusy h)
  intro r w₁ h₁
  cases r with
  | error err => exact h₁
  | ok _ =>
    refine wp_aside_do ?_ h₁ (fun _ _ hv => hv) fun branch w₂ h₂ => ?_
    · apply Prog.calls_catch
      · exact Prog.calls_do (calls_any trivial) fun _ _ => trivial
      · exact fun _ => trivial
    refine wp_aside_do aside_announceTask h₂ (fun _ _ hv => hv) fun _ w₃ h₃ => ?_
    exact wp_aside_do (calls_any trivial) h₃ (fun _ _ hv => hv) fun _ _ h₄ => h₄

/-- A commit fails, or its log is reported. -/
theorem reports_commit {log : List Write} (hlog : w.store.txn p = .active log)
    {Q : Except Err Unit → World → Prop}
    (hfail : Q (.error .failed) { w with store := w.store.rollback p })
    (hok : (log.all fun
      | .setOrderStatus publicId _ _ _ =>
        !(w.store.db.carrier publicId).any (w.store.db.busyBesides publicId)
      | _ => true) = true → Q (.ok ()) (w.committed p)) :
    Reports p commit Q w := by
  apply wp_perform
  intro w₁ hr _ e r w₂ hreported hx
  have hsame : w₁ = w := hr rfl
  subst hsame
  refine ⟨trivial, fun q hq heq => absurd heq hq, ?_⟩
  rw [machine_exec] at hx
  cases hf : e.fail with
  | true =>
    simp only [exec, hf, if_true, Option.some.injEq, Prod.mk.injEq] at hx
    obtain ⟨rfl, rfl⟩ := hx
    exact hfail
  | false =>
    simp only [exec, hf, Bool.false_eq_true, if_false, World.commit_eq hlog, Option.some.injEq,
      Prod.mk.injEq] at hx
    obtain ⟨rfl, rfl⟩ := hx
    simp only [reported, hf, Bool.false_or, World.log_of_active hlog] at hreported
    exact hok hreported

/-- The guarded update finds the order without an agent, so its commit makes the agent busy. -/
theorem reports_takeOrder (h : Mirrored region w) (hlog : w.store.txn p = .active []) :
    Reports p (takeOrder publicId agentId) (Promised region agentId true) w := by
  have hS : Isolated (soloSpec (fun _ : World => True) p) p := solo_isolated
  apply wp_do
  apply wp_do
  apply wp_now hS
  intro w₁ hr₁ _
  have hw₁ : w₁ = w := hr₁ rfl
  subst hw₁
  apply wp_trx hS hlog
  · intro w₂ e hr₂ _ _ _
    have hw₂ : w₂ = w₁ := hr₂ rfl
    rw [hw₂]
    exact h
  intro w₂ e hr₂ _ hlog₂ _ _
  have hw₂ : w₂ = w₁ := hr₂ rfl
  subst hw₂
  have hqueried : Alike w₂ (w₂.queried p (.claimReadyOrderForAgent publicId agentId w₂.clock)) :=
    ⟨rfl, rfl⟩
  cases hreply : (w₂.inTrx p (.claimReadyOrderForAgent publicId agentId w₂.clock)).reply with
  | error err => exact h.alike hqueried
  | ok claimed =>
    cases claimed with
    | none =>
      exact wp_aside_do aside_releaseClaim (h.alike hqueried) (fun _ _ hv => hv) fun _ _ h₃ => h₃
    | some row =>
      have hview : w₂.view p = w₂.store.db := by
        rw [World.view_eq, World.log_of_active hlog₂, applyAll_nil]
      rw [World.inTrx, hview] at hreply
      obtain ⟨hwrites, o, hfind⟩ := claimReady_reply hreply
      have hanswer : (w₂.inTrx p (.claimReadyOrderForAgent publicId agentId w₂.clock)).writes
          = [.assignOrder publicId agentId w₂.clock] := by
        rw [World.inTrx, hview]
        exact hwrites
      have hlog₃ : (w₂.queried p (.claimReadyOrderForAgent publicId agentId w₂.clock)).store.txn p
          = .active [.assignOrder publicId agentId w₂.clock] := by
        rw [World.queried_txn, hanswer, World.log_of_active hlog₂, List.nil_append]
      apply wp_do
      apply reports_commit hlog₃
      · exact h.alike ⟨rfl, rfl⟩
      intro _
      change Owing region agentId true _
      refine h.update (publicIds_assignOrder agentId w₂.clock) ?_ ?_ (busy_assigned h.unique hfind)
      · simp only [World.committed, World.log_of_active hlog₃]
        rfl
      · rfl

theorem reports_releasingOnError {body : Svc OrderEntity}
    (hbody : Reports p body (Promised region agentId true) w) :
    Reports p (releasingOnError publicId body) (Promised region agentId true) w := by
  apply wp_catch
  apply wp_mono _ hbody
  intro r w₁ h₁
  cases r with
  | ok updated => exact h₁
  | error err =>
    refine wp_aside_do (calls_any trivial) h₁ (fun _ _ hv => hv) fun _ w₂ h₂ => ?_
    exact wp_aside_do aside_releaseClaim h₂ (fun _ _ hv => hv) fun _ _ h₃ => h₃

/-- From the start of the transaction on. -/
theorem reports_assignment {body : Svc OrderEntity} {losers : List Nat} (h : Mirrored region w)
    (hbody : ∀ v, Mirrored region v → v.store.txn p = .active [] →
      Reports p body (Promised region agentId true) v) :
    Reports p (do
      startTransaction
      let updated ← releasingOnError publicId body
      afterAssignment publicId updated agentId region losers) (Mirroring region) w := by
  apply wp_do
  apply wp_start solo_isolated
  · intro w₁ e hr _ _ _
    have hw₁ : w₁ = w := hr rfl
    rw [hw₁]
    exact h
  intro w₁ e hr _ _ _
  have hw₁ : w₁ = w := hr rfl
  have h₁ : Mirrored region { w₁ with store := w₁.store.start p } := by
    rw [hw₁]
    exact h.alike ⟨rfl, rfl⟩
  apply wp_do
  apply wp_mono _ (reports_releasingOnError (hbody _ h₁ (World.start_txn w₁ p)))
  intro r w₂ h₂
  cases r with
  | ok updated => exact reports_afterAssignment h₂
  | error err => exact h₂

theorem reports_adminAssign (h : Mirrored region w) :
    Reports p (adminAssign cfg publicId agentId region) (Mirroring region) w := by
  refine wp_aside_do (calls_any trivial) h (fun _ _ hv => hv) fun ok w₁ h₁ => ?_
  split_ifs
  · exact h₁
  · exact reports_assignment h₁ fun v hv hlog => reports_takeOrder hv hlog

theorem reports_claim (h : Mirrored region w) :
    Reports p (claim cfg publicId agentId region) (Mirroring region) w := by
  refine wp_aside_do (calls_any trivial) h (fun _ _ hv => hv) fun offered w₁ h₁ => ?_
  cases offered with
  | none => exact h₁
  | some value =>
    dsimp only
    split_ifs
    case neg => exact h₁
    refine wp_aside_do (calls_any trivial) h₁ (fun _ _ hv => hv) fun ok w₂ h₂ => ?_
    split_ifs
    · exact h₂
    refine reports_assignment h₂ fun v hv hlog => ?_
    -- The lookup before the guarded update changes nothing.
    apply wp_do
    apply wp_trx solo_isolated hlog
    · intro w₃ e hr _ _ _
      have hw₃ : w₃ = v := hr rfl
      rw [hw₃]
      exact hv
    intro w₃ e hr _ hlog₃ _ _
    have hw₃ : w₃ = v := hr rfl
    have h₃ : Mirrored region (w₃.queried p (.findOrderByPublicId publicId)) := by
      rw [hw₃]
      exact hv.alike ⟨rfl, rfl⟩
    have hlog₄ := World.queried_txn_of_read (q := .findOrderByPublicId publicId) hlog₃ rfl
    cases hreply : (w₃.inTrx p (.findOrderByPublicId publicId)).reply with
    | error err => exact h₃
    | ok order =>
      cases order with
      | none => exact wp_aside_do aside_releaseClaim h₃ (fun _ _ hv => hv) fun _ _ h₄ => h₄
      | some o => exact reports_takeOrder h₃ hlog₄

end Assigning

section Moving

variable {p : Pid} {region publicId : String} {agentId : Nat} {w : World} {cfg : Config}

theorem reports_find {β : Type} {f : Option OrderEntity → Svc β}
    {Q : Except Err β → World → Prop} (h : Mirrored region w)
    (hQ : ∀ err v, Mirrored region v → Q (.error err) v)
    (hf : ∀ v, v.store = w.store → Mirrored region v →
      Reports p (f (w.store.db.order publicId)) Q v) :
    Reports p (findOrderByPublicId publicId .pool >>= f) Q w := by
  apply wp_do
  apply wp_pool solo_isolated
  · intro w₁ e hr _ _ _
    have hw₁ : w₁ = w := hr rfl
    rw [hw₁]
    exact hQ _ _ h
  intro w₁ e hr _ _ _
  have hw₁ : w₁ = w := hr rfl
  subst hw₁
  have hstore : (w₁.pooled p (.findOrderByPublicId publicId)).store = w₁.store :=
    World.pooled_store rfl
  refine ⟨trivial, hf _ hstore (h.alike ⟨by rw [hstore], rfl⟩)⟩

/-- A status on the pool: the order stays on its way, or its agent has another one. -/
theorem reports_move {status : OrderStatus} {stamp : Option Stamp} {o : OrderEntity}
    (h : Mirrored region w) (ho : w.store.db.order publicId = some o)
    (hassigned : status ≠ .assigned) (hpicked : status = .picked → o.status = .assigned) :
    Reports p (updateOrderStatus publicId status .pool stamp)
      (fun _ v => Mirrored region v ∧ v.store.txn p = w.store.txn p) w := by
  apply wp_do
  apply wp_now solo_isolated
  intro w₁ hr₁ _
  have hw₁ : w₁ = w := hr₁ rfl
  subst hw₁
  apply wp_do
  apply wp_perform
  intro w₂ hr₂ _ e r w₃ hreported hx
  have hw₂ : w₂ = w₁ := hr₂ rfl
  subst hw₂
  refine ⟨trivial, fun q hq heq => absurd heq hq, ?_⟩
  have hdone : Mirrored region w₃ ∧ w₃.store.txn p = w₂.store.txn p := by
    rw [machine_exec] at hx
    cases hf : e.fail with
    | true =>
      simp only [exec, hf, if_true, Option.some.injEq, Prod.mk.injEq] at hx
      rw [← hx.2]
      exact ⟨h, rfl⟩
    | false =>
      obtain ⟨_, rfl, _⟩ := exec_pool hf hx
      have hwrites : (w₂.onPool (.updateOrderStatus publicId status stamp w₂.clock)).writes
          = [.setOrderStatus publicId status stamp w₂.clock] := by
        simp only [World.onPool, Sql.eval, ho]
        rfl
      simp only [reported, hf, Bool.false_or, Bool.or_eq_true, decide_eq_true_eq] at hreported
      have hbusy : (engine.apply (.setOrderStatus publicId status stamp w₂.clock)
          w₂.store.db).busy = w₂.store.db.busy := by
        apply busy_setOrderStatus h.unique ho
        · intro hway
          simp only [OrderEntity.underway, withStatus_status, Bool.or_eq_true,
            decide_eq_true_eq] at hway
          have hsource := hpicked (hway.resolve_left hassigned)
          simp [OrderEntity.underway, hsource]
        · rcases hreported with (hstays | hstays) | hleaves
          · exact absurd hstays hassigned
          · exact .inl (by simp [OrderEntity.underway, hstays])
          · exact .inr hleaves
      refine ⟨⟨?_, fun a => ?_⟩, rfl⟩
      · simp only [World.pooled, hwrites, applyAll_cons, applyAll_nil]
        rw [publicIds_setOrderStatus]
        exact h.unique
      · simp only [World.pooled, hwrites, applyAll_cons, applyAll_nil]
        rw [hbusy]
        exact h.mirrors a
  cases r with
  | error err => exact hdone
  | ok row =>
    cases row with
    | none => exact hdone
    | some o => exact hdone

/-- One statement on the pool that is not about orders leaves the open transaction alone. -/
theorem reports_insertOutboxEvent {input : OutboxInput} (h : Mirrored region w) :
    Reports p (insertOutboxEvent .pool input)
      (fun _ v => Mirrored region v ∧ v.store.txn p = w.store.txn p) w := by
  apply wp_perform
  intro w₁ hr _ e r w₂ _ hx
  have hw₁ : w₁ = w := hr rfl
  subst hw₁
  rw [machine_exec] at hx
  have haside : Op.Aside (.sql .pool (.insertOutboxEvent input)) := by
    rintro x ⟨id, clock, rfl⟩
    trivial
  refine ⟨trivial, fun q hq heq => absurd heq hq, h.alike (exec_aside haside hx), ?_⟩
  have hs : StoreStep p w₁ w₂.store (.sql .pool (.insertOutboxEvent input)) := exec_store hx
  rcases hs with hs | ⟨a, hs⟩
  · rw [hs]
  · obtain ⟨_, _, hs⟩ := autocommit_cases hs
    rw [hs]

theorem reports_emitTransition {updated : OrderEntity} {ctx : AssertTransitionContext}
    (h : Mirrored region w) : Reports p (emitTransition updated ctx)
      (fun _ v => Mirrored region v ∧ v.store.txn p = w.store.txn p) w := by
  unfold emitTransition
  split
  · exact ⟨h, rfl⟩
  · exact reports_insertOutboxEvent h

theorem reports_writeStatus {dto : UpdateOrderStatusRequest} {order : OrderEntity}
    {stamp : Option Stamp} {ctx : AssertTransitionContext} (h : Mirrored region w)
    (hlog : w.store.txn p = .active []) (ho : w.store.db.order order.publicId = some order)
    (hassigned : dto.status ≠ .assigned)
    (hpicked : dto.status = .picked → order.status = .assigned) :
    Reports p (writeStatus dto order stamp ctx) (Mirroring region) w := by
  apply wp_do
  apply wp_mono _ (reports_move h ho hassigned hpicked)
  rintro (err | updated) w₁ ⟨h₁, htxn₁⟩
  · exact h₁
  apply wp_do
  apply wp_mono _ (reports_emitTransition h₁)
  rintro (err | _) w₂ ⟨h₂, htxn₂⟩
  · exact h₂
  -- Nothing was written in the transaction.
  have hlog₂ : w₂.store.txn p = .active [] := by rw [htxn₂, htxn₁, hlog]
  apply wp_do
  apply reports_commit hlog₂
  · exact h₂.alike ⟨rfl, rfl⟩
  · intro _
    apply h₂.alike
    refine ⟨?_, rfl⟩
    simp only [World.committed, World.log_of_active hlog₂, applyAll_nil]

theorem reports_rollback {α : Type} {err : Err} {Q : Except Err α → World → Prop}
    (h : Mirrored region w) (hQ : ∀ err v, Mirrored region v → Q (.error err) v) :
    Reports p (do rollback; throw err : Svc α) Q w :=
  wp_aside_do (calls_any trivial) h hQ fun _ v hv => hQ err v hv

theorem reports_updateStatus {actor : ActorContext} {dto : UpdateOrderStatusRequest}
    {orderId : String} (h : Mirrored region w) :
    Reports p (updateStatus actor dto region orderId) (Mirroring region) w := by
  refine reports_find h (fun _ _ hv => hv) fun w₁ hstore₁ h₁ => ?_
  cases hfound : w.store.db.order orderId with
  | none => exact h₁
  | some order =>
    apply wp_do
    cases hactor : resolveStatusActor actor order with
    | error err => exact h₁
    | ok statusActor =>
      change Reports p (assertTransition order.status dto.status _ >>= _) _ _
      rw [assertTransition_eq]
      cases hcheck : checkTransition order.status dto.status _ with
      | error err => exact h₁
      | ok stamp =>
        obtain ⟨rule, hrule, hallowed, rfl⟩ := checkTransition_ok hcheck
        -- Only the system assigns, and it makes no calls.
        have hassigned : dto.status ≠ .assigned := by
          intro hassigned
          rw [hassigned] at hrule
          cases hsource : order.status <;> rw [hsource] at hrule <;> cases hrule
          exact resolveStatusActor_ne_system hactor (List.mem_singleton.mp hallowed)
        have hpicked : dto.status = .picked → order.status = .assigned := by
          intro hpicked
          rw [hpicked] at hrule
          cases hsource : order.status <;> rw [hsource] at hrule <;> first | rfl | cases hrule
        change Reports p (startTransaction >>= _) _ _
        apply wp_do
        apply wp_start solo_isolated
        · intro w₂ e hr _ _ _
          have hw₂ : w₂ = w₁ := hr rfl
          rw [hw₂]
          exact h₁
        intro w₂ e hr _ _ _
        have hw₂ : w₂ = w₁ := hr rfl
        have h₂ : Mirrored region { w₂ with store := w₂.store.start p } := by
          rw [hw₂]
          exact h₁.alike ⟨rfl, rfl⟩
        have ho₂ : w₂.store.db.order order.publicId = some order := by
          rw [hw₂, hstore₁]
          exact order_publicId hfound
        apply wp_do
        apply wp_catch
        apply wp_mono _ (reports_writeStatus h₂ (World.start_txn w₂ p) ho₂ hassigned hpicked)
        intro r w₃ h₃
        cases r with
        | error err => exact reports_rollback h₃ fun _ _ hv => hv
        | ok updated =>
          apply wp_aside_mirrored _ h₃
          apply Prog.calls_do (calls_any trivial)
          intro _ _
          apply Prog.calls_do (calls_any trivial)
          intro _ _
          exact Prog.calls_do (calls_any trivial) fun _ _ => trivial

theorem reports_pickup {order : OrderEntity} (h : Mirrored region w)
    (ho : w.store.db.order order.publicId = some order) :
    Reports p (pickup order) (Mirroring region) w := by
  unfold pickup
  split_ifs with hstatus
  · exact h
  apply wp_do
  apply wp_mono _ (reports_move h ho (by decide) fun _ => not_not.mp hstatus)
  rintro (err | updated) w₁ ⟨h₁, _⟩
  · exact h₁
  · exact wp_aside_mirrored (Prog.calls_discard (calls_emitDeliveryStatus fun _ => trivial) trivial) h₁

theorem aside_settleDeliveredOrder {order : OrderEntity} :
    Aside (settleDeliveredOrder cfg order agentId .trx) :=
  calls_settleDeliveredOrder (fun _ => True) (fun _ _ => trivial) cfg trivial trivial
    (fun _ _ => trivial) trivial

/-- The delivery is the only one of its agent when it is committed, so he is free after it. -/
theorem reports_deliverBody {order : OrderEntity} (h : Mirrored region w)
    (hlog : w.store.txn p = .active []) (ho : w.store.db.order order.publicId = some order)
    (hagent : order.deliveryAgentId = some agentId) (hpicked : order.status = .picked) :
    Reports p (deliverBody cfg order agentId region) (Mirroring region) w := by
  have hS : Isolated (soloSpec (fun _ : World => True) p) p := solo_isolated
  have hkept : Kept (soloSpec (fun _ : World => True) p) p
      (AtStore w.store.db w.store.history) := atStore_kept _
  have hupdate : Aside (updateOrderStatus order.publicId .delivered .trx (some .deliveredAt)) :=
    Prog.calls_do (calls_any trivial) fun _ _ =>
      Prog.calls_do (calls_any trivial) fun _ _ => calls_toEntity fun _ _ => trivial
  have hfirst : Reports p (updateOrderStatus order.publicId .delivered .trx (some .deliveredAt))
      (OnOk fun _ v => ∃ now, Open (AtStore w.store.db w.store.history) p
        [.setOrderStatus order.publicId .delivered (some .deliveredAt) now] v) w := by
    apply wp_updateFirst hS hkept ⟨⟨rfl, rfl⟩, hlog⟩
    intro e v o now v' _ _ _ _ _ hopen
    exact ⟨now, hopen.holds.holds, hopen.txn⟩
  apply wp_do
  apply wp_mono _ (wp_and hfirst (wp_aside hupdate (.refl w)))
  rintro (err | updated) w₁ ⟨hopen₁, hsame₁⟩
  · exact h.alike hsame₁
  obtain ⟨now, hat₁, hlog₁⟩ := hopen₁
  apply wp_do
  apply wp_mono _ (wp_and (wp_appends hS (fun _ ho => ho) calls_beside_settle hkept.rely
    (fun o e v r v' ho hi _ hx hv => ⟨hkept.step o e v r v' ho.any hi hx hv,
      fun _ _ => trivial⟩) hlog₁ hat₁) (wp_aside aside_settleDeliveredOrder hsame₁))
  rintro (err | _) w₂ ⟨⟨hat₂, _, ws, hlog₂, hoff⟩, hsame₂⟩
  · exact h.alike hsame₂
  apply wp_do
  apply reports_commit hlog₂
  · exact h.alike (hsame₂.trans ⟨rfl, rfl⟩)
  intro hreported
  have hlast : (w.store.db.carrier order.publicId).any
      (w.store.db.busyBesides order.publicId) = false := by
    rw [← hat₂.1]
    simpa using (List.all_eq_true.mp hreported) _ (List.mem_append_left _ (List.mem_singleton.mpr rfl))
  have howing : Owing region agentId false (w₂.committed p) := by
    refine h.update (publicIds_setOrderStatus .delivered (some .deliveredAt) now) ?_ ?_
      (busy_delivered h.unique ho hpicked hagent hlast)
    · simp only [World.committed, World.log_of_active hlog₂, hat₂.1, List.singleton_append,
        applyAll_cons]
      exact orders_applyAll (fun x hx => (hoff x hx).table) _
    · exact hsame₂.busy
  apply wp_do
  apply wp_mono _ (reports_markFree howing)
  rintro (err | _) w₃ h₃
  · exact h₃
  refine wp_aside_do (calls_emitDeliveryStatus fun _ => trivial) h₃ (fun _ _ hv => hv)
    fun _ w₄ h₄ => ?_
  exact wp_aside_do (calls_any trivial) h₄ (fun _ _ hv => hv) fun _ _ h₅ => h₅

theorem reports_deliver {order : OrderEntity} (h : Mirrored region w)
    (ho : w.store.db.order order.publicId = some order)
    (hagent : order.deliveryAgentId = some agentId) :
    Reports p (deliver cfg order agentId region) (Mirroring region) w := by
  unfold deliver
  split_ifs with hstatus
  · exact h
  apply wp_do
  apply wp_start solo_isolated
  · intro w₁ e hr _ _ _
    have hw₁ : w₁ = w := hr rfl
    rw [hw₁]
    exact h
  intro w₁ e hr _ _ _
  have hw₁ : w₁ = w := hr rfl
  subst hw₁
  apply wp_catch
  have h₁ : Mirrored region { w₁ with store := w₁.store.start p } := h.alike ⟨rfl, rfl⟩
  apply wp_mono _ (reports_deliverBody h₁ (World.start_txn w₁ p) ho hagent (not_not.mp hstatus))
  intro r w₂ h₂
  cases r with
  | ok updated => exact h₂
  | error err => exact reports_rollback h₂ fun _ _ hv => hv

theorem reports_agentUpdateStatus {action : DeliveryAction} (h : Mirrored region w) :
    Reports p (agentUpdateStatus cfg publicId agentId region action) (Mirroring region) w := by
  refine reports_find h (fun _ _ hv => hv) fun w₁ hstore₁ h₁ => ?_
  cases hfound : w.store.db.order publicId with
  | none => exact h₁
  | some order =>
    have ho₁ : w₁.store.db.order order.publicId = some order := by
      rw [hstore₁]
      exact order_publicId hfound
    dsimp only
    split_ifs with hagent
    · exact h₁
    cases action with
    | picked => exact reports_pickup h₁ ho₁
    | delivered => exact reports_deliver h₁ ho₁ (not_not.mp hagent)
    | _ => exact h₁

end Moving

section Result

variable (hmacSha256 : String → String → String) (cfg : Config) {region : String} {w : World}

theorem reports_call {p : Pid} {c : Call} (hc : c.moves region = true) (h : Mirrored region w) :
    Reports p (c.prog hmacSha256 cfg) (Mirroring region) w := by
  have hreply : ∀ {α : Type} {prog : Svc α} (f : α → Reply),
      Reports p prog (Mirroring region) w →
      Reports p (prog >>= fun a => pure (f a)) (Mirroring region) w := by
    intro α prog f hprog
    apply wp_do
    apply wp_mono _ hprog
    intro r v hv
    cases r <;> exact hv
  cases c with
  | updateStatus actor dto r orderId =>
    obtain rfl : r = region := by simpa [Call.moves] using hc
    exact hreply _ (reports_updateStatus h)
  | claim publicId agentId r =>
    obtain rfl : r = region := by simpa [Call.moves] using hc
    exact hreply _ (reports_claim h)
  | adminAssign publicId agentId r =>
    obtain rfl : r = region := by simpa [Call.moves] using hc
    exact hreply _ (reports_adminAssign h)
  | agentUpdateStatus publicId agentId r action =>
    obtain rfl : r = region := by simpa [Call.moves] using hc
    exact hreply _ (reports_agentUpdateStatus h)
  | _ => cases hc

theorem mirrored_call {n : Pid} {c : Call} {es : List Env} (hc : c.moves region = true)
    (hdone : (machine.runAlone n (c.prog hmacSha256 cfg) es w).1.isCrashed = false)
    (hreported : RunMeets machine (fun p o e w => reported p o e w = true) (fun _ => True) n
      (c.prog hmacSha256 cfg) es w)
    (h : Mirrored region w) :
    Mirrored region (machine.runAlone n (c.prog hmacSha256 cfg) es w).2 := by
  have hsound := runAlone_sound (fun _ _ => rfl) trivial (reports_call hmacSha256 cfg hc h) hreported
  cases hrun : machine.runAlone n (c.prog hmacSha256 cfg) es w with
  | mk outcome w' =>
    rw [hrun] at hsound hdone
    cases outcome with
    | returned a => exact hsound.2
    | threw err => exact hsound.2
    | crashed => cases hdone

theorem mirrored_run (moments : List Moment) {n : Pid}
    (hmoves : movesInTurn hmacSha256 cfg region n moments w = true)
    (hreported : ReportedInTurn hmacSha256 cfg n moments w) (h : Mirrored region w) :
    Mirrored region (runInTurn hmacSha256 cfg n moments w) := by
  induction moments generalizing n w with
  | nil => exact h
  | cons m moments ih =>
    cases m with
    | call c es =>
      simp only [movesInTurn, Bool.and_eq_true, Bool.not_eq_true'] at hmoves
      obtain ⟨⟨hc, hdone⟩, hrest⟩ := hmoves
      exact ih hrest hreported.2 (mirrored_call hmacSha256 cfg hc hdone hreported.1 h)
    | ext x =>
      refine ih hmoves hreported (h.alike ?_)
      cases x <;> exact ⟨rfl, rfl⟩

/-- After any calls one after another that assign orders or move them on, all of which complete:
Redis has those agents as busy who have an order on its way, as long as it is told of each change,
no agent delivers one of several orders, and no agent's last order leaves its way by the order
route. -/
theorem busy_mirrors_deliveries (moments : List Moment)
    (hunique : w.store.db.publicIds.Nodup) (hmirrors : w.MirrorsDeliveries region)
    (hmoves : movesInTurn hmacSha256 cfg region 0 moments w = true)
    (hreported : ReportedInTurn hmacSha256 cfg 0 moments w) :
    (runInTurn hmacSha256 cfg 0 moments w).MirrorsDeliveries region :=
  (mirrored_iff.mp (mirrored_run hmacSha256 cfg moments hmoves hreported
    (mirrored_iff.mpr ⟨hunique, hmirrors⟩))).2

end Result

section Samples

/-- An order that waits for an agent; nobody is busy. -/
def readyOrder : World where
  store := Store.ofDb
    { orders := [{ OrderEntity.sample "order-1" .ready with deliveryAgentId := none }]
      restaurantBalances := [⟨1, "eg", "EGP", 100⟩] }

theorem readyOrder_mirrors : readyOrder.MirrorsDeliveries "eg" := by
  intro agentId
  constructor
  · intro h
    cases h
  · rintro ⟨o, ho, hagent, _⟩
    obtain rfl : o = _ := List.mem_singleton.mp ho
    cases hagent

def assignedToSeven : Moment := .call (.adminAssign "order-1" 7 "eg") (List.replicate 20 {})

/-- Agent 7 brings the order that is assigned to him. -/
def broughtBySeven : List Moment :=
  [assignedToSeven,
   .call (.agentUpdateStatus "order-1" 7 "eg" .picked) (List.replicate 10 {}),
   .call (.agentUpdateStatus "order-1" 7 "eg" .delivered) (List.replicate 30 tenPercent)]

def admin : ActorContext := ⟨1, .systemAdmin, none, none, none⟩

/-- An admin cancels the order while it is on its way. -/
def cancelledByAdmin : List Moment :=
  [assignedToSeven,
   .call (.updateStatus admin ⟨.cancelled, some "closed"⟩ "eg" "order-1") (List.replicate 12 {})]

def busyAfter (moments : List Moment) : List (OrderStatus) × List (String × Nat) :=
  let w := runInTurn (fun _ _ => "") sampleConfig 0 moments readyOrder
  (w.store.db.orders.map OrderEntity.status, w.cache.busy)

theorem busy_mirrors_deliveries_brought : busyAfter broughtBySeven = ([.delivered], []) ∧
    (runInTurn (fun _ _ => "") sampleConfig 0 broughtBySeven readyOrder).MirrorsDeliveries "eg" := by
  refine ⟨by decide +kernel, ?_⟩
  exact busy_mirrors_deliveries _ sampleConfig broughtBySeven (by decide) readyOrder_mirrors
    (by decide +kernel) ⟨by decide +kernel, by decide +kernel, by decide +kernel, trivial⟩

/-- The order is cancelled, and its agent stays busy. -/
theorem busy_after_cancellation :
    movesInTurn (fun _ _ => "") sampleConfig "eg" 0 cancelledByAdmin readyOrder = true ∧
      busyAfter cancelledByAdmin = ([.cancelled], [("eg", 7)]) ∧
      ¬(runInTurn (fun _ _ => "") sampleConfig 0 cancelledByAdmin readyOrder).MirrorsDeliveries
        "eg" := by
  have hend : busyAfter cancelledByAdmin = ([.cancelled], [("eg", 7)]) := by decide +kernel
  refine ⟨by decide +kernel, hend, fun h => ?_⟩
  simp only [busyAfter, Prod.mk.injEq] at hend
  obtain ⟨hstatuses, hbusy⟩ := hend
  have hseven := (h 7).mp (by rw [hbusy]; exact List.mem_singleton.mpr rfl)
  obtain ⟨o, ho, _, hway⟩ := hseven
  have hstatus : o.status ∈ [OrderStatus.cancelled] := by
    rw [← hstatuses]
    exact List.mem_map.mpr ⟨o, ho, rfl⟩
  rw [List.mem_singleton.mp hstatus] at hway
  rcases hway with hway | hway <;> cases hway

end Samples

end OrderService
