import OrderService.Broadcasts
import OrderService.CallEffects
import OrderService.OneWinner

/-! An agent has one order to deliver at most, unless a claim commits while its agent has another
one, or a pickup comes back to an order that is delivered. -/
namespace OrderService
open ReadCommitted Interleaving

section Visible

variable {p : Pid} {o : Op} {e : Env} {w w' : World} {r : Except Err o.Res} {H : Write → Prop}

/-- The writes that an operation makes visible to all. -/
def Op.visible (p : Pid) (w : World) : Op → List Write
  | .commit => w.log p
  | .sql .pool q => (w.onPool q).writes
  | _ => []

theorem exec_visible (hx : exec p o e w = some (r, w')) :
    w'.store.db = w.store.db ∨ w'.store.db = engine.applyAll (o.visible p w) w.store.db := by
  by_cases hcommits : o.commits = false
  · exact .inl (exec_quiet hx hcommits).1
  have hs := exec_store hx
  cases o with
  | sql c q =>
    cases c with
    | trx => exact absurd rfl hcommits
    | pool =>
      rcases hs with hs | ⟨a, hs⟩
      · exact .inl (by rw [hs])
      · obtain ⟨_, _, hs⟩ := autocommit_cases hs
        exact .inr (by rw [hs]; rfl)
  | commit =>
    rcases hs with hs | hs | hs
    · exact .inl (by rw [hs]; rfl)
    · exact .inl (by rw [hs])
    · obtain ⟨log, hactive, hs⟩ := commit_cases hs
      right
      rw [hs, Op.visible, World.log_of_active hactive]
  | _ => exact absurd rfl hcommits

/-- The tables satisfy `I`, and the open transactions hold only writes that satisfy `H`. -/
structure VisibleInv (I : Db → Prop) (H : Write → Prop) (w : World) : Prop where
  locked : Locked engine w.store
  logs : ∀ p, ∀ x ∈ w.log p, H x
  tables : I w.store.db

theorem VisibleInv.exec {I : Db → Prop} (h : VisibleInv I H w) (ho : o.Harmless H)
    (hI : (∀ x ∈ o.visible p w, H x) → I (engine.applyAll (o.visible p w) w.store.db))
    (hx : exec p o e w = some (r, w')) : VisibleInv I H w' := by
  have hvisible : ∀ x ∈ o.visible p w, H x := by
    intro x hmem
    unfold Op.visible at hmem
    split at hmem
    · exact h.logs p x hmem
    · exact ho x (Sql.mayWrite_of_mem hmem)
    · cases hmem
  refine ⟨exec_locked h.locked hx, fun q => ?_, ?_⟩
  · by_cases hq : q = p
    · subst hq
      exact log_exec hx ho (h.logs q)
    · rw [World.log, (exec_rely h.locked hx hq).txn]
      exact h.logs q
  · rcases exec_visible hx with hdb | hdb
    · rw [hdb]
      exact h.tables
    · rw [hdb]
      exact hI hvisible

/-- What all allowed writes keep when they become visible holds in every interleaving. -/
theorem keeps_visible {α : Type} {I : Db → Prop} {ok : Pid → Op → Env → World → Prop}
    {s t : Sys Pid Op Op.Res Err World α}
    (hI : ∀ p o e w, ok p o e w → (∀ x ∈ o.visible p w, H x) → I w.store.db →
      I (engine.applyAll (o.visible p w) w.store.db))
    (hcalls : ∀ p prog, s.procs p = some prog → Within H prog) (hs : s.world.AtRest)
    (hinit : I s.world.store.db) (h : machine.Reaches ok s t) : I t.world.store.db := by
  have hstart : VisibleInv I H s.world := by
    refine ⟨hs.locked, fun p x hx => ?_, hinit⟩
    rw [World.log, hs.txn p] at hx
    cases hx
  have hend : VisibleInv I H t.world := by
    refine Machine.Reaches.keeps_calls (P := fun _ => Op.Harmless H) hcalls ?_ ?_ ?_ hstart h
    · exact fun p o e w r w' ho hok hw hx =>
        hw.exec ho (fun hvisible => hI p o e w hok hvisible hw.tables) hx
    · intro p w hw
      refine ⟨rollback_locked hw.locked, fun q x hx => ?_, hw.tables⟩
      by_cases hq : q = p
      · subst hq
        have hnone : World.log { w with store := w.store.rollback q } q = [] := by
          simp [World.log, Store.rollback, Txn.log]
        have hx' : x ∈ World.log { w with store := w.store.rollback q } q := hx
        rw [hnone] at hx'
        cases hx'
      · apply hw.logs q
        have hrely : Rely engine q w.store (w.store.rollback p) := rollback_rely hq
        rw [World.log, ← hrely.txn]
        exact hx
    · intro x w hw
      cases x <;> exact ⟨hw.locked, hw.logs, hw.tables⟩
  exact hend.tables

end Visible

section Statement

/-- The order is on its way with its agent. -/
def OrderEntity.underway (o : OrderEntity) : Bool := o.status = .assigned || o.status = .picked

/-- The agent has an order that is on its way. -/
def Db.busy (db : Db) (agentId : Nat) : Bool :=
  db.orders.any fun o => o.underway && o.deliveryAgentId = some agentId

/-- No agent has two orders that are on their way. -/
def Db.OneEach (db : Db) : Prop :=
  ∀ o ∈ db.orders, ∀ o' ∈ db.orders, o.underway = true → o'.underway = true → ∀ agentId,
    o.deliveryAgentId = some agentId → o'.deliveryAgentId = some agentId →
    o.publicId = o'.publicId

/-- An assignment finds its agent free; a pickup finds the order on its way, or its agent free. -/
def Write.finds (db : Db) : Write → Bool
  | .assignOrder _ agentId _ => !db.busy agentId
  | .setOrderStatus publicId .picked _ _ => db.orders.all fun o =>
      o.publicId ≠ publicId || o.underway || !o.deliveryAgentId.any db.busy
  | _ => true

/-- Each write of a transaction finds that, after those before it. -/
def writesFind (db : Db) : List Write → Bool
  | [] => true
  | x :: log => x.finds db && writesFind (engine.apply x db) log

def AgentFree (p : Pid) (o : Op) (_ : Env) (w : World) : Prop :=
  writesFind w.store.db (o.visible p w) = true

/-- The pieces of work that bring an order from its offer to its delivery. -/
def Work.delivers : Work → Bool
  | .call (.claim ..) => true
  | .call (.agentUpdateStatus ..) => true
  | .tickRegion _ => true
  | .rejectOffer .. => true
  | _ => false

/-- What such a piece of work can write. -/
def Write.Delivers : Write → Prop
  | .insertOrder _ => False
  | .setOrderStatus _ status _ _ => status = .picked ∨ status = .delivered
  | _ => True

end Statement

section Rows

variable {db : Db} {x : Write} {agentId : Nat} {o : OrderEntity} {log : List Write}

theorem busy_of_mem (ho : o ∈ db.orders) (hunderway : o.underway = true)
    (hagent : o.deliveryAgentId = some agentId) : db.busy agentId = true :=
  List.any_eq_true.mpr ⟨o, ho, by simp [hunderway, hagent]⟩

theorem oneEach_of_orders {db' : Db} (horders : db'.orders = db.orders) (h : db.OneEach) :
    db'.OneEach := by
  unfold Db.OneEach
  rw [horders]
  exact h

/-- What a row was before a write that changes the rows of one order alone. -/
theorem oneEach_map (h : db.OneEach) {f : OrderEntity → OrderEntity} {publicId : String}
    (hother : ∀ o ∈ db.orders, f o = o ∨ o.publicId = publicId)
    (hpublicId : ∀ o, (f o).publicId = o.publicId)
    (hfree : ∀ o ∈ db.orders, ∀ agentId, f o ≠ o → (f o).underway = true →
      (f o).deliveryAgentId = some agentId →
      db.busy agentId = false ∨ o.underway = true ∧ o.deliveryAgentId = some agentId) :
    Db.OneEach { db with orders := db.orders.map f } := by
  intro a ha b hb haway hbway agentId haagent hbagent
  obtain ⟨o, ho, rfl⟩ := List.mem_map.mp ha
  obtain ⟨o', ho', rfl⟩ := List.mem_map.mp hb
  rw [hpublicId, hpublicId]
  -- A changed row and an unchanged one of the same agent are rows of one order.
  have hmixed : ∀ c ∈ db.orders, ∀ d ∈ db.orders, f c ≠ c → f d = d → (f c).underway = true →
      d.underway = true → (f c).deliveryAgentId = some agentId →
      d.deliveryAgentId = some agentId → c.publicId = d.publicId := by
    intro c hc d hd hchanged hsame hcway hdway hcagent hdagent
    rcases hfree c hc agentId hchanged hcway hcagent with hidle | ⟨hway, hagent⟩
    · rw [busy_of_mem hd hdway hdagent] at hidle
      cases hidle
    · exact h c hc d hd hway hdway agentId hagent hdagent
  by_cases hf : f o = o
  · by_cases hf' : f o' = o'
    · rw [hf] at haway haagent
      rw [hf'] at hbway hbagent
      exact h o ho o' ho' haway hbway agentId haagent hbagent
    · rw [hf] at haway haagent
      exact (hmixed o' ho' o ho hf' hf hbway haway hbagent haagent).symm
  · by_cases hf' : f o' = o'
    · rw [hf'] at hbway hbagent
      exact hmixed o ho o' ho' hf hf' haway hbway haagent hbagent
    · have hid : o.publicId = publicId := (hother o ho).resolve_left hf
      have hid' : o'.publicId = publicId := (hother o' ho').resolve_left hf'
      exact hid.trans hid'.symm

theorem oneEach_apply (h : db.OneEach) (hx : x.Delivers) (hfinds : x.finds db = true) :
    (engine.apply x db).OneEach := by
  cases x with
  | insertOrder row => exact absurd hx id
  | assignOrder publicId agentId now =>
    have hfree : db.busy agentId = false := by simpa [Write.finds] using hfinds
    apply oneEach_map h
    · intro o _
      by_cases ho : o.publicId = publicId ∧ o.claimable = true
      · exact .inr ho.1
      · exact .inl (if_neg ho)
    · intro o
      split_ifs <;> rfl
    · intro o _ agentId' hchanged _ hagent
      by_cases ho : o.publicId = publicId ∧ o.claimable = true
      · rw [if_pos ho] at hagent
        cases hagent
        exact .inl hfree
      · exact absurd (if_neg ho) hchanged
  | setOrderStatus publicId status stamp now =>
    have hagentOf : ∀ o : OrderEntity,
        (if o.publicId = publicId then o.withStatus status stamp now else o).deliveryAgentId
          = o.deliveryAgentId := by
      intro o
      split_ifs
      · exact withStatus_deliveryAgentId o status stamp now
      · rfl
    apply oneEach_map h
    · intro o _
      by_cases ho : o.publicId = publicId
      · exact .inr ho
      · exact .inl (if_neg ho)
    · intro o
      split_ifs
      · exact withStatus_publicId o status stamp now
      · rfl
    · intro o ho agentId hchanged hway hagent
      rw [hagentOf] at hagent
      have hid : o.publicId = publicId := by
        by_contra hne
        exact hchanged (if_neg hne)
      rw [if_pos hid] at hway
      rcases hx with rfl | rfl
      · -- The pickup finds its order on the way, or the agent free.
        have hfound := List.all_eq_true.mp hfinds o ho
        simp only [hid, ne_eq, not_true_eq_false, decide_false, Bool.false_or, hagent,
          Option.any_some, Bool.or_eq_true, Bool.not_eq_true'] at hfound
        rcases hfound with hunderway | hidle
        · exact .inr ⟨hunderway, hagent⟩
        · exact .inl hidle
      · simp [OrderEntity.underway] at hway
  | _ => exact oneEach_of_orders rfl h

theorem oneEach_applyAll (h : db.OneEach) (hlog : ∀ x ∈ log, x.Delivers)
    (hfind : writesFind db log = true) : (engine.applyAll log db).OneEach := by
  induction log generalizing db with
  | nil => exact h
  | cons x log ih =>
    obtain ⟨hx, hrest⟩ := Bool.and_eq_true_iff.mp hfind
    rw [applyAll_cons]
    exact ih (oneEach_apply h (hlog x List.mem_cons_self) hx)
      (fun y hy => hlog y (List.mem_cons_of_mem x hy)) hrest

end Rows

section Result

variable (hmacSha256 : String → String → String) (cfg : Config)

theorem within_delivers {piece : Work} (h : piece.delivers = true) :
    Within Write.Delivers (piece.prog hmacSha256 cfg) := by
  cases piece with
  | tickRegion region => exact within_do within_tickRegion fun _ => trivial
  | rejectOffer publicId agentId => exact within_rejectOffer
  | updatePosition publicId agentId => cases h
  | call c =>
    have hcall : Within c.MayWrite (c.prog hmacSha256 cfg) := within_mayWrite hmacSha256 cfg c
    refine within_do (hcall.weaken fun o ho => ?_) fun _ => trivial
    have hwrites : ∀ x, c.MayWrite x → x.Delivers := by
      intro x hx
      cases c with
      | claim publicId agentId region =>
        obtain ⟨now, rfl⟩ := hx
        trivial
      | agentUpdateStatus publicId agentId region action =>
        cases action with
        | picked =>
          obtain ⟨orderId, stamp, now, rfl⟩ := hx
          exact .inl rfl
        | delivered =>
          rcases hx with ⟨orderId, stamp, now, rfl⟩ | ⟨order, hsettles⟩
          · exact .inr rfl
          · cases hsettles <;> trivial
        | _ => exact absurd hx id
      | _ => cases h
    cases o with
    | sql c q => exact fun x hx => hwrites x (ho x hx)
    | _ => trivial

/-- In every interleaving of ticks, claims, rejects, pickups and deliveries no agent has two orders
on their way, as long as no claim commits while its agent has another order, and no pickup brings
an order back that is not on its way to an agent who has another one. -/
theorem one_active_delivery {w : World} (hw : w.AtRest) (hone : w.store.db.OneEach)
    (work : Pid → Option Work) (hwork : ∀ p piece, work p = some piece → piece.delivers = true)
    {t : Sys Pid Op Op.Res Err World Unit}
    (h : machine.Reaches AgentFree (working hmacSha256 cfg work w) t) :
    t.world.store.db.OneEach := by
  refine keeps_visible (H := Write.Delivers) ?_ ?_ hw hone h
  · exact fun p o e w hok hvisible hI => oneEach_applyAll hI hvisible hok
  · intro p prog hp
    obtain ⟨piece, hpiece, rfl⟩ := Option.map_eq_some_iff.mp hp
    exact within_delivers hmacSha256 cfg (hwork p piece hpiece)

/-- Two orders are offered to the agents 7 and 8. -/
def twoOffers : World where
  store := Store.ofDb
    { orders := [{ OrderEntity.sample "order-1" .ready with deliveryAgentId := none },
        { OrderEntity.sample "order-2" .ready with id := 2, deliveryAgentId := none }] }
  cache := (Cache.set {} (.offer "order-1") (some (.ids [7, 8]))).set (.offer "order-2")
    (some (.ids [7, 8]))

/-- Agent 7 accepts the first order and rejects the second, which agent 8 accepts. -/
def oneOrderEach : Pid → Option Work
  | 0 => some (.call (.claim "order-1" 7 "eg"))
  | 1 => some (.rejectOffer "order-2" 7)
  | 2 => some (.call (.claim "order-2" 8 "eg"))
  | _ => none

/-- Agent 7 accepts both. -/
def bothAccepted : Pid → Option Work
  | 0 => some (.call (.claim "order-1" 7 "eg"))
  | 1 => some (.call (.claim "order-2" 7 "eg"))
  | _ => none

def stepsOf (p : Pid) (n : Nat) : List (Label Pid Env Ext) := List.replicate n (.act p {})

def deliveries (t : Sys Pid Op Op.Res Err World Unit) : List (String × OrderStatus × Option Nat) :=
  t.world.store.db.orders.map fun o => (o.publicId, o.status, o.deliveryAgentId)

theorem twoOffers_oneEach : twoOffers.store.db.OneEach := by
  have hidle : twoOffers.store.db.orders.all fun o => !o.underway := by decide
  intro o ho o' _ hway
  have hno := List.all_eq_true.mp hidle o ho
  rw [hway] at hno
  cases hno

theorem one_active_delivery_each : ∃ t : Sys Pid Op Op.Res Err World Unit,
    deliveries t = [("order-1", .assigned, some 7), ("order-2", .assigned, some 8)] ∧
      t.world.store.db.OneEach := by
  have hrun : (machine.run (fun p o _ w => writesFind w.store.db (o.visible p w))
      (stepsOf 0 14 ++ stepsOf 1 3 ++ stepsOf 2 13)
      (working (fun _ _ => "") sampleConfig oneOrderEach twoOffers)).map deliveries
        = some [("order-1", .assigned, some 7), ("order-2", .assigned, some 8)] := by
    decide +kernel
  obtain ⟨t, ht, hend⟩ := Option.map_eq_some_iff.mp hrun
  have hreach : machine.Reaches AgentFree
      (working (fun _ _ => "") sampleConfig oneOrderEach twoOffers) t :=
    Machine.reaches_of_run (fun _ _ _ _ h => h) _ ht
  have hwork : ∀ p piece, oneOrderEach p = some piece → piece.delivers = true := by
    intro p piece hpiece
    unfold oneOrderEach at hpiece
    split at hpiece <;> cases hpiece <;> rfl
  have hrest : twoOffers.AtRest := ⟨rfl, fun _ => rfl, rfl⟩
  exact ⟨t, hend, one_active_delivery _ sampleConfig hrest twoOffers_oneEach oneOrderEach hwork
    hreach⟩

/-- An agent to whom two orders were offered at the same time accepts both. -/
theorem both_accepted : ∃ t : Sys Pid Op Op.Res Err World Unit,
    machine.Reaches anyOp (working (fun _ _ => "") sampleConfig bothAccepted twoOffers) t ∧
      (∀ p piece, bothAccepted p = some piece → piece.delivers = true) ∧
      deliveries t = [("order-1", .assigned, some 7), ("order-2", .assigned, some 7)] := by
  have hrun : (machine.run (fun _ _ _ _ => true) (stepsOf 0 14 ++ stepsOf 1 14)
      (working (fun _ _ => "") sampleConfig bothAccepted twoOffers)).map deliveries
        = some [("order-1", .assigned, some 7), ("order-2", .assigned, some 7)] := by
    decide +kernel
  obtain ⟨t, ht, hend⟩ := Option.map_eq_some_iff.mp hrun
  refine ⟨t, Machine.reaches_of_run (fun _ _ _ _ _ => trivial) _ ht, fun p piece hpiece => ?_, hend⟩
  unfold bothAccepted at hpiece
  split at hpiece <;> cases hpiece <;> rfl

end Result

end OrderService
