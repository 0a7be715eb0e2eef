import OrderService.Rows
import OrderService.SettlementEffects
import OrderService.SettlementSpec

/-! The transaction of a delivery: the row it updates stays locked, and is as it was found, until
the settlement is committed with it. -/
namespace OrderService
open ReadCommitted Interleaving

section Rules
variable {ok : Pid → Op → Env → World → Prop} {S : Spec Pid World} {p : Pid} {F : World → Prop}
  {w : World} {publicId : String} {o : OrderEntity}

/-- The transaction of `p` holds the order, whose committed row is `o`. -/
structure Holding (F : World → Prop) (p : Pid) (publicId : String) (o : OrderEntity) (w : World) :
    Prop where
  locked : (.order publicId, p) ∈ w.store.locks
  row : w.store.db.order publicId = some o
  holds : F w

theorem holding_kept (hS : Isolated S p) (hF : Kept S p F) :
    Kept S p (Holding F p publicId o) where
  rely w w' hr h := by
    have hrely := (hS.sees w w' hr).1
    have hsame : w'.store.db.order publicId = w.store.db.order publicId :=
      hrely.reads_eq (order_reads publicId) h.locked
    exact ⟨(hrely.locks _).mpr h.locked, hsame.trans h.row, hF.rely w w' hr h.holds⟩
  step op e w r w' hop hi hx h := by
    obtain ⟨hdb, _, hlocks⟩ := exec_appends hop hx
    exact ⟨hlocks _ h.locked, by rw [hdb]; exact h.row, hF.step op e w r w' hop hi hx h.holds⟩

/-- An update of a status, in a transaction that has not touched the orders yet. -/
theorem wp_updateHeld (hS : Isolated S p) (hF : Kept S p F) {log : List Write}
    (hlog : ∀ x ∈ log, x.table ≠ .orders) (h : Open F p log w) {status : OrderStatus}
    {stamp : Option Stamp} {P : OrderEntity → World → Prop}
    (hP : ∀ e v o now w', v.store.txn p = .active log → v.seen p = w.seen p → F v →
      ok p (.sql .trx (.updateOrderStatus publicId status stamp now)) e v →
      v.store.db.order publicId = some o →
      Open (Holding F p publicId o) p (log ++ [.setOrderStatus publicId status stamp now]) w' →
      P (o.withStatus status stamp now) w') :
    wp machine ok S p (updateOrderStatus publicId status .trx stamp) (OnOk P) w := by
  apply wp_seq
  apply wp_now_ok hS
  intro w₁ hr₁ _
  have hseen₁ : w₁.seen p = w.seen p := (hS.sees w w₁ hr₁).2
  have hlog₁ : w₁.store.txn p = .active log := (hS.sees w w₁ hr₁).1.txn.trans h.txn
  apply wp_seq
  apply wp_perform
  intro w₂ hr₂ hi₂ e r w₃ hok hx
  rw [machine_exec] at hx
  have hF₂ : F w₂ := hF.rely w₁ w₂ hr₂ (hF.rely w w₁ hr₁ h.holds)
  have hF₃ : F w₃ := hF.step _ e w₂ r w₃ (fun _ _ => trivial) hi₂ hx hF₂
  have hlog₂ : w₂.store.txn p = .active log := (hS.sees w₁ w₂ hr₂).1.txn.trans hlog₁
  refine ⟨hS.quiet _ e w₂ r w₃ rfl hi₂ hx, hS.guarantee _ e w₂ r w₃ hi₂ hx, ?_⟩
  by_cases hf : e.fail = true
  · simp only [exec, hf, if_true, Option.some.injEq, Prod.mk.injEq] at hx
    rw [← hx.1]
    trivial
  obtain ⟨hreply, rfl⟩ := exec_trx hlog₂ (Bool.eq_false_iff.mpr hf) hx
  have hview : w₂.view p = engine.applyAll log w₂.store.db := by
    rw [World.view_eq, World.log_of_active hlog₂]
  rw [World.inTrx, hview] at hreply
  rcases r with err | row
  · trivial
  apply wp_toEntity
  rintro updated rfl
  -- A row came back, so the order is there; its row is locked now.
  obtain ⟨hwrites, o, ho, rfl⟩ := updateOrderStatus_reply hreply.symm
  rw [Db.order, orders_applyAll hlog] at ho
  have hanswer : (w₂.inTrx p (.updateOrderStatus publicId status stamp w₁.clock)).writes
      = [.setOrderStatus publicId status stamp w₁.clock] := by
    rw [World.inTrx, hview]
    exact hwrites
  refine hP e w₂ o w₁.clock _ hlog₂ ((hS.sees w₁ w₂ hr₂).2.trans hseen₁) hF₂ hok ho
    ⟨⟨?_, ho, hF₃⟩, ?_⟩
  · apply World.mem_queried_locks
    simp [Engine.keys, hanswer, engine, Write.key]
  · rw [World.queried_txn, hanswer, World.log_of_active hlog₂]

/-- The first statement of a transaction that updates a status. -/
theorem wp_updateFirst (hS : Isolated S p) (hF : Kept S p F) (h : Open F p [] w)
    {status : OrderStatus} {stamp : Option Stamp} {P : OrderEntity → World → Prop}
    (hP : ∀ e v o now w', v.store.txn p = .active [] → v.seen p = w.seen p → F v →
      ok p (.sql .trx (.updateOrderStatus publicId status stamp now)) e v →
      v.store.db.order publicId = some o →
      Open (Holding F p publicId o) p [.setOrderStatus publicId status stamp now] w' →
      P (o.withStatus status stamp now) w') :
    wp machine ok S p (updateOrderStatus publicId status .trx stamp) (OnOk P) w :=
  wp_updateHeld hS hF (fun _ hx => absurd hx List.not_mem_nil) h hP

/-- What follows the commit of a delivery. -/
theorem calls_afterDelivery {updated : OrderEntity} {agentId : Nat} {region publicId : String} :
    (do markFree agentId region
        emitDeliveryStatus updated
        let _ ← cache (.del (.claim publicId))
        pure updated : Svc OrderEntity).Calls (fun o => o.outer = true) (fun _ _ => True)
      fun _ => True := by
  apply Prog.calls_do (calls_outer rfl)
  intro _ _
  apply Prog.calls_do (calls_emitDeliveryStatus fun _ => rfl)
  intro _ _
  exact Prog.calls_discard (calls_outer rfl) trivial

/-- The settlement is committed together with the writes before it. `After` is what the commit
establishes. -/
theorem wp_settleAndCommit (hS : Isolated S p) (hF : Kept S p F) {log : List Write}
    (h : Open F p log w) (rate : Int → Prop) (hrate : AllowsRate ok p rate) (cfg : Config)
    {order : OrderEntity} {agentId : Nat} {α : Type} {tail : Svc α}
    (htail : tail.Calls (fun o => o.outer = true) (fun _ _ => True) fun _ => True)
    (After : World → Prop) (hrely : ∀ w w', S.rely p w w' → After w → After w')
    (hstore : ∀ w w' : World, w'.store = w.store → After w → After w')
    (hcommit : ∀ w₁ bps
      (s : Settlement (Seen F) log order agentId cfg.agentEarningShareBps bps),
      rate bps → S.inv w₁ → Open F p (log ++ s.writes) w₁ →
      S.inv (w₁.committed p) ∧ After (w₁.committed p)) :
    wp machine ok S p (do
      let _ ← settleDeliveredOrder cfg order agentId .trx
      commit
      tail) (OnOk fun _ w' => After w') w := by
  apply wp_seq
  apply wp_mono _ (wp_settleDeliveredOrder hS hF h hrate cfg)
  rintro (err | _) w₁ h₁
  · trivial
  obtain ⟨bps, hbps, s, hopen⟩ := h₁
  apply wp_seq
  apply wp_commit_ok hS hopen.txn
  intro w₂ hr₂ hi₂ hlog₂
  have hcommitted := hcommit w₂ bps s hbps hi₂ ⟨hF.rely w₁ w₂ hr₂ hopen.holds, hlog₂⟩
  exact ⟨hcommitted.1, wp_outside_keeps hS hrely hstore htail (fun _ _ hafter => hafter)
    hcommitted.2⟩

end Rules

/-- A cash order on its way, to run deliveries on. -/
def pickedOrder : World :=
  { store := Store.ofDb
      { orders := [OrderEntity.sample "order-1" .picked]
        restaurantBalances := [⟨1, "eg", "EGP", 100⟩] } }

def tenPercent : Env := { branch := { Env.branch {} with commissionBps := some 1000 } }

end OrderService
