import OrderService.Effects
import OrderService.Rows
import OrderService.Services.Assignment

/-! The two ways to assign an order commit nothing but a guarded assignment. -/
namespace OrderService
open ReadCommitted Interleaving

section Programs
variable {I : Db → List (Pid × List Write) → Prop} {ok : Pid → Op → Env → World → Prop} {p : Pid}
  {w : World} {publicId : String} {agentId : Nat}

/-- The invariant is kept by the commit of an assignment of an order that can be claimed. -/
def KeptByAssign (I : Db → List (Pid × List Write) → Prop) (p : Pid) (publicId : String)
    (agentId : Nat) : Prop :=
  ∀ db history o now, I db history → db.claimableOrder publicId = some o →
    I (engine.applyAll [.assignOrder publicId agentId now] db)
      (history ++ [(p, [.assignOrder publicId agentId now])])

theorem calls_releaseClaim : (releaseClaim publicId).Calls (fun o => o.outer = true)
    (fun _ _ => True) fun _ => True :=
  Prog.calls_do (calls_outer rfl) fun _ _ => trivial

theorem calls_forM_emit {agents : List Nat} {event : SocketEvent} :
    (agents.forM fun a => emit (.agent a) event publicId).Calls (fun o => o.outer = true)
      (fun _ _ => True) fun _ => True := by
  induction agents with
  | nil => trivial
  | cons a agents ih => exact Prog.calls_do (calls_outer rfl) fun _ _ => ih

/-- What follows the commit only tells Redis, core and the sockets. -/
theorem calls_afterAssignment {updated : OrderEntity} {region : String} {losers : List Nat} :
    (afterAssignment publicId updated agentId region losers).Calls (fun o => o.outer = true)
      (fun _ _ => True) fun _ => True := by
  apply Prog.calls_do (calls_outer rfl)
  intro _ _
  apply Prog.calls_do (Q := fun _ => True)
  · apply Prog.calls_catch
    · exact Prog.calls_do (calls_outer rfl) fun _ _ => trivial
    · exact fun _ => trivial
  intro branch _
  apply Prog.calls_do (Q := fun _ => True)
  · apply Prog.calls_do (calls_outer rfl)
    intro _ _
    apply Prog.calls_do calls_forM_emit
    intro _ _
    exact Prog.calls_do (calls_outer rfl) fun _ _ => calls_outer rfl
  intro _ _
  exact Prog.calls_do (calls_outer rfl) fun _ _ => trivial

theorem claimReady_reply {seqs : Seqs} {clock now : Time} {db : Db} {row : OrderEntity}
    (h : (Sql.eval seqs clock (.claimReadyOrderForAgent publicId agentId now) db).reply
      = .ok (some row)) :
    (Sql.eval seqs clock (.claimReadyOrderForAgent publicId agentId now) db).writes
      = [.assignOrder publicId agentId now] ∧
    ∃ o, db.claimableOrder publicId = some o := by
  simp only [Sql.eval] at h ⊢
  cases hfind : db.claimableOrder publicId with
  | none =>
    rw [hfind] at h
    simp [reading] at h
  | some o => exact ⟨rfl, o, rfl⟩

/-- From the guarded update to the commit the row stays locked, so at the commit the order is
still free. -/
theorem wp_takeOrder (hI : KeptByAssign I p publicId agentId)
    (hlog : w.store.txn p = .active []) :
    wp machine ok (sharedSpec I) p (takeOrder publicId agentId)
      (OnOk fun _ _ => True) w := by
  have hS := sharedSpec_isolated I p
  apply wp_seq
  apply wp_seq
  apply wp_now_ok hS
  intro w₁ hr₁ _
  have hlog₁ : w₁.store.txn p = .active [] := (hS.sees _ _ hr₁).1.txn.trans hlog
  apply wp_trx_ok hS hlog₁
  intro w₂ e claimed hr₂ hi₂ hlog₂ _ _ hreply
  cases claimed with
  | none =>
    apply wp_seq
    exact wp_outside hS calls_releaseClaim fun _ _ => trivial
  | some row =>
    have hview : w₂.view p = w₂.store.db := by
      rw [World.view_eq, World.log_of_active hlog₂, applyAll_nil]
    rw [World.inTrx, hview] at hreply
    obtain ⟨hwrites, o, hfind⟩ := claimReady_reply hreply
    have hanswer : (w₂.inTrx p (.claimReadyOrderForAgent publicId agentId w₁.clock)).writes
        = [.assignOrder publicId agentId w₁.clock] := by
      rw [World.inTrx, hview]
      exact hwrites
    have hlocked : (Key.order publicId, p) ∈
        (w₂.queried p (.claimReadyOrderForAgent publicId agentId w₁.clock)).store.locks := by
      apply World.mem_queried_locks
      simp [Engine.keys, hanswer, engine, Write.key]
    have hlog₃ : (w₂.queried p (.claimReadyOrderForAgent publicId agentId w₁.clock)).store.txn p
        = .active [.assignOrder publicId agentId w₁.clock] := by
      rw [World.queried_txn, hanswer, World.log_of_active hlog₂, List.nil_append]
    apply wp_seq
    apply wp_commit_shared hlog₃
    intro w₄ hr₄ hi₄ _
    have hsame : w₄.store.db.claimableOrder publicId = w₂.store.db.claimableOrder publicId :=
      (hS.sees _ _ hr₄).1.reads_eq (claimable_reads publicId) hlocked
    exact ⟨hI _ _ o w₁.clock hi₄.2 (hsame.trans hfind), trivial⟩

theorem wp_releasingOnError {body : Svc OrderEntity}
    (hbody : wp machine ok (sharedSpec I) p body (OnOk fun _ _ => True) w) :
    wp machine ok (sharedSpec I) p (releasingOnError publicId body)
      (OnOk fun _ _ => True) w := by
  have hS := sharedSpec_isolated I p
  apply wp_catch_ok hbody
  intro err w₁
  apply wp_seq
  apply wp_rollback hS
  intro w₂ _ _ _
  apply wp_seq
  exact wp_outside hS calls_releaseClaim fun _ _ => trivial

theorem wp_afterAssignment {updated : OrderEntity} {region : String} {losers : List Nat} :
    wp machine ok (sharedSpec I) p
      (afterAssignment publicId updated agentId region losers) (OnOk fun _ _ => True) w :=
  wp_outside (sharedSpec_isolated _ p) calls_afterAssignment fun _ _ => trivial

theorem wp_claim (hI : KeptByAssign I p publicId agentId)
    (cfg : Config) (region : String) :
    wp machine ok (sharedSpec I) p (claim cfg publicId agentId region)
      (OnOk fun _ _ => True) w := by
  have hS := sharedSpec_isolated I p
  apply wp_seq
  apply wp_outer_ok hS rfl
  intro w₁ e offered w₂ _ _ _ _ _ _ _ _
  cases offered with
  | none => trivial
  | some value =>
    dsimp only
    split_ifs
    case neg => trivial
    apply wp_seq
    apply wp_outer_ok hS rfl
    intro w₃ e ok w₄ _ _ _ _ _ _ _ _
    split_ifs
    · trivial
    apply wp_seq
    apply wp_start_ok hS
    intro w₅ _ _ _
    apply wp_seq
    apply wp_mono _ (wp_releasingOnError (w := { w₅ with store := w₅.store.start p }) ?_)
    · intro r w₆ _
      cases r with
      | error err => trivial
      | ok updated => exact wp_afterAssignment
    apply wp_seq
    apply wp_trx_ok hS (World.start_txn w₅ p)
    intro w₆ e order _ _ hlog₆ _ _ _
    have hlog₇ := World.queried_txn_of_read (q := .findOrderByPublicId publicId) hlog₆ rfl
    cases order with
    | none =>
      apply wp_seq
      exact wp_outside hS calls_releaseClaim fun _ _ => trivial
    | some o => exact wp_takeOrder hI hlog₇

theorem wp_adminAssign (hI : KeptByAssign I p publicId agentId)
    (cfg : Config) (region : String) :
    wp machine ok (sharedSpec I) p
      (adminAssign cfg publicId agentId region) (OnOk fun _ _ => True) w := by
  have hS := sharedSpec_isolated I p
  apply wp_seq
  apply wp_outer_ok hS rfl
  intro w₁ e ok w₂ _ _ _ _ _ _ _ _
  split_ifs
  · trivial
  apply wp_seq
  apply wp_start_ok hS
  intro w₃ _ _ _
  apply wp_seq
  apply wp_mono _ (wp_releasingOnError (wp_takeOrder hI (World.start_txn w₃ p)))
  intro r w₄ _
  cases r with
  | error err => trivial
  | ok updated => exact wp_afterAssignment

end Programs

end OrderService
