import OrderService.Interleaving.Budget
import OrderService.Ownership
import OrderService.SerialIds

/-! How many writes of a kind a call has come to: those it committed and those in its open
transaction. -/
namespace OrderService
open ReadCommitted Interleaving

section Statement

/-- The writes that call `p` has committed. -/
def batchesOf (p : Pid) (history : List (Pid × List Write)) : List Write :=
  (history.filter fun b => b.1 = p).flatMap Prod.snd

/-- How many writes of the kind the call has made, apart from those that were rolled back. -/
def World.made (kind : Write → Bool) (p : Pid) (w : World) : Nat :=
  (batchesOf p w.store.history).countP kind + (w.log p).countP kind

/-- `cost` bounds the writes of the kind that one statement makes. -/
def Prices (cost : Op → Nat) (kind : Write → Bool) : Prop :=
  ∀ c (q : Sql) seqs clock db, (q.eval seqs clock db).writes.countP kind ≤ cost (.sql c q)

end Statement

section Steps
variable {p q : Pid} {o : Op} {e : Env} {w w' : World} {r : Except Err o.Res}
  {kind : Write → Bool} {cost : Op → Nat}

theorem batchesOf_append_self (history : List (Pid × List Write)) (ws : List Write) :
    batchesOf p (history ++ [(p, ws)]) = batchesOf p history ++ ws := by
  simp [batchesOf]

theorem batchesOf_append_other {bs : List (Pid × List Write)} (hbs : ∀ b ∈ bs, b.1 = p)
    (hqp : q ≠ p) (history : List (Pid × List Write)) :
    batchesOf q (history ++ bs) = batchesOf q history := by
  have hnone : bs.filter (fun b => decide (b.1 = q)) = [] := by
    apply List.filter_eq_nil_iff.mpr
    intro b hb
    rw [hbs b hb]
    simpa using hqp.symm
  rw [batchesOf, List.filter_append, hnone, List.append_nil, batchesOf]

/-- No operation touches the transaction of another call. -/
theorem exec_txn_other (hx : exec p o e w = some (r, w')) (hqp : q ≠ p) :
    w'.store.txn q = w.store.txn q := by
  have hs := exec_store hx
  have hsame : w'.store = w.store → w'.store.txn q = w.store.txn q := fun heq => by rw [heq]
  cases o with
  | sql c s =>
    rcases exec_sql_cases hx with rfl | ⟨_, rfl⟩ | ⟨_, rfl, _⟩
    · rfl
    · rfl
    · exact Function.update_of_ne hqp _ _
  | start =>
    rcases hs with hs | hs
    · exact hsame hs
    · rw [hs]
      exact Function.update_of_ne hqp _ _
  | commit =>
    rcases hs with hs | hs | hs
    · rw [hs]
      exact Function.update_of_ne hqp _ _
    · exact hsame hs
    · obtain ⟨_, _, hs⟩ := commit_cases hs
      rw [hs]
      exact Function.update_of_ne hqp _ _
  | rollback =>
    have hs : w'.store = w.store.rollback p := hs
    rw [hs]
    exact Function.update_of_ne hqp _ _
  | _ => exact hsame hs

theorem made_other (hx : exec p o e w = some (r, w')) (hqp : q ≠ p) :
    w'.made kind q = w.made kind q := by
  obtain ⟨bs, hhistory, hbs⟩ := exec_history hx
  rw [World.made, World.made, hhistory, batchesOf_append_other hbs hqp, World.log, World.log,
    exec_txn_other hx hqp]

theorem made_of_store (h : w'.store = w.store) : w'.made kind p = w.made kind p := by
  rw [World.made, World.made, World.log, World.log, h]

/-- Giving up a log only takes writes away. -/
theorem made_cleared {s : Store Pid Db Write Key} (hhistory : s.history = w.store.history)
    (hlog : (s.txn p).log = []) : ({ w with store := s } : World).made kind p ≤ w.made kind p := by
  have hempty : ({ w with store := s } : World).log p = [] := hlog
  rw [World.made, World.made, hempty]
  dsimp only
  rw [hhistory]
  exact Nat.add_le_add_left (Nat.zero_le _) _

/-- An operation adds at most what it costs. -/
theorem made_exec (hprice : Prices cost kind) (hx : exec p o e w = some (r, w')) :
    w'.made kind p ≤ w.made kind p + cost o := by
  have hs := exec_store hx
  have hle : w'.made kind p ≤ w.made kind p → w'.made kind p ≤ w.made kind p + cost o :=
    fun h => h.trans (Nat.le_add_right _ _)
  have hsame : w'.store = w.store → w'.made kind p ≤ w.made kind p + cost o :=
    fun heq => hle (by rw [made_of_store heq])
  have hcleared : ∀ s : Store Pid Db Write Key, w'.store = s → s.history = w.store.history →
      (s.txn p).log = [] → w'.made kind p ≤ w.made kind p + cost o := by
    intro s hstore hhistory hlog
    have hmade : w'.made kind p = ({ w with store := s } : World).made kind p :=
      made_of_store hstore
    rw [hmade]
    exact (made_cleared hhistory hlog).trans (Nat.le_add_right _ _)
  cases o with
  | sql c s =>
    rcases exec_sql_cases hx with rfl | ⟨rfl, rfl⟩ | ⟨rfl, rfl, _⟩
    · exact hsame rfl
    · have hcount := hprice .pool s w.seqs w.clock w.store.db
      by_cases hempty : (w.onPool s).writes = []
      · exact hsame (World.pooled_store hempty)
      · have hhistory : (w.pooled p s).store.history
            = w.store.history ++ [(p, (w.onPool s).writes)] := by
          simp only [World.pooled, List.isEmpty_iff, hempty, if_false]
        have hlog : (w.pooled p s).log p = w.log p := rfl
        rw [World.made, hhistory, batchesOf_append_self, List.countP_append, hlog, World.made]
        have hwrites : (w.onPool s).writes.countP kind ≤ cost (.sql .pool s) := hcount
        omega
    · have hcount := hprice .trx s w.seqs w.clock (w.view p)
      have hhistory : (w.queried p s).store.history = w.store.history := rfl
      have hlog : (w.queried p s).log p = w.log p ++ (w.inTrx p s).writes := by
        rw [World.log, World.queried_txn]
        rfl
      rw [World.made, hhistory, hlog, List.countP_append, World.made]
      have hwrites : (w.inTrx p s).writes.countP kind ≤ cost (.sql .trx s) := hcount
      omega
  | start =>
    rcases hs with hs | hs
    · exact hsame hs
    · exact hcleared _ hs rfl (by rw [World.start_txn]; rfl)
  | commit =>
    rcases hs with hs | hs | hs
    · refine hcleared _ hs rfl ?_
      have hclosed : (w.store.rollback p).txn p = .closed := Function.update_self _ _ _
      rw [hclosed]
      rfl
    · exact hsame hs
    · -- The log becomes a commit.
      obtain ⟨log, hlog, hs⟩ := commit_cases hs
      have hbefore : w.log p = log := World.log_of_active hlog
      have hafter : w'.log p = [] := by
        have hclosed : w'.store.txn p = .closed := by
          rw [hs]
          exact Function.update_self _ _ _
        rw [World.log, hclosed]
        rfl
      have hhistory : w'.store.history = w.store.history ++ [(p, log)] := by rw [hs]
      apply hle
      rw [World.made, World.made, hhistory, batchesOf_append_self, List.countP_append, hbefore,
        hafter, List.countP_nil]
      omega
  | rollback =>
    have hs : w'.store = w.store.rollback p := hs
    refine hcleared _ hs rfl ?_
    have hclosed : (w.store.rollback p).txn p = .closed := Function.update_self _ _ _
    rw [hclosed]
    rfl
  | _ => exact hsame hs

end Steps

/-- In every interleaving that starts at rest, a call makes at most as many writes of the kind as
its program can. -/
theorem made_le_of_spends {α : Type} {kind : Write → Bool} {cost : Op → Nat}
    (hprice : Prices cost kind) {ok : Pid → Op → Env → World → Prop} {n : Nat}
    {s t : Sys Pid Op Op.Res Err World α} (hs : s.world.AtRest)
    (hspends : ∀ p prog, s.procs p = some prog → prog.Spends cost n)
    (h : machine.Reaches ok s t) (p : Pid) : t.world.made kind p ≤ n := by
  have hzero : ∀ q, s.world.made kind q = 0 := by
    intro q
    rw [World.made, World.log, hs.history, hs.txn q]
    rfl
  have hown : ∀ q o e w r w', machine.exec q o e w = some (r, w') →
      w'.made kind q ≤ w.made kind q + cost o := fun q o e w r w' hx => made_exec hprice hx
  have hother : ∀ q o e w r w' q', machine.exec q o e w = some (r, w') → q' ≠ q →
      w'.made kind q' = w.made kind q' := fun q o e w r w' q' hx hne => made_other hx hne
  have hcrash : ∀ q w q', (machine.crash q w).made kind q' ≤ w.made kind q' := by
    intro q w q'
    by_cases hq : q' = q
    · subst hq
      refine made_cleared (s := w.store.rollback q') rfl ?_
      have hclosed : (w.store.rollback q').txn q' = .closed := Function.update_self _ _ _
      rw [hclosed]
      rfl
    · have hsame : (w.store.rollback q).txn q' = w.store.txn q' := Function.update_of_ne hq _ _
      have hlog : (machine.crash q w).log q' = w.log q' := congrArg Txn.log hsame
      have hhistory : (machine.crash q w).store.history = w.store.history := rfl
      rw [World.made, hlog, hhistory, World.made]
  have hext : ∀ x w q, (machine.ext x w).made kind q = w.made kind q := by
    intro x w q
    cases x <;> rfl
  have hstart : WithinBudget cost (fun q w => w.made kind q) (fun _ => n) s := by
    intro q
    dsimp only
    rw [hzero]
    exact ⟨Nat.zero_le n, fun prog hprog => hspends q prog hprog⟩
  exact (Machine.Reaches.withinBudget hown hother hcrash hext hstart h p).1

end OrderService
