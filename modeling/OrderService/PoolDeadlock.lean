import OrderService.DeliveredSettled
import OrderService.Interleaving.Trace
import OrderService.Services.ConnectionPool

/-! When the status requests of a region can lock each other out of its connection pool: the
statements of `updateStatus` take a second connection while its transaction keeps the first. -/
namespace OrderService
open Interleaving

section Statement

/-- The request waits to acquire a connection. -/
def Waits (s : PoolSys) (p : Pid) : Prop :=
  ∃ forTransaction k, s.procs p = some (.op (.acquire forTransaction) k)

/-- Every connection is held, each by a request that waits to acquire another one. -/
def Deadlocked (s : PoolSys) : Prop :=
  s.world.used = s.world.size ∧ ∀ p ∈ s.world.opened ++ s.world.querying, Waits s p

/-- A transaction is opened only where a connection stays that no transaction holds. -/
def FewerOpen (_ : Pid) (o : PoolOp) (e : Env) (w : PoolWorld) : Prop :=
  match o with
  | .acquire true => e.fail = false → w.opened.length + 1 < w.size
  | _ => True

end Statement

section Protocol

/-- How many connections of a process are in use for queries: none, but for the query itself. -/
def poolProtocol : Protocol PoolOp PoolOp.Res Err Nat where
  allows n o :=
    match o with
    | .svc (.sql .pool _) => n = 1
    | _ => n = 0
  after n o r :=
    match o, r with
    | .acquire false, .ok _ => n + 1
    | .svc (.sql .pool _), _ => n - 1
    | _, _ => n

theorem follows_pooledOp (o : Op) (n : Nat) (hn : n = 0) :
    (pooledOp o).Follows poolProtocol (fun n => n = 0) n := by
  subst hn
  unfold pooledOp
  split
  · next q =>
    refine ⟨rfl, fun r => ?_⟩
    cases r with
    | error err => exact rfl
    | ok u => exact Prog.follows_perform rfl fun _ => rfl
  · refine ⟨rfl, fun r => ?_⟩
    cases r with
    | error err => exact rfl
    | ok u => exact Prog.follows_perform rfl fun _ => rfl
  · next hsql hstart =>
    have hallows : poolProtocol.allows 0 (.svc o) := by
      unfold poolProtocol
      dsimp only
      split
      · next q heq => exact absurd (PoolOp.svc.inj heq) (hsql q)
      · rfl
    refine Prog.follows_perform hallows fun r => ?_
    unfold poolProtocol
    dsimp only
    split
    · next heq _ => cases heq
    · rfl
    · rfl

variable {p q : Pid} {o : Op} {w : PoolWorld}

/-- Only a query gives its connection back to the pool at its end. -/
theorem release_querying (r : Except Err o.Res) :
    (∀ s, o ≠ .sql .pool s) ∧ (release p o r w).querying = w.querying ∨
      (∃ s, o = .sql .pool s) ∧ (release p o r w).querying = w.querying.erase p := by
  unfold release
  split
  · next s _ => exact .inr ⟨⟨s, rfl⟩, rfl⟩
  · exact .inl ⟨fun _ h => (by cases h), rfl⟩
  · exact .inl ⟨fun _ h => (by cases h), rfl⟩
  · exact .inl ⟨fun _ h => (by cases h), rfl⟩
  · next hsql _ _ _ =>
    refine .inl ⟨fun s h => ?_, rfl⟩
    subst h
    exact hsql s r rfl HEq.rfl

theorem release_size (r : Except Err o.Res) : (release p o r w).size = w.size := by
  unfold release
  split <;> rfl

theorem release_opened (r : Except Err o.Res) :
    (release p o r w).opened.length ≤ w.opened.length := by
  unfold release
  split
  · exact Nat.le_refl _
  · exact List.length_erase_le
  · exact List.length_erase_le
  · exact List.length_erase_le
  · exact Nat.le_refl _

theorem after_svc {n : Nat} (r : Except Err o.Res) (ho : ∀ s, o ≠ .sql .pool s) :
    poolProtocol.after n (.svc o) r = n := by
  unfold poolProtocol
  dsimp only
  split
  · next heq _ => cases heq
  · next s _ heq _ => exact absurd (PoolOp.svc.inj heq) (ho s)
  · rfl

/-- The pool counts for every process what the protocol allows. -/
theorem execPool_count {op : PoolOp} {e : Env} {r : Except Err op.Res} {w' : PoolWorld}
    (hx : poolMachine.exec p op e w = some (r, w')) :
    w'.querying.count p = poolProtocol.after (w.querying.count p) op r ∧
      ∀ q, q ≠ p → w'.querying.count q = w.querying.count q := by
  cases op with
  | acquire forTransaction =>
    simp only [poolMachine, execPool] at hx
    split_ifs at hx with hfail hfree htrx
    · cases hx
      cases forTransaction <;> exact ⟨rfl, fun _ _ => rfl⟩
    · cases hx
      rw [htrx]
      exact ⟨rfl, fun _ _ => rfl⟩
    · cases hx
      rw [Bool.eq_false_iff.mpr htrx]
      exact ⟨List.count_cons_self, fun q hq => List.count_cons_of_ne (Ne.symm hq)⟩
  | svc o =>
    obtain ⟨⟨r', w₁⟩, -, heq⟩ := Option.map_eq_some_iff.mp hx
    cases heq
    rcases release_querying r' with ⟨hother, hsame⟩ | ⟨⟨s, rfl⟩, herase⟩
    · rw [hsame, after_svc r' hother]
      exact ⟨rfl, fun _ _ => rfl⟩
    · rw [herase]
      exact ⟨List.count_erase_self, fun q hq => List.count_erase_of_ne hq⟩

end Protocol

section Result
variable {requests : Pid → Option StatusRequest} {w : PoolWorld} {s : PoolSys}

theorem count_filter_ne {p q : Pid} (hq : q ≠ p) (l : List Pid) :
    (l.filter fun x => x ≠ p).count q = l.count q :=
  List.count_filter (decide_eq_true hq)

/-- A request that waits for a connection holds none for a query. -/
theorem not_querying_of_waits {ok : Pid → PoolOp → Env → PoolWorld → Prop}
    (hquerying : w.querying = []) (hreach : poolMachine.Reaches ok (servingStatuses requests w) s)
    {p : Pid} (hwaits : Waits s p) : p ∉ s.world.querying := by
  obtain ⟨forTransaction, k, hp⟩ := hwaits
  have hstart : ∀ p prog, (servingStatuses requests w).procs p = some prog →
      prog.Follows poolProtocol (fun n => n = 0) (w.querying.count p) := by
    intro p prog hprog
    obtain ⟨r, -, rfl⟩ := Option.map_eq_some_iff.mp hprog
    apply Prog.follows_translate follows_pooledOp
    rw [hquerying]
    rfl
  have hfollows := Machine.Reaches.follows (fun p w => w.querying.count p) hstart
    (fun _ _ _ _ _ _ _ hx => execPool_count hx) (fun p w q hq => count_filter_ne hq _)
    (fun _ _ _ => rfl) hreach p _ hp
  exact List.count_eq_zero.mp hfollows.1

/-- The transactions leave a connection free. -/
def Spare (size : Nat) (w : PoolWorld) : Prop :=
  w.size = size ∧ w.opened.length < size

theorem execPool_spare {size : Nat} {p : Pid} {op : PoolOp} {e : Env} {v v' : PoolWorld}
    {r : Except Err op.Res} (hfewer : FewerOpen p op e v) (hv : Spare size v)
    (hx : poolMachine.exec p op e v = some (r, v')) : Spare size v' := by
  cases op with
  | acquire forTransaction =>
    simp only [poolMachine, execPool] at hx
    split_ifs at hx with hfail hfree htrx
    · cases hx
      exact hv
    · cases hx
      subst htrx
      have hroom : v.opened.length + 1 < v.size := hfewer (Bool.eq_false_iff.mpr hfail)
      exact ⟨hv.1, hv.1 ▸ hroom⟩
    · cases hx
      exact hv
  | svc o =>
    obtain ⟨⟨r', v₁⟩, -, heq⟩ := Option.map_eq_some_iff.mp hx
    cases heq
    exact ⟨(release_size _).trans hv.1, (release_opened _).trans_lt hv.2⟩

theorem spare_reached {size : Nat} (hw : Spare size w)
    (hreach : poolMachine.Reaches FewerOpen (servingStatuses requests w) s) :
    Spare size s.world := by
  refine hreach.keeps_under (fun p o e v r v' hfewer hv hx => execPool_spare hfewer hv hx)
    (fun p v hv => ?_) (fun x v hv => hv) hw
  exact ⟨hv.1, (List.length_filter_le _ _).trans_lt hv.2⟩

/-- As long as the transactions always leave a connection free, no reachable state is a deadlock of
the pool, whatever its size and however many requests run. -/
theorem no_pool_deadlock (hsize : 0 < w.size) (hopened : w.opened = []) (hquerying : w.querying = [])
    (hreach : poolMachine.Reaches FewerOpen (servingStatuses requests w) s) : ¬Deadlocked s := by
  intro hdead
  have hspare : Spare w.size s.world := by
    apply spare_reached ⟨rfl, _⟩ hreach
    rw [hopened]
    exact hsize
  have hnone : s.world.querying = [] := by
    apply List.eq_nil_iff_forall_not_mem.mpr
    intro p hp
    exact not_querying_of_waits hquerying hreach (hdead.2 p (List.mem_append_right _ hp)) hp
  have hused : s.world.opened.length = s.world.size := by
    have hall : s.world.used = s.world.size := hdead.1
    unfold PoolWorld.used at hall
    rw [hnone] at hall
    exact hall
  have hlt : s.world.opened.length < s.world.size := hspare.1 ▸ hspare.2
  omega

end Result

section Samples

/-- Each of ten requests accepts the order. -/
def tenRequests (p : Pid) : Option StatusRequest :=
  if p < 10 then some ⟨restaurantOwner, ⟨.accepted, none⟩, "eg", "order-1"⟩ else none

/-- A placed order, and a pool of the size that `DB_POOL_MAX` has by default. -/
def idlePool : PoolWorld where
  world := { store := Store.ofDb { orders := [.sample "order-1" .placed] } }
  size := 10

/-- One request after the other reads the order and opens its transaction. -/
def openEach (n : Nat) : List (Label Pid Env Ext) :=
  (List.range n).flatMap fun p => List.replicate 5 (.act p {})

def waits (s : PoolSys) (p : Pid) : Bool :=
  match s.procs p with
  | some (.op (.acquire _) _) => true
  | _ => false

theorem of_waits {s : PoolSys} {p : Pid} (h : waits s p = true) : Waits s p := by
  unfold waits at h
  split at h
  · next forTransaction k hp => exact ⟨forTransaction, k, hp⟩
  · cases h

def leavesOne (_ : Pid) (o : PoolOp) (_ : Env) (w : PoolWorld) : Bool :=
  match o with
  | .acquire true => w.opened.length + 1 < w.size
  | _ => true

theorem fewerOpen_of_leavesOne (p : Pid) (o : PoolOp) (e : Env) (w : PoolWorld)
    (h : leavesOne p o e w = true) : FewerOpen p o e w := by
  unfold FewerOpen
  split
  · exact fun _ => of_decide_eq_true h
  · trivial

/-- Nine open transactions wait for the one connection that is left. -/
theorem no_pool_deadlock_nine :
    ∃ s, poolMachine.Reaches FewerOpen (servingStatuses tenRequests idlePool) s ∧
      s.world.opened.length = 9 ∧ (∀ p ∈ s.world.opened, Waits s p) ∧ ¬Deadlocked s := by
  have hrun : (poolMachine.run leavesOne (openEach 9) (servingStatuses tenRequests idlePool)).any
      (fun s => s.world.opened.length = 9 && s.world.opened.all (waits s)) = true := by
    decide +kernel
  obtain ⟨s, hs, hholds⟩ := (Option.any_eq_true _ _).mp hrun
  obtain ⟨hnine, hall⟩ := Bool.and_eq_true_iff.mp hholds
  have hreach := Machine.reaches_of_run fewerOpen_of_leavesOne _ hs
  exact ⟨s, hreach, of_decide_eq_true hnine, fun p hp => of_waits (List.all_eq_true.mp hall p hp),
    no_pool_deadlock (by decide) rfl rfl hreach⟩

/-- Ten requests have opened their transactions, and each waits for an eleventh connection. -/
theorem ten_requests_deadlock :
    ∃ s, poolMachine.Reaches (fun _ _ _ _ => True) (servingStatuses tenRequests idlePool) s ∧
      s.world.opened.length = 10 ∧ Deadlocked s := by
  have hrun : (poolMachine.run (fun _ _ _ _ => true) (openEach 10)
      (servingStatuses tenRequests idlePool)).any (fun s => s.world.opened.length = 10 &&
        (s.world.used = s.world.size &&
          (s.world.opened ++ s.world.querying).all (waits s))) = true := by
    decide +kernel
  obtain ⟨s, hs, hholds⟩ := (Option.any_eq_true _ _).mp hrun
  obtain ⟨hten, hrest⟩ := Bool.and_eq_true_iff.mp hholds
  obtain ⟨hused, hall⟩ := Bool.and_eq_true_iff.mp hrest
  exact ⟨s, Machine.reaches_of_run (fun _ _ _ _ _ => trivial) _ hs, of_decide_eq_true hten,
    of_decide_eq_true hused, fun p hp => of_waits (List.all_eq_true.mp hall p hp)⟩

end Samples

end OrderService
