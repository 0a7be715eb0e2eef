import OrderService.CallEffects
import OrderService.Interleaving.Recorded
import OrderService.SerialIds
import OrderService.Services.Assignment

/-! The offer of an order over time: the runs that set it, the calls that read and change it, and
what the log of an interleaving tells of them. -/
namespace OrderService
open ReadCommitted Interleaving

section Statement

/-- The calls that come to the offer of an order. -/
inductive OfferCall where
  | tryAssign (order : OrderEntity) (region : String)
  | reject (publicId : String) (agentId : Nat)
  | claim (publicId : String) (agentId : Nat) (region : String)
  | adminAssign (publicId : String) (agentId : Nat) (region : String)

def OfferCall.prog (cfg : Config) : OfferCall → Svc Unit
  | .tryAssign order region => do
    let _ ← OrderService.tryAssign cfg order region
    pure ()
  | .reject publicId agentId => rejectOffer publicId agentId
  | .claim publicId agentId region => do
    let _ ← OrderService.claim cfg publicId agentId region
    pure ()
  | .adminAssign publicId agentId region => do
    let _ ← OrderService.adminAssign cfg publicId agentId region
    pure ()

abbrev Entry := Happening Pid Op World

abbrev OfferWorld := Interleaving.Recorded Pid Op World

abbrev OfferSys := Sys Pid Op Op.Res Err OfferWorld Unit

/-- The calls before their first step, in a world of which nothing is logged. -/
def offering (cfg : Config) (work : Pid → Option OfferCall) (w : World) : OfferSys :=
  ⟨⟨w, []⟩, fun p => (work p).map (OfferCall.prog cfg)⟩

variable (publicId : String) (p : Pid) (h : Entry)

/-- A conditional set of the offer that succeeded: a broadcast of the order begins. -/
def beginsOffer : Bool :=
  match h.act with
  | some (_, .cache (.trySet key _ _)) =>
    key = .offer publicId && h.done && (h.world.cache.entries key).isNone
  | _ => false

/-- The candidates that a conditional set stores. -/
def offeredTo : List Nat :=
  match h.act with
  | some (_, .cache (.trySet _ value _)) => candidateIds value
  | _ => []

/-- The process read the offer. -/
def readsOffer : Bool :=
  match h.act with
  | some (q, .cache (.get key)) => q = p && key = .offer publicId && h.done
  | _ => false

/-- The process wrote the offer back or deleted it. -/
def writesOffer : Bool :=
  match h.act with
  | some (q, .cache (.set key _ _)) => q = p && key = .offer publicId && h.done
  | some (q, .cache (.del key)) => q = p && key = .offer publicId && h.done
  | _ => false

/-- The process emitted the offer of the order to a candidate. -/
def broadcastsOffer : Bool :=
  match h.act with
  | some (q, .emit ⟨_, .taskOffered, orderId⟩) => q = p && orderId = publicId
  | _ => false

/-- The candidates of the most recent broadcast. -/
def lastBroadcast (log : List Entry) : Option (List Nat) :=
  (log.find? (beginsOffer publicId)).map offeredTo

end Statement

section Entries

variable {publicId : String} {p : Pid} {h : Entry}

theorem readsOffer_act (hr : readsOffer publicId p h = true) :
    h.act = some (p, Op.cache (.get (.offer publicId))) := by
  unfold readsOffer at hr
  split at hr
  · next q key hact =>
    obtain ⟨⟨rfl, rfl⟩, _⟩ : (q = p ∧ key = .offer publicId) ∧ h.done = true := by simpa using hr
    exact hact
  · cases hr

theorem writesOffer_act (hw : writesOffer publicId p h = true) :
    (∃ value ttl, h.act = some (p, .cache (.set (.offer publicId) value ttl))) ∨
      h.act = some (p, .cache (.del (.offer publicId))) := by
  unfold writesOffer at hw
  split at hw
  · next q key value ttl hact =>
    obtain ⟨⟨rfl, rfl⟩, _⟩ : (q = p ∧ key = .offer publicId) ∧ h.done = true := by simpa using hw
    exact .inl ⟨value, ttl, hact⟩
  · next q key hact =>
    obtain ⟨⟨rfl, rfl⟩, _⟩ : (q = p ∧ key = .offer publicId) ∧ h.done = true := by simpa using hw
    exact .inr hact
  · cases hw

theorem writesOffer_done (hw : writesOffer publicId p h = true) : h.done = true := by
  unfold writesOffer at hw
  split at hw
  · exact (Bool.and_eq_true_iff.mp hw).2
  · exact (Bool.and_eq_true_iff.mp hw).2
  · cases hw

theorem beginsOffer_act (hb : beginsOffer publicId h = true) :
    (∃ q value ttl, h.act = some (q, .cache (.trySet (.offer publicId) value ttl))) ∧
      h.world.cache.entries (.offer publicId) = none := by
  unfold beginsOffer at hb
  split at hb
  · next q key value ttl hact =>
    obtain ⟨⟨rfl, _⟩, hnone⟩ : (key = .offer publicId ∧ h.done = true) ∧
        h.world.cache.entries key = none := by simpa using hb
    exact ⟨⟨q, value, ttl, hact⟩, hnone⟩
  · cases hb

theorem broadcastsOffer_act (hb : broadcastsOffer publicId p h = true) :
    ∃ room, h.act = some (p, .emit ⟨room, .taskOffered, publicId⟩) := by
  unfold broadcastsOffer at hb
  split at hb
  · next q room orderId hact =>
    obtain ⟨rfl, rfl⟩ : q = p ∧ orderId = publicId := by simpa using hb
    exact ⟨room, hact⟩
  · cases hb

/-- Only a cache command changes what Redis holds. -/
theorem exec_cached {o : Op} {e : Env} {w w' : World} {a : Except Err o.Res}
    (hx : exec p o e w = some (a, w')) :
    w'.cache = w.cache ∨ ∃ c, o = .cache c ∧ a.isOk = true ∧ w'.cache = (c.run w.cache e).2 := by
  cases o with
  | cache c =>
    simp only [exec] at hx
    split_ifs at hx
    · cases hx
      exact .inl rfl
    · cases hx
      exact .inr ⟨c, rfl, rfl, rfl⟩
  | sql c q => rcases exec_sql_cases hx with rfl | ⟨_, rfl⟩ | ⟨_, rfl, _⟩ <;> exact .inl rfl
  | commit =>
    left
    simp only [exec] at hx
    split_ifs at hx
    · cases hx
      rfl
    · split at hx <;> cases hx <;> rfl
  | rollback | now | emit m | getBranch b | getCustomerAddress a | getBranchProducts b ps
  | createSession i | random36 | fetchRefund ps =>
    simp only [exec] at hx
    cases hx
    exact .inl rfl
  | start | randomUUID | reserveStock b is k | undoReserveStock b is k =>
    simp only [exec] at hx
    split_ifs at hx <;> cases hx <;> exact .inl rfl

theorem exec_del {key : CacheKey} {e : Env} {w w' : World} {a : Except Err Nat}
    (hok : a.isOk = true) (hx : exec p (.cache (.del key)) e w = some (a, w')) :
    w'.cache.entries key = none := by
  simp only [exec] at hx
  split_ifs at hx
  · cases hx
    cases hok
  · cases hx
    exact Function.update_self ..

end Entries

section Programs

/-- The operation stores no list of agents but by a conditional set. -/
def Op.LeavesOffers : Op → Prop
  | .cache (.set (.offer _) _ _) => False
  | .cache (.incr (.offer _)) => False
  | _ => True

/-- The operation neither stores an offer nor sends one. -/
def Op.Calm : Op → Prop
  | .cache (.set (.offer _) _ _) => False
  | .cache (.incr (.offer _)) => False
  | .cache (.trySet (.offer _) _ _) => False
  | .emit ⟨_, .taskOffered, _⟩ => False
  | _ => True

theorem Op.Calm.leavesOffers {o : Op} (h : o.Calm) : o.LeavesOffers := by
  unfold Op.LeavesOffers
  split
  · exact h
  · exact h
  · trivial

/-- A program all of whose operations satisfy `P`. -/
abbrev Only {α : Type} (P : Op → Prop) (prog : Svc α) : Prop :=
  prog.Calls P (fun _ _ => True) fun _ => True

variable {cfg : Config} {publicId region : String} {agentId : Nat}

theorem only_do {P : Op → Prop} {α β : Type} {prog : Svc α} {f : α → Svc β} (hp : Only P prog)
    (hf : ∀ a, Only P (f a)) : Only P (prog >>= f) :=
  Prog.calls_do hp fun a _ => hf a

theorem calm_releaseClaim : Only Op.Calm (releaseClaim publicId) :=
  only_do (calls_any trivial) fun _ => trivial

theorem calm_branchOrNull {branchId : Nat} : Only Op.Calm (branchOrNull branchId) :=
  Prog.calls_catch (only_do (calls_any trivial) fun _ => trivial) fun _ => trivial

theorem calm_takeOrder : Only Op.Calm (takeOrder publicId agentId) := by
  refine only_do (only_do (calls_any trivial) fun now => calls_any trivial) fun claimed => ?_
  cases claimed with
  | none => exact only_do calm_releaseClaim fun _ => trivial
  | some updated => exact only_do (calls_any trivial) fun _ => trivial

theorem calm_releasingOnError {body : Svc OrderEntity} (h : Only Op.Calm body) :
    Only Op.Calm (releasingOnError publicId body) := by
  refine Prog.calls_catch h fun err => only_do (calls_any trivial) fun _ => ?_
  exact only_do calm_releaseClaim fun _ => trivial

theorem calm_afterAssignment {updated : OrderEntity} {losers : List Nat} :
    Only Op.Calm (afterAssignment publicId updated agentId region losers) := by
  have hlosers : Only Op.Calm (losers.forM fun loser =>
      emit (.agent loser) .offerCancelled updated.publicId) := by
    induction losers with
    | nil => trivial
    | cons loser losers ih => exact only_do (calls_any trivial) fun _ => ih
  refine only_do (calls_any trivial) fun _ => only_do calm_branchOrNull fun branch => ?_
  refine only_do (only_do (calls_any trivial) fun _ => only_do hlosers fun _ => ?_) fun _ => ?_
  · exact only_do (calls_any trivial) fun _ => calls_any trivial
  · exact only_do (calls_any trivial) fun _ => trivial

theorem calm_claim : Only Op.Calm (claim cfg publicId agentId region) := by
  refine only_do (calls_any trivial) fun offered => ?_
  cases offered with
  | none => trivial
  | some value =>
    dsimp only
    split_ifs
    · refine only_do (calls_any trivial) fun ok => ?_
      split_ifs
      · trivial
      refine only_do (calls_any trivial) fun _ => ?_
      refine only_do (calm_releasingOnError (only_do (calls_any trivial) ?_))
        fun updated => calm_afterAssignment
      intro order
      cases order with
      | none => exact only_do calm_releaseClaim fun _ => trivial
      | some order => exact calm_takeOrder
    · trivial

theorem calm_adminAssign : Only Op.Calm (adminAssign cfg publicId agentId region) := by
  refine only_do (calls_any trivial) fun ok => ?_
  split_ifs
  · trivial
  refine only_do (calls_any trivial) fun _ => ?_
  exact only_do (calm_releasingOnError calm_takeOrder) fun _ => calm_afterAssignment

theorem calm_countAttempt {ttlSeconds : Nat} : Only Op.Calm (countAttempt publicId ttlSeconds) :=
  only_do (calls_any trivial) fun _ => calls_any trivial

theorem calm_findCandidates {lng lat : Int} : Only Op.Calm (findCandidates cfg region lng lat) := by
  refine only_do (calls_any trivial) fun raw => ?_
  have hfree : ∀ result, Only Op.Calm (freeCandidates cfg region raw result) := by
    induction raw with
    | nil => exact fun _ => trivial
    | cons agentId raw ih =>
      intro result
      refine only_do (calls_any trivial) fun online => ?_
      cases online with
      | false => exact ih result
      | true =>
        refine only_do (calls_any trivial) fun busy => ?_
        cases busy with
        | true => exact ih result
        | false =>
          change Only Op.Calm (if cfg.candidates ≤ (result ++ [agentId]).length then _ else _)
          split_ifs
          · trivial
          · exact ih (result ++ [agentId])
  exact hfree []

/-- A run of `tryAssign` stores an offer only by a conditional set. -/
theorem leaves_tryAssign {order : OrderEntity} :
    Only Op.LeavesOffers (tryAssign cfg order region) := by
  have hcalm : ∀ {α : Type} {prog : Svc α}, Only Op.Calm prog → Only Op.LeavesOffers prog :=
    fun h => h.weaken fun _ ho => ho.leavesOffers
  refine only_do (calls_any trivial) fun offered => ?_
  split_ifs
  · trivial
  refine only_do (calls_any trivial) fun attemptsRaw => ?_
  split_ifs
  · exact only_do (calls_any trivial) fun _ => trivial
  refine only_do (hcalm calm_findCandidates) fun candidates => ?_
  split_ifs
  · exact only_do (hcalm calm_countAttempt) fun _ => trivial
  refine only_do (calls_any trivial) fun offerSet => ?_
  cases offerSet with
  | false => trivial
  | true =>
    refine only_do (hcalm calm_countAttempt) fun _ => only_do (hcalm calm_branchOrNull) fun _ => ?_
    have hemit : ∀ agents : List Nat, Only Op.LeavesOffers (agents.forM fun agentId =>
        emit (.agent agentId) .taskOffered order.publicId) := by
      intro agents
      induction agents with
      | nil => trivial
      | cons agentId agents ih => exact only_do (calls_any trivial) fun _ => ih
    exact only_do (hemit candidates) fun _ => trivial

end Programs

end OrderService
