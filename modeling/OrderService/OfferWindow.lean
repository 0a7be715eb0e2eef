import OrderService.OfferHistory

/-! Between two broadcasts of an order its offer was gone for a moment, unless a run emits its offer
after another run has set the key anew. -/
namespace OrderService
open ReadCommitted Interleaving

section Statement

def actsBy (p : Pid) (h : Entry) : Bool := h.act.any fun x => x.1 = p

/-- The run that set the offer of the order last. -/
def lastSetter (publicId : String) (log : List Entry) : Option Pid :=
  (log.find? (beginsOffer publicId)).bind fun h => h.act.map Prod.fst

/-- A run sends the offer of an order only while no other run has set the key since it did. -/
def WindowHeld (p : Pid) (o : Op) (_ : Env) (r : OfferWorld) : Prop :=
  match o with
  | .emit ⟨_, .taskOffered, publicId⟩ =>
    ∀ h ∈ since (fun h => beginsOffer publicId h && actsBy p h) r.log, beginsOffer publicId h = false
  | _ => True

/-- The operation sends no offer. -/
def Op.Silent : Op → Prop
  | .emit ⟨_, .taskOffered, _⟩ => False
  | _ => True

/-- Every emission of an offer is one of the run that had set the key last. -/
def BroadcastsOwn (r : OfferWorld) : Prop :=
  ∀ publicId p later x earlier, r.log = later ++ x :: earlier →
    broadcastsOffer publicId p x = true → lastSetter publicId earlier = some p

/-- The run has set the offer of the order. -/
def HasSet (publicId : String) (p : Pid) (r : OfferWorld) : Prop :=
  ∃ h ∈ r.log, beginsOffer publicId h = true ∧ actsBy p h = true

abbrev windowSpec : Spec Pid OfferWorld := recordedSpec BroadcastsOwn

end Statement

section Steps

variable {publicId : String} {p q : Pid} {o : Op} {e : Env} {w : World} {done : Bool}
  {act : Option (Pid × Op)} {r r' : OfferWorld} {log : List Entry} {h : Entry}

theorem lastSetter_append {new : List Entry} (hnew : ∀ h ∈ new, beginsOffer publicId h = false) :
    lastSetter publicId (new ++ log) = lastSetter publicId log := by
  rw [lastSetter, find?_append_of_false hnew, lastSetter]

theorem HasSet.later (h : HasSet publicId p r) (hr : Later p r r') : HasSet publicId p r' := by
  obtain ⟨x, hx, hset⟩ := h
  obtain ⟨new, hnew, _⟩ := hr
  exact ⟨x, hnew ▸ List.mem_append_right new hx, hset⟩

theorem HasSet.next (h : HasSet publicId p r) : HasSet publicId p (r.next act done w) := by
  obtain ⟨x, hx, hset⟩ := h
  exact ⟨x, List.mem_cons_of_mem _ hx, hset⟩

/-- Nobody has set the key since the run did, so the run is the last one who did. -/
theorem lastSetter_of_hasSet (h : HasSet publicId p r)
    (hsince : ∀ h ∈ since (fun h => beginsOffer publicId h && actsBy p h) r.log,
      beginsOffer publicId h = false) : lastSetter publicId r.log = some p := by
  obtain ⟨x, hx, hset⟩ := h
  have hown : (beginsOffer publicId x && actsBy p x) = true := Bool.and_eq_true_iff.mpr hset
  obtain ⟨y, earlier, hlog, hy⟩ :=
    since_split (P := fun h => beginsOffer publicId h && actsBy p h) ⟨x, hx, hown⟩
  obtain ⟨hbegins, hacts⟩ := Bool.and_eq_true_iff.mp hy
  obtain ⟨⟨q, value, ttl, hact⟩, _⟩ := beginsOffer_act hbegins
  have hq : q = p := by simpa [actsBy, hact] using hacts
  have hfirst : (y :: earlier).find? (beginsOffer publicId) = some y := List.find?_cons_of_pos hbegins
  rw [hlog, lastSetter_append hsince, lastSetter, hfirst, Option.bind_some, hact, Option.map_some, hq]

theorem broadcastsOwn_next (h : BroadcastsOwn r)
    (hnew : ∀ publicId q, broadcastsOffer publicId q ⟨act, done, r.world⟩ = true →
      lastSetter publicId r.log = some q) : BroadcastsOwn (r.next act done w) := by
  intro publicId q later x earlier hlog hx
  cases later with
  | nil =>
    obtain ⟨rfl, rfl⟩ := List.cons.inj hlog
    exact hnew publicId q hx
  | cons y later =>
    obtain ⟨_, hold⟩ := List.cons.inj hlog
    exact h publicId q later x earlier hold hx

theorem Op.Calm.silent (h : o.Calm) : o.Silent := by
  unfold Op.Silent
  split
  · exact h
  · trivial

theorem broadcastsOwn_silent (ho : o.Silent) (h : BroadcastsOwn r) :
    BroadcastsOwn (r.next (some (p, o)) done w) := by
  apply broadcastsOwn_next h
  intro publicId q hb
  obtain ⟨room, hact⟩ := broadcastsOffer_act hb
  cases hact
  exact absurd ho id

theorem windowSpec_fits : windowSpec.Fits machine.recorded := by
  apply recordedSpec_fits
  · exact fun p r h => broadcastsOwn_next h fun _ _ hb => nomatch hb
  · exact fun x r h => broadcastsOwn_next h fun _ _ hb => nomatch hb

end Steps

section Programs

variable {work : Pid → Option OfferCall} {cfg : Config} {publicId region : String} {p : Pid}
  {r : OfferWorld}

theorem wp_sendsNone {α : Type} {prog : Svc α} (h : Only Op.Silent prog) :
    wp machine.recorded WindowHeld windowSpec p prog (fun _ _ => True) r := by
  apply wp_mono (fun _ _ _ => trivial)
  apply wp_calls_recorded (A := fun _ => True) (fun _ _ _ _ => trivial) _ h trivial
  exact fun o e r a w ho _ _ hI _ => ⟨broadcastsOwn_silent ho hI, trivial⟩

/-- The operation sends no offer, or the one of the order. -/
def Op.Offers (publicId : String) (o : Op) : Prop :=
  o.Silent ∨ ∃ room, o = .emit ⟨room, .taskOffered, publicId⟩

/-- Once it has set the key, a run may send the offer. -/
theorem wp_offers {α : Type} {prog : Svc α} (h : Only (Op.Offers publicId) prog)
    (hset : HasSet publicId p r) :
    wp machine.recorded WindowHeld windowSpec p prog (fun _ _ => True) r := by
  apply wp_mono (fun _ _ _ => trivial)
  apply wp_calls_recorded (A := HasSet publicId p) (fun _ _ hr hA => hA.later hr) _ h hset
  intro o e r a w ho hok _ hI hA
  refine ⟨?_, hA.next⟩
  rcases ho with hsilent | ⟨room, rfl⟩
  · exact broadcastsOwn_silent hsilent hI
  · apply broadcastsOwn_next hI
    intro orderId q hb
    obtain ⟨room', hact⟩ := broadcastsOffer_act hb
    cases hact
    exact lastSetter_of_hasSet hA hok

theorem offers_of_calm {α : Type} {prog : Svc α} (h : Only Op.Calm prog) :
    Only (Op.Offers publicId) prog :=
  h.weaken fun _ ho => .inl ho.silent

theorem silent_of_calm {α : Type} {prog : Svc α} (h : Only Op.Calm prog) : Only Op.Silent prog :=
  h.weaken fun _ ho => ho.silent

theorem wp_then {α β : Type} {prog : Svc α} {f : α → Svc β} (hp : Only Op.Calm prog)
    (hf : ∀ a r, wp machine.recorded WindowHeld windowSpec p (f a) (fun _ _ => True) r) :
    wp machine.recorded WindowHeld windowSpec p (prog >>= f) (fun _ _ => True) r := by
  apply wp_do
  apply wp_mono _ (wp_sendsNone (silent_of_calm hp))
  intro a r _
  cases a with
  | error err => trivial
  | ok a => exact hf a r

theorem wp_offerTo {order : OrderEntity} {candidates : List Nat} :
    wp machine.recorded WindowHeld windowSpec p (offerTo cfg order candidates)
      (fun _ _ => True) r := by
  apply wp_do
  apply wp_recorded
  intro r₁ _ hi e a w _ hx
  refine ⟨broadcastsOwn_next hi fun orderId q hb => ?_, ?_⟩
  · obtain ⟨room, hact⟩ := broadcastsOffer_act hb
    cases hact
  cases a with
  | error err => trivial
  | ok offerSet =>
    cases offerSet with
    | false => trivial
    | true =>
      -- The conditional set succeeded, so the key was not there.
      have hnone : r₁.world.cache.entries (.offer order.publicId) = none := by
        cases hkey : r₁.world.cache.entries (.offer order.publicId) with
        | none => rfl
        | some value =>
          simp only [machine, exec, CacheCmd.run, hkey] at hx
          split_ifs at hx <;> cases hx
      have hset : HasSet order.publicId p (r₁.next (some (p, .cache (.trySet
          (.offer order.publicId) (.ids candidates) cfg.offerTtlSec))) true w) :=
        ⟨_, List.mem_cons_self, by simp [beginsOffer, hnone], by simp [actsBy]⟩
      have hemit : ∀ agents : List Nat, Only (Op.Offers order.publicId) (agents.forM fun agentId =>
          emit (.agent agentId) .taskOffered order.publicId) := by
        intro agents
        induction agents with
        | nil => trivial
        | cons agentId agents ih => exact only_do (calls_any (.inr ⟨_, rfl⟩)) fun _ => ih
      apply wp_offers _ hset
      refine only_do (offers_of_calm calm_countAttempt) fun _ => ?_
      refine only_do (offers_of_calm calm_branchOrNull) fun _ => ?_
      exact only_do (hemit candidates) fun _ => trivial

theorem wp_tryAssign {order : OrderEntity} :
    wp machine.recorded WindowHeld windowSpec p (tryAssign cfg order region)
      (fun _ _ => True) r := by
  refine wp_then (calls_any trivial) fun offered r => ?_
  split_ifs
  · trivial
  refine wp_then (calls_any trivial) fun attemptsRaw r => ?_
  split_ifs
  · exact wp_sendsNone (only_do (calls_any trivial) fun _ => trivial)
  refine wp_then calm_findCandidates fun candidates r => ?_
  split_ifs
  · exact wp_sendsNone (only_do (silent_of_calm calm_countAttempt) fun _ => trivial)
  · exact wp_offerTo

theorem silent_rejectOffer {agentId : Nat} : Only Op.Silent (rejectOffer publicId agentId) := by
  refine only_do (calls_any trivial) fun offered => ?_
  cases offered with
  | none => trivial
  | some value =>
    dsimp only
    split_ifs
    · exact only_do (calls_any trivial) fun _ => trivial
    · exact only_do (calls_any trivial) fun _ => calls_any trivial
    · trivial

theorem wp_window {call : OfferCall} :
    wp machine.recorded WindowHeld windowSpec p (call.prog cfg) (fun _ _ => True) r := by
  cases call with
  | tryAssign order region =>
    apply wp_do
    apply wp_mono _ wp_tryAssign
    intro a r _
    cases a <;> trivial
  | reject publicId agentId => exact wp_sendsNone silent_rejectOffer
  | claim publicId agentId region =>
    exact wp_sendsNone (only_do (silent_of_calm calm_claim) fun _ => trivial)
  | adminAssign publicId agentId region =>
    exact wp_sendsNone (only_do (silent_of_calm calm_adminAssign) fun _ => trivial)

end Programs

section Result

variable {cfg : Config} {work : Pid → Option OfferCall} {publicId : String} {w : World} {p q : Pid}
  {later mid earlier : List Entry} {x y : Entry}

/-- In every interleaving the offer of an order is gone for a moment between the emissions of two
runs, as long as no run sends an offer that another run has set anew. -/
theorem window_between (cfg : Config) (work : Pid → Option OfferCall) {t : OfferSys}
    (h : machine.recorded.Reaches WindowHeld (offering cfg work w) t)
    (hlog : t.world.log = later ++ y :: mid ++ x :: earlier)
    (hx : broadcastsOffer publicId p x = true) (hy : broadcastsOffer publicId q y = true)
    (hne : p ≠ q) : ∃ h ∈ mid, h.world.cache.entries (.offer publicId) = none := by
  have hsound : Sound machine.recorded WindowHeld windowSpec (fun _ _ _ => True) t := by
    refine sound_reaches windowSpec_fits (fun _ _ _ _ _ _ _ => trivial) ⟨?_, ?_⟩ h
    · intro orderId q later x earlier hlog
      simp [offering] at hlog
    · intro p prog hp
      obtain ⟨call, _, rfl⟩ := Option.map_eq_some_iff.mp hp
      exact wp_window
  have hown : BroadcastsOwn t.world := hsound.1
  have hq : lastSetter publicId (mid ++ x :: earlier) = some q :=
    hown publicId q later y (mid ++ x :: earlier) (by rw [hlog, List.append_assoc]; rfl) hy
  have hp : lastSetter publicId earlier = some p :=
    hown publicId p (later ++ y :: mid) x earlier hlog hx
  by_contra hnone
  have hmid : ∀ h ∈ mid ++ [x], beginsOffer publicId h = false := by
    intro z hz
    apply Bool.eq_false_iff.mpr
    intro hb
    obtain ⟨⟨q', value, ttl, hact⟩, habsent⟩ := beginsOffer_act hb
    rcases List.mem_append.mp hz with hz | hz
    · exact hnone ⟨z, hz, habsent⟩
    · obtain ⟨room, hact'⟩ := broadcastsOffer_act hx
      rw [List.mem_singleton.mp hz, hact'] at hact
      cases hact
  have hsame : lastSetter publicId (mid ++ x :: earlier) = lastSetter publicId earlier := by
    rw [List.append_cons, lastSetter_append hmid]
  rw [hsame, hp] at hq
  exact hne (Option.some.inj hq)

/-- Two workers come to the same order. -/
def twoWorkers : Pid → Option OfferCall
  | 0 => some (.tryAssign (OrderEntity.sample "order-1" .ready) "eg")
  | 1 => some (.tryAssign (OrderEntity.sample "order-1" .ready) "eg")
  | _ => none

/-- One agent is around the branch. -/
def oneAgent : World where
  store := Store.ofDb {}
  cache := Cache.set {} (.presence "eg" 1) (some .flag)

def offerSteps (p : Pid) (n : Nat) : List (Label Pid Env Ext) :=
  List.replicate n (.act p { nearby := [1] })

/-- The first run comes to its end before the offer expires and the second begins. -/
def runsInTurn : List (Label Pid Env Ext) :=
  offerSteps 0 10 ++ [.ext (.drop (.offer "order-1"))] ++ offerSteps 1 10

/-- The offer of the first run expires before it is sent, and the second run sends its own. -/
def runOverrun : List (Label Pid Env Ext) :=
  offerSteps 0 9 ++ [.ext (.drop (.offer "order-1"))] ++ offerSteps 1 10 ++ offerSteps 0 1

def holdsWindow (p : Pid) (o : Op) (_ : Env) (r : OfferWorld) : Bool :=
  match o with
  | .emit ⟨_, .taskOffered, publicId⟩ =>
    (since (fun h => beginsOffer publicId h && actsBy p h) r.log).all fun h =>
      !beginsOffer publicId h
  | _ => true

theorem windowHeld_of_holds (p : Pid) (o : Op) (e : Env) (r : OfferWorld)
    (h : holdsWindow p o e r = true) : WindowHeld p o e r := by
  unfold holdsWindow at h
  unfold WindowHeld
  split at h
  · intro x hx
    simpa using List.all_eq_true.mp h x hx
  · trivial

/-- The newest entry, and the one that is `n` entries older, if they satisfy the predicates. -/
def newestAnd (n : Nat) (P P' : Entry → Bool) : List Entry → Bool
  | [] => false
  | y :: rest => P y && match rest.drop n with
    | [] => false
    | x :: _ => P' x

theorem newestAnd_split {n : Nat} {P P' : Entry → Bool} {log : List Entry}
    (h : newestAnd n P P' log = true) : ∃ y mid x earlier,
      log = y :: mid ++ x :: earlier ∧ mid.length ≤ n ∧ P y = true ∧ P' x = true := by
  cases log with
  | nil => cases h
  | cons y rest =>
    obtain ⟨hy, hrest⟩ := Bool.and_eq_true_iff.mp h
    have hsplit : rest = rest.take n ++ rest.drop n := (List.take_append_drop n rest).symm
    have hlength : (rest.take n).length ≤ n := List.length_take_le n rest
    cases hdrop : rest.drop n with
    | nil => simp [hdrop] at hrest
    | cons x earlier =>
      rw [hdrop] at hsplit hrest
      exact ⟨y, rest.take n, x, earlier, congrArg (y :: ·) hsplit, hlength, hy, hrest⟩

theorem window_between_in_turn : ∃ (t : OfferSys) (y x : Entry) (mid earlier : List Entry),
    t.world.log = y :: mid ++ x :: earlier ∧ broadcastsOffer "order-1" 1 y = true ∧
      broadcastsOffer "order-1" 0 x = true ∧
      ∃ h ∈ mid, h.world.cache.entries (.offer "order-1") = none := by
  have hrun : (machine.recorded.run holdsWindow runsInTurn
      (offering sampleConfig twoWorkers oneAgent)).map (fun t => newestAnd 10
        (broadcastsOffer "order-1" 1) (broadcastsOffer "order-1" 0) t.world.log) = some true := by
    decide +kernel
  obtain ⟨t, ht, hlog⟩ := Option.map_eq_some_iff.mp hrun
  obtain ⟨y, mid, x, earlier, hsplit, _, hy, hx⟩ := newestAnd_split hlog
  have hreach := Machine.reaches_of_run windowHeld_of_holds runsInTurn ht
  refine ⟨t, y, x, mid, earlier, hsplit, hy, hx, ?_⟩
  have hwhole : t.world.log = [] ++ y :: mid ++ x :: earlier := hsplit
  exact window_between sampleConfig twoWorkers hreach hwhole hx hy (by decide)

/-- The offer expires while its run is about to send it: another run sets and sends its own, and
the first one follows while the key is there. -/
theorem offer_sent_late : ∃ (t : OfferSys) (y x : Entry) (earlier : List Entry),
    machine.recorded.Reaches (fun _ _ _ _ => True) (offering sampleConfig twoWorkers oneAgent) t ∧
      t.world.log = y :: x :: earlier ∧ broadcastsOffer "order-1" 0 y = true ∧
      broadcastsOffer "order-1" 1 x = true ∧
      y.world.cache.entries (.offer "order-1") = some (.ids [1]) := by
  have hrun : (machine.recorded.run (fun _ _ _ _ => true) runOverrun
      (offering sampleConfig twoWorkers oneAgent)).map (fun t => newestAnd 0
        (fun y => broadcastsOffer "order-1" 0 y &&
          y.world.cache.entries (.offer "order-1") = some (.ids [1]))
        (broadcastsOffer "order-1" 1) t.world.log) = some true := by decide +kernel
  obtain ⟨t, ht, hlog⟩ := Option.map_eq_some_iff.mp hrun
  obtain ⟨y, mid, x, earlier, hsplit, hlength, hy, hx⟩ := newestAnd_split hlog
  obtain ⟨hbroadcast, hkey⟩ := Bool.and_eq_true_iff.mp hy
  obtain rfl := List.length_eq_zero_iff.mp (Nat.le_zero.mp hlength)
  exact ⟨t, y, x, earlier, Machine.reaches_of_run (fun _ _ _ _ _ => trivial) runOverrun ht, hsplit,
    hbroadcast, hx, of_decide_eq_true hkey⟩

end Result

end OrderService
