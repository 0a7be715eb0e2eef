import OrderService.CandidateSelection

/-! Which orders a tick of the assignment worker offers: those among the first rows it fetches,
whatever stands there. -/
namespace OrderService
open ReadCommitted Interleaving

section Statement
variable (distance : Int × Int → Int × Int → ℚ) (geo : String → GeoSet) (cfg : Config)
  (region : String)

/-- The orders that wait for an agent, by the time they became ready. -/
def readyOrders (db : Db) : List OrderEntity :=
  (db.orders.filter OrderEntity.claimable).mergeSort fun a b => ascending a.readyAt b.readyAt

/-- The agents that `findCandidates` selects for the order. -/
def Cache.candidatesFor (c : Cache) (order : OrderEntity) : List Nat :=
  c.selected cfg region
    ((geo region).within distance (order.branchLng, order.branchLat) cfg.radiusMeters)

/-- No live offer, attempts left, and somebody to offer the order to. -/
def Cache.offerable (c : Cache) (order : OrderEntity) : Bool :=
  (c.entries (.offer order.publicId)).isNone &&
    attemptsOf (c.entries (.attempts order.publicId)) < cfg.maxAttempts &&
    !(c.candidatesFor distance geo cfg region order).isEmpty

/-- The order has a live offer to these agents, and each of them was told. -/
def OfferedTo (order : OrderEntity) (agents : List Nat) (w : World) : Prop :=
  w.cache.entries (.offer order.publicId) = some (.ids agents) ∧
    ∀ agentId ∈ agents, ⟨.agent agentId, .taskOffered, order.publicId⟩ ∈ w.emitted

end Statement

section Effects
variable {publicId : String} {w w' w'' : World}

/-- Between the two worlds Redis has changed in the offer and the attempts of one order alone. -/
structure OnlyOffers (publicId : String) (w w' : World) : Prop where
  store : w'.store = w.store
  entries : ∀ key, key ≠ .offer publicId → key ≠ .attempts publicId →
    w'.cache.entries key = w.cache.entries key
  busy : w'.cache.busy = w.cache.busy
  emitted : ∀ m ∈ w.emitted, m ∈ w'.emitted

theorem OnlyOffers.refl (publicId : String) (w : World) : OnlyOffers publicId w w :=
  ⟨rfl, fun _ _ _ => rfl, rfl, fun _ hm => hm⟩

theorem OnlyOffers.trans (h : OnlyOffers publicId w w') (h' : OnlyOffers publicId w' w'') :
    OnlyOffers publicId w w'' where
  store := h'.store.trans h.store
  entries key hoffer hattempts := (h'.entries key hoffer hattempts).trans (h.entries key hoffer hattempts)
  busy := h'.busy.trans h.busy
  emitted m hm := h'.emitted m (h.emitted m hm)

theorem onlyOffers_set (w : World) (key : CacheKey) (value : Option CacheValue)
    (hkey : key = .offer publicId ∨ key = .attempts publicId) :
    OnlyOffers publicId w { w with cache := w.cache.set key value } where
  store := rfl
  entries key' hoffer hattempts := by
    apply Function.update_of_ne
    rintro rfl
    rcases hkey with hkey | hkey
    · exact hoffer hkey
    · exact hattempts hkey
  busy := rfl
  emitted _ hm := hm

theorem onlyOffers_emit (publicId : String) (w : World) (messages : List Emission) :
    OnlyOffers publicId w { w with emitted := w.emitted ++ messages } :=
  ⟨rfl, fun _ _ _ => rfl, rfl, fun _ hm => List.mem_append_left messages hm⟩

end Effects

section Attempt
variable {distance : Int × Int → Int × Int → ℚ} {geo : String → GeoSet}
  {branches : Nat → Option Branch} {p : Pid} {cfg : Config} {region : String} {w : World}
  {order : OrderEntity}

theorem runFor_emit {room : Room} {event : SocketEvent} {orderId : String} {answer : Op → Env} :
    machine.runFor answer p (emit room event orderId) w
      = (.returned (), { w with emitted := w.emitted ++ [⟨room, event, orderId⟩] }) :=
  runFor_perform rfl

/-- One attempt more. -/
def World.counted (w : World) (publicId : String) : World :=
  { w with
    cache := w.cache.set (.attempts publicId)
      (some (.count (CacheValue.increment (w.cache.entries (.attempts publicId))))) }

theorem onlyOffers_counted (publicId : String) (w : World) :
    OnlyOffers publicId w (w.counted publicId) := onlyOffers_set w _ _ (.inr rfl)

theorem counted_offer (publicId : String) (w : World) :
    (w.counted publicId).cache.entries (.offer publicId) = w.cache.entries (.offer publicId) := by
  simp [World.counted, Cache.set]

theorem countAttempt_runs (publicId : String) (ttlSeconds : Nat) :
    machine.runFor (answering distance geo branches) p (countAttempt publicId ttlSeconds) w
      = (.returned (), w.counted publicId) := by
  unfold countAttempt
  rw [runFor_do (runFor_cache rfl)]
  exact runFor_cache rfl

theorem branchOrNull_runs (branchId : Nat) :
    machine.runFor (answering distance geo branches) p (branchOrNull branchId) w
      = (.returned (branches branchId), w) := by
  change machine.runFor _ p (.op (.getBranch branchId) _) w = _
  cases hbranch : branches branchId with
  | none =>
    have hanswer : answering distance geo branches (.getBranch branchId) = { fail := true } := by
      simp only [answering, hbranch]
    simp only [Machine.runFor, machine_exec, exec, hanswer, if_true]
    rfl
  | some branch =>
    have hanswer : answering distance geo branches (.getBranch branchId) = { branch := branch } := by
      simp only [answering, hbranch]
    simp only [Machine.runFor, machine_exec, exec, hanswer, Bool.false_eq_true, if_false]
    rfl

theorem tellCandidates_runs (publicId : String) (candidates : List Nat) {answer : Op → Env} :
    machine.runFor answer p
        (candidates.forM fun agentId => emit (.agent agentId) .taskOffered publicId) w
      = (.returned (), { w with
          emitted := w.emitted ++
            candidates.map fun agentId => ⟨.agent agentId, .taskOffered, publicId⟩ }) := by
  induction candidates generalizing w with
  | nil =>
    rw [List.map_nil, List.append_nil]
    rfl
  | cons agentId candidates ih =>
    change machine.runFor answer p (do
      emit (.agent agentId) .taskOffered publicId
      candidates.forM fun agentId => emit (.agent agentId) .taskOffered publicId) w = _
    rw [runFor_do runFor_emit, ih, List.map_cons, List.append_assoc, List.singleton_append]

variable (distance geo branches p cfg) in
/-- Nobody has an offer of the order yet: the candidates get it. -/
theorem offerTo_runs (hfree : w.cache.entries (.offer order.publicId) = none)
    (candidates : List Nat) :
    ∃ w', machine.runFor (answering distance geo branches) p (offerTo cfg order candidates) w
        = (.returned .offered, w') ∧
      OnlyOffers order.publicId w w' ∧ OfferedTo order candidates w' := by
  have hset : ∀ e, CacheCmd.run w.cache e
      (.trySet (.offer order.publicId) (.ids candidates) cfg.offerTtlSec)
      = (true, w.cache.set (.offer order.publicId) (some (.ids candidates))) := by
    intro e
    simp only [CacheCmd.run, hfree]
  have honly := onlyOffers_set w (.offer order.publicId) (some (.ids candidates)) (.inl rfl)
  have hoffer : (w.cache.set (.offer order.publicId) (some (.ids candidates))).entries
      (.offer order.publicId) = some (.ids candidates) := Function.update_self _ _ _
  unfold offerTo
  rw [runFor_do (runFor_cache rfl), hset, if_neg (by exact Bool.false_ne_true)]
  dsimp only
  generalize hw₁ : ({ w with cache := w.cache.set (.offer order.publicId) (some (.ids candidates)) }
    : World) = w₁ at honly ⊢
  rw [runFor_do (countAttempt_runs order.publicId 36000), runFor_do (branchOrNull_runs _),
    runFor_do (tellCandidates_runs order.publicId candidates)]
  have hcounted := onlyOffers_counted order.publicId w₁
  refine ⟨_, rfl, honly.trans (hcounted.trans (onlyOffers_emit _ _ _)), ?_, ?_⟩
  · refine (counted_offer order.publicId w₁).trans ?_
    rw [← hw₁]
    exact hoffer
  · intro agentId hagent
    exact List.mem_append_right _ (List.mem_map_of_mem hagent)

/-- What an attempt leaves: an offer if the order is offerable, and the offers as they were if it is
not. -/
structure Attempted (distance : Int × Int → Int × Int → ℚ) (geo : String → GeoSet) (cfg : Config)
    (region : String) (order : OrderEntity) (w w' : World) : Prop where
  only : OnlyOffers order.publicId w w'
  offered : w.cache.offerable distance geo cfg region order = true →
    OfferedTo order (w.cache.candidatesFor distance geo cfg region order) w'
  kept : w.cache.offerable distance geo cfg region order = false →
    w'.cache.entries (.offer order.publicId) = w.cache.entries (.offer order.publicId)

variable (distance geo branches p cfg region) in
theorem tryAssign_runs (order : OrderEntity) (w : World) :
    ∃ result w', machine.runFor (answering distance geo branches) p (tryAssign cfg order region) w
        = (.returned result, w') ∧ Attempted distance geo cfg region order w w' := by
  have hexists : ∀ e, CacheCmd.run w.cache e (.keyExists (.offer order.publicId))
      = ((w.cache.entries (.offer order.publicId)).isSome, w.cache) := fun _ => rfl
  have hget : ∀ e, CacheCmd.run w.cache e (.get (.attempts order.publicId))
      = (w.cache.entries (.attempts order.publicId), w.cache) := fun _ => rfl
  unfold tryAssign
  cases hoffer : w.cache.entries (.offer order.publicId) with
  | some value =>
    rw [hoffer] at hexists
    have hno : w.cache.offerable distance geo cfg region order = false := by
      rw [Cache.offerable, hoffer]
      rfl
    rw [runFor_reads rfl (hexists _), if_pos (by rfl)]
    refine ⟨_, w, rfl, OnlyOffers.refl _ w, fun hyes => ?_, fun _ => rfl⟩
    rw [hno] at hyes
    cases hyes
  | none =>
    rw [hoffer] at hexists
    rw [runFor_reads rfl (hexists _), if_neg (by exact Bool.false_ne_true),
      runFor_reads rfl (hget _)]
    split_ifs with hexhausted
    · -- No attempt is left: the admins are told.
      have hno : w.cache.offerable distance geo cfg region order = false := by
        rw [Cache.offerable, decide_eq_false (Nat.not_lt.mpr hexhausted), Bool.and_false,
          Bool.false_and]
      rw [runFor_do runFor_emit]
      refine ⟨_, _, rfl, onlyOffers_emit _ w _, fun hyes => ?_, fun _ => rfl⟩
      rw [hno] at hyes
      cases hyes
    · have hleft : attemptsOf (w.cache.entries (.attempts order.publicId)) < cfg.maxAttempts :=
        Nat.lt_of_not_le hexhausted
      rw [runFor_do (findCandidates_runs order.branchLng order.branchLat)]
      change ∃ result w', machine.runFor _ p (if (w.cache.candidatesFor distance geo cfg region
        order).isEmpty = true then _ else offerTo cfg order (w.cache.candidatesFor distance geo cfg
        region order)) w = (.returned result, w') ∧ _
      split_ifs with hnobody
      · have hno : w.cache.offerable distance geo cfg region order = false := by
          rw [Cache.offerable, hnobody, Bool.not_true, Bool.and_false]
        rw [runFor_do (countAttempt_runs order.publicId 3600)]
        refine ⟨_, _, rfl, onlyOffers_counted _ w, fun hyes => ?_, fun _ => counted_offer _ w⟩
        rw [hno] at hyes
        cases hyes
      · have hyes : w.cache.offerable distance geo cfg region order = true := by
          rw [Cache.offerable, hoffer, decide_eq_true hleft, Bool.eq_false_iff.mpr hnobody]
          rfl
        obtain ⟨w', hrun, honly, hoffered⟩ := offerTo_runs distance geo branches p cfg hoffer
          (w.cache.candidatesFor distance geo cfg region order)
        refine ⟨_, w', hrun, honly, fun _ => hoffered, fun hno => ?_⟩
        rw [hyes] at hno
        cases hno

end Attempt

section Tick
variable {distance : Int × Int → Int × Int → ℚ} {geo : String → GeoSet}
  {branches : Nat → Option Branch} {p : Pid} {cfg : Config} {region : String} {w w' : World}
  {order other : OrderEntity}

/-- What concerns another order does not change whether an order can be offered, nor to whom. -/
theorem candidatesFor_kept (h : OnlyOffers other.publicId w w') :
    w'.cache.candidatesFor distance geo cfg region order
      = w.cache.candidatesFor distance geo cfg region order := by
  have heligible : w'.cache.eligible region = w.cache.eligible region := by
    funext agentId
    rw [Cache.eligible, Cache.eligible, h.busy, h.entries]
    · exact fun heq => by cases heq
    · exact fun heq => by cases heq
  rw [Cache.candidatesFor, Cache.candidatesFor, Cache.selected, Cache.selected, heligible]

theorem offerable_kept (h : OnlyOffers other.publicId w w')
    (hother : order.publicId ≠ other.publicId) :
    w'.cache.offerable distance geo cfg region order
      = w.cache.offerable distance geo cfg region order := by
  have hoffer := h.entries (.offer order.publicId) (by simpa using hother) (by simp)
  have hattempts := h.entries (.attempts order.publicId) (by simp) (by simpa using hother)
  rw [Cache.offerable, Cache.offerable, hoffer, hattempts, candidatesFor_kept h]

theorem OfferedTo.kept {agents : List Nat} (h : OnlyOffers other.publicId w w')
    (hother : order.publicId ≠ other.publicId) (hoffered : OfferedTo order agents w) :
    OfferedTo order agents w' := by
  refine ⟨?_, fun agentId hagent => h.emitted _ (hoffered.2 agentId hagent)⟩
  rw [h.entries (.offer order.publicId) (by simpa using hother) (by simp)]
  exact hoffered.1

/-- What the loop leaves of the orders it went through, and of an order it did not reach. -/
structure Tried (distance : Int × Int → Int × Int → ℚ) (geo : String → GeoSet) (cfg : Config)
    (region : String) (orders : List OrderEntity) (w w' : World) : Prop where
  offered : ∀ o ∈ orders, w.cache.offerable distance geo cfg region o = true →
    OfferedTo o (w.cache.candidatesFor distance geo cfg region o) w'
  others : ∀ publicId, publicId ∉ orders.map OrderEntity.publicId →
    w'.cache.entries (.offer publicId) = w.cache.entries (.offer publicId)
  keeps : ∀ o agents, o.publicId ∉ orders.map OrderEntity.publicId → OfferedTo o agents w →
    OfferedTo o agents w'

variable (distance geo branches p cfg region w) in
theorem tryOrders_runs (orders : List OrderEntity)
    (hunique : (orders.map OrderEntity.publicId).Nodup) (tally : TickResult) :
    ∃ tally' w', machine.runFor (answering distance geo branches) p
        (tryOrders cfg region orders tally) w = (.returned tally', w') ∧
      Tried distance geo cfg region orders w w' := by
  induction orders generalizing w tally with
  | nil =>
    refine ⟨tally, w, rfl, fun o ho => ?_, fun _ _ => rfl, fun _ _ _ h => h⟩
    cases ho
  | cons order orders ih =>
    rw [List.map_cons, List.nodup_cons] at hunique
    obtain ⟨hnew, hunique⟩ := hunique
    obtain ⟨result, w₁, hrun, hattempt⟩ := tryAssign_runs distance geo branches p cfg region
      order w
    have hcaught : machine.runFor (answering distance geo branches) p (tryCatch (do
        let result ← tryAssign cfg order region
        pure (some result)) fun _ => pure none : Svc (Option AssignResult)) w
        = (.returned (some result), w₁) := by
      apply runFor_catch
      rw [runFor_do hrun]
      rfl
    have hother : ∀ o ∈ orders, o.publicId ≠ order.publicId := by
      intro o ho heq
      exact hnew (heq ▸ List.mem_map_of_mem ho)
    have hrest : ∀ tally, ∃ tally' w', machine.runFor (answering distance geo branches) p
        (tryOrders cfg region orders tally) w₁ = (.returned tally', w') ∧
        Tried distance geo cfg region (order :: orders) w w' := by
      intro tally
      obtain ⟨tally', w', hrun', htried⟩ := @ih w₁ hunique tally
      refine ⟨tally', w', hrun', ?_, ?_, ?_⟩
      · intro o ho hofferable
        rcases List.mem_cons.mp ho with rfl | ho
        · exact htried.keeps o _ hnew (hattempt.offered hofferable)
        · rw [← candidatesFor_kept hattempt.only]
          apply htried.offered o ho
          rw [offerable_kept hattempt.only (hother o ho)]
          exact hofferable
      · intro publicId hpublic
        rw [List.map_cons, List.mem_cons, not_or] at hpublic
        rw [htried.others publicId hpublic.2]
        exact hattempt.only.entries _ (by simpa using hpublic.1) (by simp)
      · intro o agents hpublic hoffered
        rw [List.map_cons, List.mem_cons, not_or] at hpublic
        exact htried.keeps o agents hpublic.2 (hoffered.kept hattempt.only hpublic.1)
    unfold tryOrders
    rw [runFor_do hcaught]
    split_ifs
    · exact hrest _
    · exact hrest _

theorem findReadyUnassigned_runs (limit : Nat) :
    machine.runFor (answering distance geo branches) p (findReadyUnassigned limit .pool) w
      = (.returned ((readyOrders w.store.db).take limit), w) := runFor_perform rfl

theorem readyOrders_unique {db : Db} (h : (db.orders.map OrderEntity.publicId).Nodup) :
    ((readyOrders db).map OrderEntity.publicId).Nodup := by
  have hfilter : ((db.orders.filter OrderEntity.claimable).map OrderEntity.publicId).Nodup :=
    h.sublist (List.filter_sublist.map OrderEntity.publicId)
  exact ((List.mergeSort_perm _ _).map OrderEntity.publicId).nodup_iff.mpr hfilter

/-- A tick by itself, with Redis at hand, in a region whose orders have their own public ids: an
order that can be offered, and behind fewer than a batch of others that can, is offered, if and only
if fewer than a batch of orders that wait for an agent, offerable or not, became ready before it. -/
theorem tick_offers_iff (distance : Int × Int → Int × Int → ℚ) (geo : String → GeoSet)
    (branches : Nat → Option Branch) (cfg : Config) (region : String) (w : World) (p : Pid)
    (hunique : (w.store.db.orders.map OrderEntity.publicId).Nodup) (before after : List OrderEntity)
    (order : OrderEntity) (hready : readyOrders w.store.db = before ++ order :: after)
    (hofferable : w.cache.offerable distance geo cfg region order = true) :
    ∃ tally w', machine.runFor (answering distance geo branches) p (tickRegion cfg region) w
        = (.returned tally, w') ∧
      ((before.countP (w.cache.offerable distance geo cfg region) < cfg.batch →
          OfferedTo order (w.cache.candidatesFor distance geo cfg region order) w') ↔
        (before.countP (w.cache.offerable distance geo cfg region) < cfg.batch →
          before.length < cfg.batch)) := by
  have hids := readyOrders_unique hunique
  have hfetched : (((readyOrders w.store.db).take cfg.batch).map OrderEntity.publicId).Nodup :=
    hids.sublist ((List.take_sublist _ _).map OrderEntity.publicId)
  obtain ⟨tally, w', hrun, htried⟩ := tryOrders_runs distance geo branches p cfg region w _
    hfetched ⟨((readyOrders w.store.db).take cfg.batch).length, 0, 0⟩
  unfold tickRegion
  rw [runFor_do (findReadyUnassigned_runs cfg.batch)]
  refine ⟨tally, w', hrun, ?_⟩
  have hoffered : OfferedTo order (w.cache.candidatesFor distance geo cfg region order) w' ↔
      before.length < cfg.batch := by
    constructor
    · intro hoffer
      by_contra hlate
      -- Its public id is not among those fetched, so its offer is as it was.
      have hmissing : order.publicId ∉
          ((readyOrders w.store.db).take cfg.batch).map OrderEntity.publicId := by
        rw [hready, List.take_append_of_le_length (Nat.le_of_not_lt hlate)]
        intro hmem
        rw [hready, List.map_append, List.map_cons] at hids
        have hbefore := ((List.take_sublist _ _).map OrderEntity.publicId).subset hmem
        exact (List.nodup_append.mp hids).2.2 _ hbefore _ List.mem_cons_self rfl
      have hkept := htried.others _ hmissing
      rw [hoffer.1] at hkept
      rw [Cache.offerable, ← hkept] at hofferable
      cases hofferable
    · intro hearly
      apply htried.offered order _ hofferable
      obtain ⟨rest, hrest⟩ := Nat.exists_eq_add_of_lt hearly
      have hcount : cfg.batch = before.length + (rest + 1) := by omega
      rw [hready, hcount, List.take_length_add_append, List.take_succ_cons]
      exact List.mem_append_right before List.mem_cons_self
  rw [hoffered]

/-- Agent 21, near the branch. -/
def nearGeo : GeoSet := ⟨[(21, 0, 1)], by simp⟩

/-- An order that became ready at that time. -/
def readyAtTime (publicId : String) (readyAt : Time) : OrderEntity :=
  { OrderEntity.sample publicId .ready with deliveryAgentId := none, readyAt := some readyAt }

def oneReady : World :=
  { onePresent with store := Store.ofDb { orders := [readyAtTime "order-1" 1] } }

theorem tick_offers_one : ∃ tally w', machine.runFor (answering alongMeridian (fun _ => nearGeo)
    fun _ => none) 0 (tickRegion sampleConfig "eg") oneReady = (.returned tally, w') ∧
      OfferedTo (readyAtTime "order-1" 1) [21] w' := by
  have hready : readyOrders oneReady.store.db = [] ++ readyAtTime "order-1" 1 :: [] :=
    List.mergeSort_singleton _
  obtain ⟨tally, w', hrun, hiff⟩ := tick_offers_iff alongMeridian (fun _ => nearGeo) (fun _ => none)
    sampleConfig "eg" oneReady 0 (by decide) [] [] (readyAtTime "order-1" 1) hready
    (by decide +kernel)
  refine ⟨tally, w', hrun, ?_⟩
  have hoffered := hiff.mpr (fun _ => by decide) (by decide)
  have hagents : oneReady.cache.candidatesFor alongMeridian (fun _ => nearGeo) sampleConfig "eg"
      (readyAtTime "order-1" 1) = [21] := by decide +kernel
  rw [hagents] at hoffered
  exact hoffered

/-- The first order has no attempts left, and a batch is one order. -/
def exhaustedFirst : World :=
  { onePresent with
    store := Store.ofDb { orders := [readyAtTime "order-1" 1, readyAtTime "order-2" 2] }
    cache := { onePresent.cache with
      entries := Function.update onePresent.cache.entries (.attempts "order-1") (some (.count 3)) } }

/-- The second order can be offered, and nothing that can stands before it: it is not offered. -/
theorem exhausted_order_starves :
    let cfg : Config := { sampleConfig with batch := 1 }
    let offerable := exhaustedFirst.cache.offerable alongMeridian (fun _ => nearGeo) cfg "eg"
    readyOrders exhaustedFirst.store.db
        = [readyAtTime "order-1" 1] ++ readyAtTime "order-2" 2 :: [] ∧
      offerable (readyAtTime "order-2" 2) = true ∧
      [readyAtTime "order-1" 1].countP offerable < cfg.batch ∧
      (machine.runFor (answering alongMeridian (fun _ => nearGeo) fun _ => none) 0
        (tickRegion cfg "eg") exhaustedFirst).2.cache.entries (.offer "order-2") = none := by
  intro cfg offerable
  have hready : readyOrders exhaustedFirst.store.db
      = [readyAtTime "order-1" 1] ++ readyAtTime "order-2" 2 :: [] :=
    List.mergeSort_of_pairwise (by decide)
  refine ⟨hready, by decide +kernel, by decide +kernel, ?_⟩
  unfold tickRegion
  rw [runFor_do (findReadyUnassigned_runs _), hready]
  decide +kernel

end Tick

end OrderService
