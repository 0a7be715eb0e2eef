import OrderService.CallEffects
import OrderService.DeliveredSettled
import OrderService.Interleaving.Complete
import OrderService.Services.Sharding

/-! In which shard an order is stored: the region of the request decides, and the branch has its
own. -/
namespace OrderService
open ReadCommitted Interleaving

section Statement

/-- The order is in the shard of its branch's region, with that region and country. -/
structure LocalOrder (branch : Branch) (shard : String) (row : OrderEntity) : Prop where
  stored : shard = branch.region.toLower
  region : row.region = branch.region.toLower
  country : row.countryCode = branch.region.toLower

/-- The request names the region of the branch, and core gives that region as `normalizeRegion`
would. -/
def RegionsAgree (cfg : Config) (header query : Option String) (branch : Branch) : Prop :=
  (resolveRegion cfg header query).map String.toLower = some branch.region.toLower ∧
    branch.region = branch.region.toLower

/-- The orders that were inserted, commit after commit. -/
def committedOrders (history : List (Pid × List Write)) : List OrderEntity :=
  history.flatMap fun b => b.2.filterMap fun
    | .insertOrder row => some row
    | _ => none

/-- The orders that a call with these answers has committed to the shard. -/
def ordersPlaced (cfg : Config) (actor : ActorContext) (header query : Option String)
    (dto : CreateOrderRequest) (p : Pid) (es : List Env) (s : Shards) (shard : String) :
    List OrderEntity :=
  committedOrders ((shardsMachine.runAlone p (placeOnShard cfg actor header query dto) es s).2.shard
    shard).store.history

theorem mem_committedOrders {history : List (Pid × List Write)} {row : OrderEntity}
    (h : row ∈ committedOrders history) : ∃ b ∈ history, Write.insertOrder row ∈ b.2 := by
  obtain ⟨b, hb, hrow⟩ := List.mem_flatMap.mp h
  obtain ⟨x, hx, heq⟩ := List.mem_filterMap.mp hrow
  refine ⟨b, hb, ?_⟩
  cases x with
  | insertOrder row' =>
    rw [← Option.some.inj heq]
    exact hx
  | _ => cases heq

end Statement

section Programs
variable {α : Type} {F : String → Write → Prop}

/-- A program of the shards whose writes satisfy `F` in the shard that they go to. -/
abbrev WritesOn (F : String → Write → Prop) (prog : ShardSvc α) (Q : α → Prop) : Prop :=
  prog.Calls (fun o => o.2.Harmless (F o.1)) (fun _ _ => True) Q

theorem writesOn_onShard {region : String} {prog : Svc α} {Q : α → Prop}
    (h : prog.Calls (Op.Harmless (F region)) (fun _ _ => True) Q) :
    WritesOn F (onShard region prog) Q := by
  induction prog with
  | pure a => exact h
  | throw err => trivial
  | op o k ih =>
    exact ⟨h.1, fun err => ih (.error err) (h.2.1 err), fun r hr => ih (.ok r) (h.2.2 r hr)⟩

theorem assertRegion_ok {cfg : Config} {candidate region : String}
    (h : assertRegion cfg candidate = .ok region) : region = candidate.toLower := by
  unfold assertRegion at h
  dsimp only at h
  split_ifs at h
  exact (Except.ok.inj h).symm

/-- The checks write nothing, and resolve the region of the request. -/
theorem calls_checkBranch {cfg : Config} {actor : ActorContext} {region : String}
    {dto : CreateOrderRequest} {branch : Branch} {H : Write → Prop} :
    (checkBranch cfg actor (some region) dto branch).Calls (Op.Harmless H) (fun _ _ => True)
      fun c => c.resolvedRegion = region.toLower ∧ c.branch = branch := by
  have hany : ∀ {o : Op}, o.Harmless H → (Prog.perform o : Svc o.Res).Calls (Op.Harmless H)
      (fun _ _ => True) fun _ => True := fun ho => Prog.calls_perform ho fun _ _ => trivial
  unfold checkBranch
  split_ifs
  · trivial
  refine Prog.calls_do (hany trivial) fun flag _ => ?_
  split_ifs
  · trivial
  refine Prog.calls_do (Prog.calls_ofExcept fun r hr => assertRegion_ok hr) fun resolved hresolved => ?_
  split_ifs
  · trivial
  refine Prog.calls_do (hany trivial) fun address _ => ?_
  split_ifs
  · trivial
  refine Prog.calls_do (hany trivial) fun products _ => ?_
  split_ifs
  · trivial
  · exact ⟨hresolved, rfl⟩
  · trivial

/-- The orders that a placement for this branch inserts, and where. -/
def InsertsFor (branch : Branch) (resolved shard : String) : Write → Prop
  | .insertOrder row =>
    shard = resolved ∧ row.region = resolved ∧ row.countryCode = branch.region
  | _ => True

theorem writesOn_submitOrder {cfg : Config} {actor : ActorContext} {branch : Branch}
    {resolved : String} {c : Checked} {dto : CreateOrderRequest}
    (hresolved : c.resolvedRegion = resolved) (hbranch : c.branch = branch) :
    WritesOn (InsertsFor branch resolved) (onShard c.resolvedRegion
      (submitOrder cfg actor c.resolvedRegion c.branch c.address c.products dto)) fun _ => True := by
  apply writesOn_onShard
  rw [hresolved, hbranch]
  refine within_submission cfg (fun _ _ _ _ _ => ⟨rfl, rfl, rfl⟩) ?_ ?_ ?_ ?_
  · exact fun _ => trivial
  · exact fun _ _ => trivial
  · exact fun _ => trivial
  · exact fun _ _ _ => trivial

end Programs

section Runs
variable {p : Pid} {F : String → Write → Prop} {s s' : Shards}

/-- In every shard, what is committed and what `p` is about to commit satisfies `F`. -/
def Keeps (p : Pid) (F : String → Write → Prop) (s : Shards) : Prop :=
  ∀ region, (sharedSpec fun _ history => ∀ b ∈ history, ∀ x ∈ b.2, F region x).inv (s.at region) ∧
    ∀ x ∈ (s.at region).log p, F region x

theorem at_put (s : Shards) (region : String) (w : World) : (s.put region w).at region = w := by
  simp only [Shards.at, Shards.put, Function.update_self]

theorem store_at_put {region other : String} (hne : other ≠ region) (w : World) :
    ((s.put region w).at other).store = (s.at other).store := by
  simp only [Shards.at, Shards.put, Function.update_of_ne hne]

theorem keeps_step {o : ShardOp} {e : Env} {r : Except Err o.Res} (ho : o.2.Harmless (F o.1))
    (hx : shardsMachine.exec p o e s = some (r, s')) (h : Keeps p F s) : Keeps p F s' := by
  obtain ⟨a, ha, heq⟩ := Option.map_eq_some_iff.mp hx
  obtain ⟨r', w'⟩ := a
  have hs' : s' = s.put o.1 w' := (congrArg Prod.snd heq).symm
  subst hs'
  intro region
  by_cases hregion : region = o.1
  · subst hregion
    rw [at_put]
    obtain ⟨hinv, hlog⟩ := h o.1
    have hkept : KeptBy (fun _ history => ∀ b ∈ history, ∀ x ∈ b.2, F o.1 x) p (F o.1) := by
      intro db history log hold hnew b hb
      rcases List.mem_append.mp hb with hb | hb
      · exact hold b hb
      · rw [List.mem_singleton.mp hb]
        exact hnew
    exact ⟨inv_exec hkept ha ho hlog hinv, log_exec ha ho hlog⟩
  · obtain ⟨hinv, hlog⟩ := h region
    have hstore := store_at_put (s := s) hregion w'
    refine ⟨?_, ?_⟩
    · change Locked engine _ ∧ _
      rw [hstore]
      exact hinv
    · rw [World.log, hstore]
      exact hlog

theorem keeps_crash (h : Keeps p F s) : Keeps p F (shardsMachine.crash p s) := by
  intro region
  obtain ⟨hinv, -⟩ := h region
  refine ⟨((sharedSpec_fits _).crash p (s.at region) hinv).1, ?_⟩
  intro x hx
  have hclosed : (((shardsMachine.crash p s).at region).store.txn p) = .closed :=
    Function.update_self _ _ _
  rw [World.log, hclosed] at hx
  cases hx

theorem keeps_atRest (h : ∀ region, (s.at region).AtRest) : Keeps p F s := by
  intro region
  refine ⟨⟨(h region).locked, fun b hb => ?_⟩, fun x hx => ?_⟩
  · rw [(h region).history] at hb
    cases hb
  · rw [World.log, (h region).txn p] at hx
    cases hx

end Runs

section Result

/-- What a call with this branch commits is an order of the branch, in the region of the request. -/
theorem insertsFor_committed {cfg : Config} {actor : ActorContext} {header query : Option String}
    {dto : CreateOrderRequest} {p : Pid} {e : Env} {es : List Env} {s : Shards}
    (hs : ∀ region, (s.at region).AtRest) {shard : String} {row : OrderEntity}
    (hrow : row ∈ ordersPlaced cfg actor header query dto p (e :: es) s shard) :
    ∃ region, resolveRegion cfg header query = some region ∧
      InsertsFor e.branch region.toLower shard (.insertOrder row) := by
  obtain ⟨b, hb, hin⟩ := mem_committedOrders hrow
  unfold placeOnShard at hb
  cases hregion : resolveRegion cfg header query with
  | none =>
    simp only [hregion] at hb
    have hempty : (s.shard shard).store.history = [] := (hs shard).history
    change b ∈ (s.shard shard).store.history at hb
    rw [hempty] at hb
    cases hb
  | some region =>
    simp only [hregion] at hb
    refine ⟨region, rfl, ?_⟩
    set F := InsertsFor e.branch region.toLower with hF
    let rest : Branch → ShardSvc OrderResponse := fun branch =>
      onShard "" (checkBranch cfg actor (some region) dto branch) >>= fun c =>
        onShard c.resolvedRegion
          (submitOrder cfg actor c.resolvedRegion c.branch c.address c.products dto)
    have hbranch : WritesOn F (rest e.branch) fun _ => True := by
      refine Prog.calls_do (writesOn_onShard calls_checkBranch) fun c hc => ?_
      exact writesOn_submitOrder hc.1 hc.2
    -- The first answer gives the branch, or the request has failed.
    have hrest : WritesOn F (Prog.bind (onShard ""
        (Prog.ofExcept (if e.fail then .error .failed else .ok e.branch))) rest) fun _ => True := by
      split_ifs
      · trivial
      · exact hbranch
    have hstart : Keeps p F s := keeps_atRest hs
    have hput : Keeps p F (s.put "" (s.at "")) :=
      keeps_step (o := ("", .now)) (e := e) (r := .ok (s.at "").clock) trivial rfl hstart
    have hkeeps : Keeps p F (shardsMachine.runAlone p (placeOnShard cfg actor header query dto)
        (e :: es) s).2 := by
      unfold placeOnShard
      simp only [hregion]
      exact runAlone_calls hrest (fun o e v r v' ho hx hv => keeps_step ho hx hv)
        (fun v hv => keeps_crash hv) es hput
    unfold placeOnShard at hkeeps
    simp only [hregion] at hkeeps
    exact (hkeeps shard).1.2 b hb _ hin

/-- The order that a placement commits is local exactly if the regions agree. -/
theorem shard_locality (cfg : Config) (actor : ActorContext) (header query : Option String)
    (dto : CreateOrderRequest) (p : Pid) (e : Env) (es : List Env) (s : Shards)
    (hs : ∀ region, (s.at region).AtRest) (shard : String) (row : OrderEntity)
    (hrow : row ∈ ordersPlaced cfg actor header query dto p (e :: es) s shard) :
    LocalOrder e.branch shard row ↔ RegionsAgree cfg header query e.branch := by
  obtain ⟨region, hregion, hstored, hrowRegion, hcountry⟩ := insertsFor_committed hs hrow
  constructor
  · intro hlocal
    refine ⟨?_, hcountry.symm.trans hlocal.country⟩
    rw [hregion, Option.map_some, ← hstored, hlocal.stored]
  · intro hagree
    have hresolved : region.toLower = e.branch.region.toLower := by
      have hmap := hagree.1
      rw [hregion, Option.map_some] at hmap
      exact Option.some.inj hmap
    exact ⟨hstored.trans hresolved, hrowRegion.trans hresolved, hcountry.trans hagree.2⟩

def twoRegions : Config := { sampleConfig with regions := ["eg", "ksa"] }

def customerFive : ActorContext := ⟨5, .other "customer", none, none, none⟩

/-- The branch of the order is in Egypt; the request names another region, or this one. -/
def placedFrom (header : String) (shard : String) : List OrderEntity :=
  ordersPlaced twoRegions customerFive (some header) none ⟨1, 1, .cod, [⟨3, 1⟩]⟩ 0
    (kosharyAnswers :: List.replicate 15 kosharyAnswers) {} shard

theorem shard_locality_named :
    ∃ row ∈ placedFrom "EG" "eg", LocalOrder kosharyAnswers.branch "eg" row ↔
      RegionsAgree twoRegions (some "EG") none kosharyAnswers.branch := by
  have hplaced : (placedFrom "EG" "eg").length = 1 := by decide +kernel
  obtain ⟨row, hrow⟩ := List.length_eq_one_iff.mp hplaced
  have hmem : row ∈ placedFrom "EG" "eg" := by
    rw [hrow]
    exact List.mem_singleton_self row
  exact ⟨row, hmem, shard_locality twoRegions customerFive (some "EG") none
    ⟨1, 1, .cod, [⟨3, 1⟩]⟩ 0 kosharyAnswers (List.replicate 15 kosharyAnswers) {}
    (fun _ => ⟨rfl, fun _ => rfl, rfl⟩) "eg" row hmem⟩

/-- With the header of another region the order of the Egyptian branch is in that region's shard,
and nowhere else. -/
theorem placed_in_another_shard :
    kosharyAnswers.branch.region = "eg" ∧
      (placedFrom "ksa" "ksa").map (fun row => (row.region, row.countryCode)) = [("ksa", "eg")] ∧
      placedFrom "ksa" "eg" = [] ∧
      ∀ row ∈ placedFrom "ksa" "ksa", ¬LocalOrder kosharyAnswers.branch "ksa" row := by
  have hplaced : (placedFrom "ksa" "ksa").map (fun row => (row.region, row.countryCode))
      = [("ksa", "eg")] := by decide +kernel
  have hnone : placedFrom "ksa" "eg" = [] := by decide +kernel
  refine ⟨rfl, hplaced, hnone, fun row _ hlocal => ?_⟩
  exact absurd hlocal.stored (by decide +kernel)

end Result

end OrderService
