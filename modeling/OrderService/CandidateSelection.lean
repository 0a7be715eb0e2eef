import OrderService.Interleaving.Answering
import OrderService.Isolation
import OrderService.Rows
import OrderService.Services.Assignment
import OrderService.Services.PresenceStores

/-! The agents an order is offered to: the nearest ones who are eligible, unless too many others
stand before them. -/
namespace OrderService
open Interleaving

section Serving
variable (distance : Int × Int → Int × Int → ℚ)

/-- An environment in which nothing fails, with these geo sets. Core has these branches. -/
def answering (geo : String → GeoSet) (branches : Nat → Option Branch) : Op → Env
  | .cache (.geosearchByRadius region fromLng fromLat radiusMeters _) =>
    { nearby := (geo region).within distance (fromLng, fromLat) radiusMeters }
  | .getBranch id =>
    match branches id with
    | some branch => { branch := branch }
    | none => { fail := true }
  | _ => {}

end Serving

section Selection
variable {distance : Int × Int → Int × Int → ℚ} {geo : String → GeoSet}
  {branches : Nat → Option Branch} {p : Pid} {cfg : Config} {region : String} {w : World}

/-- The presence metadata of the agent is alive, and the agent is not in the busy set. -/
def Cache.eligible (c : Cache) (region : String) (agentId : Nat) : Bool :=
  (c.entries (.presence region agentId)).isSome && !c.busy.contains (region, agentId)

/-- What `findCandidates` answers. -/
def Cache.selected (c : Cache) (cfg : Config) (region : String) (nearby : List Nat) : List Nat :=
  ((nearby.take (cfg.candidates * 4)).filter (c.eligible region)).take cfg.candidates

/-- A Redis command of which nothing but the reply is used. -/
theorem runFor_cache {cmd : CacheCmd} {answer : Op → Env}
    (hanswer : (answer (.cache cmd)).fail = false) :
    machine.runFor answer p (cache cmd) w = (.returned (cmd.run w.cache (answer (.cache cmd))).1,
      { w with cache := (cmd.run w.cache (answer (.cache cmd))).2 }) := by
  apply runFor_perform
  rw [machine_exec]
  simp only [exec, hanswer, Bool.false_eq_true, if_false]

theorem runFor_reads {cmd : CacheCmd} {reply : cmd.Res} {answer : Op → Env} {α : Type}
    {f : cmd.Res → Svc α} (hanswer : (answer (.cache cmd)).fail = false)
    (hrun : cmd.run w.cache (answer (.cache cmd)) = (reply, w.cache)) :
    machine.runFor answer p (cache cmd >>= f) w = machine.runFor answer p (f reply) w := by
  rw [runFor_do (runFor_cache hanswer), hrun]

theorem freeCandidates_runs (raw : List Nat) : ∀ result : List Nat,
    result.length < cfg.candidates →
    machine.runFor (answering distance geo branches) p (freeCandidates cfg region raw result) w =
      (.returned (result ++ (raw.filter (w.cache.eligible region)).take
        (cfg.candidates - result.length)), w) := by
  induction raw with
  | nil =>
    intro result _
    rw [List.filter_nil, List.take_nil, List.append_nil]
    rfl
  | cons agentId raw ih =>
    intro result hresult
    unfold freeCandidates
    have hpresence : ∀ e, CacheCmd.run w.cache e (.keyExists (.presence region agentId))
        = ((w.cache.entries (.presence region agentId)).isSome, w.cache) := fun _ => rfl
    have hbusy : ∀ e, CacheCmd.run w.cache e (.sismemberBusy region agentId)
        = (w.cache.busy.contains (region, agentId), w.cache) := fun _ => rfl
    cases honline : (w.cache.entries (.presence region agentId)).isSome with
    | false =>
      have hineligible : ¬w.cache.eligible region agentId = true := by
        rw [Cache.eligible, honline, Bool.false_and]
        exact Bool.false_ne_true
      rw [honline] at hpresence
      rw [runFor_reads rfl (hpresence _), if_pos (by rfl), ih result hresult,
        List.filter_cons_of_neg hineligible]
    | true =>
      rw [honline] at hpresence
      rw [runFor_reads rfl (hpresence _), if_neg (by decide)]
      cases hfree : w.cache.busy.contains (region, agentId) with
      | true =>
        have hineligible : ¬w.cache.eligible region agentId = true := by
          rw [Cache.eligible, hfree, Bool.not_true, Bool.and_false]
          exact Bool.false_ne_true
        rw [hfree] at hbusy
        rw [runFor_reads rfl (hbusy _), if_pos rfl, ih result hresult,
          List.filter_cons_of_neg hineligible]
      | false =>
        have heligible : w.cache.eligible region agentId = true := by
          rw [Cache.eligible, honline, hfree]
          rfl
        rw [hfree] at hbusy
        have hlength : (result ++ [agentId]).length = result.length + 1 := List.length_append
        obtain ⟨rest, hrest⟩ := Nat.exists_eq_add_of_lt hresult
        have htake : cfg.candidates - result.length = rest + 1 := by omega
        rw [runFor_reads rfl (hbusy _), if_neg Bool.false_ne_true,
          List.filter_cons_of_pos heligible, htake, List.take_succ_cons]
        split_ifs with hfull
        · -- The loop breaks: this was the last one.
          have hnone : rest = 0 := by omega
          rw [hnone, List.take_zero]
          rfl
        · have hmore : cfg.candidates - (result ++ [agentId]).length = rest := by omega
          rw [ih (result ++ [agentId]) (by omega), hmore, List.append_assoc, List.singleton_append]

/-- What the selection finds, of all the members of the geo set within the radius. -/
theorem findCandidates_runs (lng lat : Int) :
    machine.runFor (answering distance geo branches) p (findCandidates cfg region lng lat) w =
      (.returned (w.cache.selected cfg region
        ((geo region).within distance (lng, lat) cfg.radiusMeters)), w) := by
  unfold findCandidates
  generalize hnearby : (geo region).within distance (lng, lat) cfg.radiusMeters = nearby
  have hsearch : CacheCmd.run w.cache (answering distance geo branches (.cache
      (.geosearchByRadius region lng lat cfg.radiusMeters (cfg.candidates * 4))))
      (.geosearchByRadius region lng lat cfg.radiusMeters (cfg.candidates * 4))
      = (nearby.take (cfg.candidates * 4), w.cache) := by
    rw [← hnearby]
    rfl
  rw [runFor_reads rfl hsearch]
  rcases Nat.eq_zero_or_pos cfg.candidates with hnone | hsome
  · rw [Cache.selected, hnone]
    rfl
  · rw [freeCandidates_runs _ [] hsome, List.nil_append, List.length_nil, Nat.sub_zero]
    rfl

/-- A prefix holds the first ones that are looked for if and only if it holds enough of them. -/
theorem take_filter_take {eligible : Nat → Bool} (nearby : List Nat) (count prefixLength : Nat) :
    ((nearby.take prefixLength).filter eligible).take count = (nearby.filter eligible).take count ↔
      min count (nearby.countP eligible) ≤ (nearby.take prefixLength).countP eligible := by
  have hsplit : nearby.filter eligible
      = (nearby.take prefixLength).filter eligible ++ (nearby.drop prefixLength).filter eligible := by
    rw [← List.filter_append, List.take_append_drop]
  have htotal := congrArg List.length hsplit
  rw [List.length_append] at htotal
  rw [List.countP_eq_length_filter, List.countP_eq_length_filter]
  constructor
  · intro hequal
    have hlength := congrArg List.length hequal
    rw [List.length_take, List.length_take] at hlength
    omega
  · intro henough
    rw [hsplit, List.take_append]
    have hrest : ((nearby.drop prefixLength).filter eligible).take
        (count - ((nearby.take prefixLength).filter eligible).length) = [] := by
      rw [List.take_eq_nil_iff, ← List.length_eq_zero_iff]
      omega
    rw [hrest, List.append_nil]

end Selection

section Result

/-- With Redis at hand `findCandidates` always returns, and it returns the first eligible agents
within the radius, in the order of their distance, if and only if the members of the geo set it
fetches hold that many eligible agents. -/
theorem candidates_complete (distance : Int × Int → Int × Int → ℚ) (geo : String → GeoSet)
    (branches : Nat → Option Branch) (cfg : Config) (region : String) (lng lat : Int) (w : World)
    (p : Pid) :
    let around := (geo region).within distance (lng, lat) cfg.radiusMeters
    let eligible := w.cache.eligible region
    ∃ result, machine.runFor (answering distance geo branches) p (findCandidates cfg region lng lat) w
        = (.returned result, w) ∧
      (result = (around.filter eligible).take cfg.candidates ↔
        min cfg.candidates (around.countP eligible)
          ≤ (around.take (cfg.candidates * 4)).countP eligible) :=
  ⟨_, findCandidates_runs lng lat, take_filter_take _ _ _⟩

/-- Twenty agents who went away without a word, and one behind them who is there. -/
def crowdedGeo : GeoSet where
  positions := (List.range 20).map (fun n => (n + 1, 0, 0)) ++ [(21, 0, 1)]
  nodup := by decide

/-- Only agent 21 is still present. -/
def onePresent : World :=
  { store := Store.ofDb {}
    cache := { entries := fun key => if key = .presence "eg" 21 then some .flag else none } }

/-- Along a meridian. -/
def alongMeridian (a b : Int × Int) : ℚ := ((a.2 - b.2).natAbs : Nat)

/-- Nobody is found, though agent 21 is free within the radius. -/
theorem candidate_hidden :
    ((machine.runFor (answering alongMeridian (fun _ => crowdedGeo) fun _ => none) 0
        (findCandidates sampleConfig "eg" 0 0) onePresent).1 matches .returned []) = true ∧
      ((crowdedGeo.within alongMeridian (0, 0) sampleConfig.radiusMeters).filter
        (onePresent.cache.eligible "eg")).take sampleConfig.candidates = [21] := by
  constructor <;> decide +kernel

end Result

end OrderService
