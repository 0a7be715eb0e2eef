import OrderService.OfferHistory

/-! The agents that the offer of an order holds: candidates of its most recent broadcast who have
not rejected it, unless a reject writes back a list that another call has changed since. -/
namespace OrderService
open ReadCommitted Interleaving

section Statement

variable (work : Pid → Option OfferCall) (publicId : String)

/-- A reject of the agent has read the offer of the most recent broadcast and written it after
that. -/
def Rejected (agentId : Nat) (log : List Entry) : Prop :=
  ∃ p, work p = some (.reject publicId agentId) ∧
    ∃ w r, [w, r].Sublist (since (beginsOffer publicId) log) ∧
      writesOffer publicId p w = true ∧ readsOffer publicId p r = true

/-- The agents are candidates of the most recent broadcast who have not rejected it. -/
def StillOffered (agents : List Nat) (log : List Entry) : Prop :=
  ∃ candidates, lastBroadcast publicId log = some candidates ∧
    ∀ a ∈ agents, a ∈ candidates ∧ ¬Rejected work publicId a log

def OffersOpen (r : OfferWorld) : Prop :=
  ∀ publicId v, r.world.cache.entries (.offer publicId) = some v →
    StillOffered work publicId (candidateIds v) r.log

/-- A reject writes an offer back only if no broadcast of the order began since it read the offer,
and no reject of another agent wrote or deleted it. -/
def WritesUnraced (p : Pid) (o : Op) (_ : Env) (r : OfferWorld) : Prop :=
  match o with
  | .cache (.set (.offer publicId) _ _) => ∀ h ∈ since (readsOffer publicId p) r.log,
      beginsOffer publicId h = false ∧ ∀ q agentId, work q = some (.reject publicId agentId) →
        work q ≠ work p → writesOffer publicId q h = false
  | _ => True

end Statement

section Steps

variable {work : Pid → Option OfferCall} {publicId : String} {p : Pid} {o : Op} {e : Env}
  {w w' : World} {a : Except Err o.Res} {log : List Entry} {h : Entry} {agents : List Nat}

theorem cache_run_offer (publicId : String) {c : CacheCmd} (hc : (Op.cache c).LeavesOffers)
    (m : Cache) (e : Env) :
    (c.run m e).2.entries (.offer publicId) = m.entries (.offer publicId) ∨
      (c.run m e).2.entries (.offer publicId) = none ∨
      ∃ value ttl, c = .trySet (.offer publicId) value ttl ∧ m.entries (.offer publicId) = none ∧
        (c.run m e).2.entries (.offer publicId) = some value := by
  have hset : ∀ key value, key ≠ .offer publicId →
      (m.set key value).entries (.offer publicId) = m.entries (.offer publicId) :=
    fun key value hne => Function.update_of_ne hne.symm ..
  cases c with
  | trySet key value ttl =>
    simp only [CacheCmd.run]
    cases hkey : m.entries key with
    | some v => exact .inl rfl
    | none =>
      by_cases hsame : key = .offer publicId
      · subst hsame
        exact .inr (.inr ⟨value, ttl, rfl, hkey, Function.update_self ..⟩)
      · exact .inl (hset key _ hsame)
  | set key value ttl =>
    left
    apply hset
    rintro rfl
    exact hc
  | del key =>
    by_cases hsame : key = .offer publicId
    · subst hsame
      exact .inr (.inl (Function.update_self ..))
    · exact .inl (hset key _ hsame)
  | incr key =>
    left
    apply hset
    rintro rfl
    exact hc
  | saddBusy region agentId =>
    left
    simp only [CacheCmd.run]
    split <;> rfl
  | _ => exact .inl rfl

/-- What an operation that leaves the offers makes of one: nothing, it deletes it, or it begins a
broadcast. -/
theorem exec_offer (publicId : String) (ho : o.LeavesOffers) (hx : exec p o e w = some (a, w')) :
    w'.cache.entries (.offer publicId) = w.cache.entries (.offer publicId) ∨
      w'.cache.entries (.offer publicId) = none ∨
      ∃ value ttl, o = .cache (.trySet (.offer publicId) value ttl) ∧ a.isOk = true ∧
        w.cache.entries (.offer publicId) = none ∧
        w'.cache.entries (.offer publicId) = some value := by
  rcases exec_cached hx with hsame | ⟨c, rfl, hok, hrun⟩
  · exact .inl (by rw [hsame])
  · rcases cache_run_offer publicId ho w.cache e with hsame | hnone | ⟨value, ttl, rfl, hnone, hsome⟩
    · exact .inl (by rw [hrun, hsame])
    · exact .inr (.inl (by rw [hrun, hnone]))
    · exact .inr (.inr ⟨value, ttl, rfl, hok, hnone, by rw [hrun, hsome]⟩)

theorem lastBroadcast_cons (hb : beginsOffer publicId h = false) :
    lastBroadcast publicId (h :: log) = lastBroadcast publicId log := by
  simp only [lastBroadcast, List.find?_cons, hb]

/-- An entry changes nothing unless it begins a broadcast or is the write of a reject of one of the
agents. -/
theorem StillOffered.cons (hopen : StillOffered work publicId agents log)
    (hb : beginsOffer publicId h = false)
    (hw : ∀ p, ∀ b ∈ agents, work p = some (.reject publicId b) →
      writesOffer publicId p h = false) :
    StillOffered work publicId agents (h :: log) := by
  obtain ⟨candidates, hlast, hagents⟩ := hopen
  refine ⟨candidates, (lastBroadcast_cons hb).trans hlast, fun b hmem => ?_⟩
  obtain ⟨hcandidate, hnot⟩ := hagents b hmem
  refine ⟨hcandidate, fun hrejected => hnot ?_⟩
  obtain ⟨q, hwork, x, r, hsub, hwrites, hreads⟩ := hrejected
  rw [since_cons_of_false hb] at hsub
  have hsub : [x, r].Sublist ([h] ++ since (beginsOffer publicId) log) := hsub
  rcases mem_or_sublist hsub with hnew | hold
  · rw [List.mem_singleton.mp hnew, hw q b hmem hwork] at hwrites
    cases hwrites
  · exact ⟨q, hwork, x, r, hold, hwrites, hreads⟩

/-- A step of nobody is no event of an offer. -/
theorem offersOpen_quiet {r : OfferWorld} (hI : OffersOpen work r) {w : World}
    (hw : ∀ publicId v, w.cache.entries (.offer publicId) = some v →
      r.world.cache.entries (.offer publicId) = some v) :
    OffersOpen work (r.next none true w) :=
  fun publicId v hv => (hI publicId v (hw publicId v hv)).cons rfl fun _ _ _ _ => rfl

theorem offersOpen_next {r : OfferWorld} (ho : o.LeavesOffers)
    (hx : machine.exec p o e r.world = some (a, w')) (hI : OffersOpen work r) :
    OffersOpen work (r.next (some (p, o)) a.isOk w') := by
  intro publicId v hv
  have hv' : w'.cache.entries (.offer publicId) = some v := hv
  rcases exec_offer publicId ho hx with hsame | hnone | ⟨value, ttl, rfl, hok, hnone, hsome⟩
  · have hbefore : r.world.cache.entries (.offer publicId) = some v := hsame.symm.trans hv'
    apply (hI publicId v hbefore).cons
    · apply Bool.eq_false_iff.mpr
      intro hb
      rw [(beginsOffer_act hb).2] at hbefore
      cases hbefore
    · intro q b _ _
      apply Bool.eq_false_iff.mpr
      intro hw
      -- The write of a reject is a deletion here, and the offer is there.
      have hdone : a.isOk = true := writesOffer_done hw
      rcases writesOffer_act hw with ⟨value, ttl, hact⟩ | hact
      · cases hact
        exact ho
      · cases hact
        have hnone : w'.cache.entries (.offer publicId) = none := exec_del (p := p) hdone hx
        rw [hnone] at hv'
        cases hv'
  · rw [hnone] at hv'
    cases hv'
  · have hbegins : beginsOffer publicId ⟨some (p, .cache (.trySet (.offer publicId) value ttl)),
        a.isOk, r.world⟩ = true := by simp [beginsOffer, hok, hnone]
    obtain rfl : value = v := Option.some.inj (hsome.symm.trans hv')
    refine ⟨candidateIds value, ?_, fun b hb => ⟨hb, ?_⟩⟩
    · simp only [lastBroadcast, Recorded.next, List.find?_cons, hbegins, Option.map_some, offeredTo]
    · rintro ⟨q, _, x, y, hsub, _⟩
      rw [Recorded.next, since_cons_of_true hbegins] at hsub
      cases hsub

/-- The process has read an offer that was still open, and no newer read of it. -/
def HasRead (work : Pid → Option OfferCall) (publicId : String) (p : Pid) (agents : List Nat)
    (r : OfferWorld) : Prop :=
  ∃ new x old, r.log = new ++ x :: old ∧ (∀ h ∈ new, readsOffer publicId p h = false) ∧
    readsOffer publicId p x = true ∧ StillOffered work publicId agents old

theorem HasRead.add {r : OfferWorld} (hread : HasRead work publicId p agents r)
    (new : List Entry) {r' : OfferWorld} (hlog : r'.log = new ++ r.log)
    (hnew : ∀ h ∈ new, readsOffer publicId p h = false) :
    HasRead work publicId p agents r' := by
  obtain ⟨new', x, old, hold, hnew', hx, hopen⟩ := hread
  refine ⟨new ++ new', x, old, by rw [hlog, hold, List.append_assoc], fun h hh => ?_, hx, hopen⟩
  rcases List.mem_append.mp hh with hh | hh
  · exact hnew h hh
  · exact hnew' h hh

theorem readsOffer_of_act (hother : ∀ o, h.act ≠ some (p, o)) :
    readsOffer publicId p h = false := by
  apply Bool.eq_false_iff.mpr
  intro hr
  exact hother _ (readsOffer_act hr)

theorem HasRead.later {r r' : OfferWorld} (hread : HasRead work publicId p agents r)
    (hr : Later p r r') : HasRead work publicId p agents r' := by
  obtain ⟨new, hlog, hother⟩ := hr
  exact hread.add new hlog fun h hh => readsOffer_of_act (hother h hh)

/-- Where no other call came between, the agents that are left are still open. -/
theorem HasRead.open {r : OfferWorld} {agentId : Nat} (hread : HasRead work publicId p agents r)
    (hwork : work p = some (.reject publicId agentId))
    (hraced : ∀ h ∈ since (readsOffer publicId p) r.log,
      beginsOffer publicId h = false ∧ ∀ q agentId, work q = some (.reject publicId agentId) →
        work q ≠ work p → writesOffer publicId q h = false) :
    StillOffered work publicId (agents.filter (· ≠ agentId)) r.log := by
  obtain ⟨new, x, old, hlog, hnew, hx, candidates, hlast, hagents⟩ := hread
  have hsince : since (readsOffer publicId p) r.log = new := by
    rw [hlog]
    exact since_eq hnew hx
  rw [hsince] at hraced
  have hread : beginsOffer publicId x = false ∧ ∀ q, writesOffer publicId q x = false := by
    have hact := readsOffer_act hx
    constructor
    · apply Bool.eq_false_iff.mpr
      intro hb
      obtain ⟨⟨q, value, ttl, hact'⟩, _⟩ := beginsOffer_act hb
      rw [hact] at hact'
      cases hact'
    · intro q
      apply Bool.eq_false_iff.mpr
      intro hw
      rcases writesOffer_act hw with ⟨value, ttl, hact'⟩ | hact' <;> rw [hact] at hact' <;>
        cases hact'
  have hquiet : ∀ h ∈ new ++ [x], beginsOffer publicId h = false := by
    intro h hh
    rcases List.mem_append.mp hh with hh | hh
    · exact (hraced h hh).1
    · exact List.mem_singleton.mp hh ▸ hread.1
  have hlog' : r.log = (new ++ [x]) ++ old := by
    rw [hlog, List.append_assoc]
    rfl
  refine ⟨candidates, ?_, fun b hb => ?_⟩
  · rw [lastBroadcast, hlog', find?_append_of_false hquiet]
    exact hlast
  · obtain ⟨hmem, hne⟩ : b ∈ agents ∧ b ≠ agentId := by simpa using hb
    obtain ⟨hcandidate, hnot⟩ := hagents b hmem
    refine ⟨hcandidate, fun hrejected => hnot ?_⟩
    obtain ⟨q, hq, y, z, hsub, hwrites, hreads⟩ := hrejected
    rw [hlog', since_append hquiet] at hsub
    rcases mem_or_sublist hsub with hnewer | hold
    · -- A write since the read is one of a reject of the same agent.
      exfalso
      rcases List.mem_append.mp hnewer with hin | hin
      · have hother : work q ≠ work p := by
          rw [hq, hwork]
          intro heq
          cases heq
          exact hne rfl
        rw [(hraced y hin).2 q b hq hother] at hwrites
        cases hwrites
      · rw [List.mem_singleton.mp hin, hread.2 q] at hwrites
        cases hwrites
    · exact ⟨q, hq, y, z, hold, hwrites, hreads⟩

/-- A reject writes back what is left of an offer that nobody has changed since. -/
theorem offersOpen_set {r : OfferWorld} {agentId ttl : Nat} {remaining : List Nat}
    {a : Except Err Unit} (hwork : work p = some (.reject publicId agentId))
    (hread : HasRead work publicId p agents r) (hremaining : remaining = agents.filter (· ≠ agentId))
    (hok : WritesUnraced work p (.cache (.set (.offer publicId) (.ids remaining) ttl)) e r)
    (hx : exec p (.cache (.set (.offer publicId) (.ids remaining) ttl)) e r.world = some (a, w'))
    (hI : OffersOpen work r) :
    OffersOpen work (r.next (some (p, .cache (.set (.offer publicId) (.ids remaining) ttl)))
      a.isOk w') := by
  intro orderId v hv
  have hv' : w'.cache.entries (.offer orderId) = some v := hv
  simp only [exec] at hx
  split_ifs at hx
  · cases hx
    exact (hI orderId v hv').cons rfl fun q b _ _ => by simp [writesOffer, Except.isOk, Except.toBool]
  · cases hx
    by_cases hsame : orderId = publicId
    · subst hsame
      obtain rfl : CacheValue.ids remaining = v := by
        simpa [CacheCmd.run, Cache.set] using hv'
      have hopen : StillOffered work orderId remaining r.log := hremaining ▸ hread.open hwork hok
      apply hopen.cons rfl
      -- The write is one of this agent, whom the list does not hold.
      intro q b hb hq
      apply Bool.eq_false_iff.mpr
      intro hw
      obtain rfl : p = q := by
        rcases writesOffer_act hw with ⟨value, ttl, hact⟩ | hact <;> cases hact
        rfl
      rw [hwork] at hq
      cases hq
      simp [hremaining] at hb
    · have hother : r.world.cache.entries (.offer orderId) = some v := by
        simpa [CacheCmd.run, Cache.set, hsame] using hv'
      apply (hI orderId v hother).cons rfl
      intro q b _ _
      apply Bool.eq_false_iff.mpr
      intro hw
      rcases writesOffer_act hw with ⟨value, ttl, hact⟩ | hact <;> cases hact
      exact hsame rfl

end Steps

section Programs

variable {work : Pid → Option OfferCall} {cfg : Config} {publicId : String} {p : Pid}
  {agentId : Nat} {r : OfferWorld}

/-- Every read of the offer by the process is followed by a write of it. -/
def ReadsWritten (publicId : String) (p : Pid) (r : OfferWorld) : Prop :=
  ∀ later x earlier, r.log = later ++ x :: earlier → readsOffer publicId p x = true →
    ∃ y ∈ later, writesOffer publicId p y = true

theorem readsWritten_of_write {log : List Entry} {x : Entry}
    (hx : writesOffer publicId p x = true) {w : World} :
    ReadsWritten publicId p ⟨w, x :: log⟩ := by
  intro later y earlier hlog hy
  cases later with
  | nil =>
    obtain ⟨rfl, _⟩ := List.cons.inj hlog
    rcases writesOffer_act hx with ⟨value, ttl, hact⟩ | hact <;> rw [readsOffer_act hy] at hact <;>
      cases hact
  | cons z later =>
    obtain ⟨rfl, _⟩ := List.cons.inj hlog
    exact ⟨x, List.mem_cons_self, hx⟩

theorem ReadsWritten.later {r' : OfferWorld} (h : ReadsWritten publicId p r) (hr : Later p r r') :
    ReadsWritten publicId p r' := by
  obtain ⟨new, hnew, hother⟩ := hr
  intro later x earlier hlog hx
  rw [hnew] at hlog
  rcases List.append_eq_append_iff.mp hlog with ⟨rest, rfl, hold⟩ | ⟨rest, rfl, hold⟩
  · obtain ⟨y, hy, hwrites⟩ := h rest x earlier hold hx
    exact ⟨y, List.mem_append_right new hy, hwrites⟩
  · cases rest with
    | nil =>
      obtain ⟨y, hy, _⟩ := h [] x earlier hold.symm hx
      cases hy
    | cons z rest =>
      -- The read is the process's own, so it is none of the others' entries.
      obtain ⟨rfl, _⟩ := List.cons.inj hold
      exact absurd (readsOffer_act hx) (hother x (by simp) _)

abbrev offerSpec (work : Pid → Option OfferCall) : Spec Pid OfferWorld :=
  recordedSpec (OffersOpen work)

/-- A write of the offer is the last thing that a reject does. -/
theorem wp_writeOffer (publicId : String) {c : CacheCmd} {P : c.Res → OfferWorld → Prop}
    (hentry : ∀ world, writesOffer publicId p ⟨some (p, .cache c), true, world⟩ = true)
    (hopen : ∀ r₁ e a w, Later p r r₁ → OffersOpen work r₁ → WritesUnraced work p (.cache c) e r₁ →
      exec p (.cache c) e r₁.world = some (a, w) →
      OffersOpen work (r₁.next (some (p, .cache c)) a.isOk w))
    (hP : ∀ a r, ReadsWritten publicId p r → P a r) :
    wp machine.recorded (WritesUnraced work) (offerSpec work) p (cache c) (OnOk P) r := by
  apply wp_recorded
  intro r₁ hr hi e a w hok hx
  refine ⟨hopen r₁ e a w hr hi hok hx, ?_⟩
  cases a with
  | error err => trivial
  | ok a => exact hP a _ (readsWritten_of_write (hentry r₁.world))

theorem wp_rejectOffer (hwork : work p = some (.reject publicId agentId)) :
    wp machine.recorded (WritesUnraced work) (offerSpec work) p (rejectOffer publicId agentId)
      (OnOk fun _ r => ReadsWritten publicId p r) r := by
  apply wp_seq
  apply wp_recorded
  intro r₁ _ hi e a w _ hx
  refine ⟨offersOpen_next trivial hx hi, ?_⟩
  cases a with
  | error err => trivial
  | ok offered =>
    obtain ⟨hoffered, _⟩ : r₁.world.cache.entries (.offer publicId) = offered ∧ w = r₁.world := by
      simp only [machine, exec] at hx
      split_ifs at hx
      · cases hx
      · cases hx
        exact ⟨rfl, rfl⟩
    cases offered with
    | none => trivial
    | some value =>
      -- What it read was open when it read it.
      have hread : HasRead work publicId p (candidateIds value)
          (r₁.next (some (p, .cache (.get (.offer publicId)))) true w) :=
        ⟨[], _, r₁.log, rfl, fun h hh => absurd hh List.not_mem_nil, by simp [readsOffer],
          hi publicId value hoffered⟩
      show wp _ _ _ p (if agentId ∉ candidateIds value then _ else _) _ _
      split_ifs with hmem
      case neg => trivial
      show wp _ _ _ p (if ((candidateIds value).filter (· ≠ agentId)).isEmpty then _ else _) _ _
      split_ifs
      · apply wp_seq
        apply wp_writeOffer publicId
        · exact fun _ => by simp [writesOffer]
        · exact fun r₂ e a w _ hi _ hx => offersOpen_next trivial hx hi
        · exact fun _ _ h => h
      · apply wp_seq
        apply wp_recorded
        intro r₂ hr hi e a w₂ _ hx
        refine ⟨offersOpen_next trivial hx hi, ?_⟩
        have hread₂ : HasRead work publicId p (candidateIds value)
            (r₂.next (some (p, .cache (.ttl (.offer publicId)))) a.isOk w₂) :=
          by
          refine (hread.later hr).add [_] rfl fun h hh => ?_
          rw [List.mem_singleton.mp hh]
          rfl
        cases a with
        | error err => trivial
        | ok remainingTtl =>
          apply wp_writeOffer publicId
          · exact fun _ => by simp [writesOffer]
          · intro r₃ e a w₃ hr hi hok hx
            exact offersOpen_set hwork (hread₂.later hr) rfl hok hx hi
          · exact fun _ _ h => h

/-- What a call leaves that has returned. -/
def Finished (call : Option OfferCall) (p : Pid) : Except Err Unit → OfferWorld → Prop :=
  OnOk fun _ r => ∀ publicId agentId, call = some (.reject publicId agentId) →
    ReadsWritten publicId p r

theorem wp_leaves {α : Type} {prog : Svc α} (h : Only Op.LeavesOffers prog) :
    wp machine.recorded (WritesUnraced work) (offerSpec work) p prog (fun _ _ => True) r := by
  apply wp_mono (fun _ _ _ => trivial)
  apply wp_calls_recorded (A := fun _ => True) (fun _ _ _ _ => trivial) _ h trivial
  exact fun o e r a w ho _ hx hI _ => ⟨offersOpen_next ho hx hI, trivial⟩

theorem wp_offerCall {call : OfferCall} (hwork : work p = some call) :
    wp machine.recorded (WritesUnraced work) (offerSpec work) p (call.prog cfg)
      (Finished (work p) p) r := by
  have hother : ∀ {α : Type} {prog : Svc α}, (∀ publicId agentId, call ≠ .reject publicId agentId) →
      Only Op.LeavesOffers prog → wp machine.recorded (WritesUnraced work) (offerSpec work) p
        (do let _ ← prog; pure ()) (Finished (work p) p) r := by
    intro α prog hcall h
    apply wp_seq
    apply wp_mono _ (wp_leaves h)
    intro a r _
    cases a with
    | error err => trivial
    | ok a =>
      intro publicId agentId hreject
      rw [hwork] at hreject
      exact absurd (Option.some.inj hreject) (hcall publicId agentId)
  cases call with
  | tryAssign order region => exact hother (fun _ _ => nofun) leaves_tryAssign
  | claim publicId agentId region =>
    exact hother (fun _ _ => nofun) (calm_claim.weaken fun _ ho => ho.leavesOffers)
  | adminAssign publicId agentId region =>
    exact hother (fun _ _ => nofun) (calm_adminAssign.weaken fun _ ho => ho.leavesOffers)
  | reject publicId agentId =>
    apply wp_mono _ (wp_rejectOffer hwork)
    intro a r hr
    cases a with
    | error err => trivial
    | ok a =>
      intro orderId agentId' hreject
      rw [hwork] at hreject
      cases hreject
      exact hr

end Programs

section Result

variable {work : Pid → Option OfferCall} {cfg : Config} {publicId : String} {w : World}

theorem offerSpec_fits : (offerSpec work).Fits machine.recorded := by
  apply recordedSpec_fits
  · exact fun p r h => offersOpen_quiet h fun _ _ hv => hv
  · intro x r h
    cases x with
    | tick d => exact offersOpen_quiet h fun _ _ hv => hv
    | drop key =>
      apply offersOpen_quiet h
      intro orderId v hv
      by_cases hkey : key = .offer orderId
      · subst hkey
        simp [machine, Cache.set] at hv
      · simpa [machine, Cache.set, Function.update_of_ne (Ne.symm hkey)] using hv

/-- In every interleaving an offer holds candidates of the most recent broadcast, none of whom has
had a reject of it return, as long as no reject writes back a list that was changed since. -/
theorem offer_integrity (cfg : Config) (work : Pid → Option OfferCall)
    (hw : ∀ publicId, w.cache.entries (.offer publicId) = none) {t : OfferSys}
    (h : machine.recorded.Reaches (WritesUnraced work) (offering cfg work w) t) {v : CacheValue}
    (hv : t.world.world.cache.entries (.offer publicId) = some v) :
    ∃ candidates, lastBroadcast publicId t.world.log = some candidates ∧
      ∀ a ∈ candidateIds v, a ∈ candidates ∧ ∀ p, work p = some (.reject publicId a) →
        t.procs p = some (.pure ()) →
          ∀ x ∈ since (beginsOffer publicId) t.world.log, readsOffer publicId p x = false := by
  have hsound : Sound machine.recorded (WritesUnraced work) (offerSpec work)
      (fun p => Finished (work p) p) t := by
    refine sound_reaches offerSpec_fits ?_ ⟨fun orderId v hv => ?_, fun p prog hp => ?_⟩ h
    · intro p r w w' hr _ hfin
      cases r with
      | error err => trivial
      | ok a => exact fun publicId agentId hreject => (hfin publicId agentId hreject).later hr
    · rw [show (offering cfg work w).world.world = w from rfl, hw orderId] at hv
      cases hv
    · obtain ⟨call, hcall, rfl⟩ := Option.map_eq_some_iff.mp hp
      exact wp_offerCall hcall
  obtain ⟨candidates, hlast, hagents⟩ := hsound.1 publicId v hv
  refine ⟨candidates, hlast, fun a ha => ⟨(hagents a ha).1, fun p hwork hdone x hx => ?_⟩⟩
  apply Bool.eq_false_iff.mpr
  intro hreads
  apply (hagents a ha).2
  -- The reject has returned, so its read is followed by a write of the same broadcast.
  have hfin : Finished (work p) p (.ok ()) t.world := hsound.2 p (.pure ()) hdone
  obtain ⟨earlier, hlog⟩ := since_prefix (beginsOffer publicId) t.world.log
  obtain ⟨newer, older, hsince⟩ := List.append_of_mem hx
  have hsplit : t.world.log = newer ++ x :: (older ++ earlier) := by
    rw [hlog, hsince, List.append_assoc]
    rfl
  obtain ⟨y, hy, hwrites⟩ := hfin publicId a hwork newer x (older ++ earlier) hsplit hreads
  refine ⟨p, hwork, y, x, ?_, hwrites, hreads⟩
  rw [hsince]
  exact (List.singleton_sublist.mpr hy).append (List.singleton_sublist.mpr List.mem_cons_self)

/-- Two agents are around the branch of an order that is ready. -/
def twoAgents : World where
  store := Store.ofDb {}
  cache := (Cache.set {} (.presence "eg" 1) (some .flag)).set (.presence "eg" 2) (some .flag)

/-- The order is offered to both, and both reject it. -/
def bothReject : Pid → Option OfferCall
  | 0 => some (.tryAssign (OrderEntity.sample "order-1" .ready) "eg")
  | 1 => some (.reject "order-1" 1)
  | 2 => some (.reject "order-1" 2)
  | _ => none

def offerToBoth : List (Label Pid Env Ext) := List.replicate 13 (.act 0 { nearby := [1, 2] })

/-- The first reject comes to its end before the second begins. -/
def rejectsInTurn : List (Label Pid Env Ext) :=
  offerToBoth ++ [.act 1 {}, .act 1 {}, .act 1 {}, .act 2 {}]

/-- Both read the offer before either writes it. -/
def rejectsAtOnce : List (Label Pid Env Ext) :=
  offerToBoth ++ [.act 1 {}, .act 2 {}, .act 1 {}, .act 1 {}, .act 2 {}, .act 2 {}]

/-- Whether a call that writes an offer back made every step since it read the offer. -/
def inOneGo (p : Pid) (o : Op) (_ : Env) (r : OfferWorld) : Bool :=
  match o with
  | .cache (.set (.offer publicId) _ _) => (since (readsOffer publicId p) r.log).all fun h =>
      !beginsOffer publicId h && h.act.all fun x => x.1 = p
  | _ => true

theorem writesUnraced_of_inOneGo (work : Pid → Option OfferCall) (p : Pid) (o : Op) (e : Env) (r : OfferWorld)
    (h : inOneGo p o e r = true) : WritesUnraced work p o e r := by
  unfold inOneGo at h
  unfold WritesUnraced
  split at h
  · intro x hx
    have hx' := List.all_eq_true.mp h x hx
    obtain ⟨hbegins, hact⟩ := Bool.and_eq_true_iff.mp hx'
    refine ⟨by simpa using hbegins, fun q agentId _ hne => ?_⟩
    apply Bool.eq_false_iff.mpr
    intro hw
    rcases writesOffer_act hw with ⟨value, ttl, hsome⟩ | hsome
    · rw [hsome] at hact
      exact hne (by simpa using congrArg work (of_decide_eq_true hact))
    · rw [hsome] at hact
      exact hne (by simpa using congrArg work (of_decide_eq_true hact))
  · trivial

/-- What is left of the offer, and which rejects have returned. -/
def offerLeft (t : OfferSys) : Option CacheValue × Bool × Bool :=
  let returned (p : Pid) := match t.procs p with
    | some (.pure _) => true
    | _ => false
  (t.world.world.cache.entries (.offer "order-1"), returned 1, returned 2)

theorem procs_of_returned {t : OfferSys} {p : Pid}
    (h : (match t.procs p with | some (.pure _) => true | _ => false) = true) :
    t.procs p = some (.pure ()) := by
  split at h
  · next hp => exact hp
  · cases h

theorem offer_integrity_in_turn : ∃ t : OfferSys,
    t.world.world.cache.entries (.offer "order-1") = some (.ids [2]) ∧
      t.procs 1 = some (.pure ()) ∧
      ∃ candidates, lastBroadcast "order-1" t.world.log = some candidates ∧
        ∀ a ∈ [2], a ∈ candidates ∧ ∀ p, bothReject p = some (.reject "order-1" a) →
          t.procs p = some (.pure ()) →
            ∀ x ∈ since (beginsOffer "order-1") t.world.log,
              readsOffer "order-1" p x = false := by
  have hrun : (machine.recorded.run inOneGo rejectsInTurn
      (offering sampleConfig bothReject twoAgents)).map offerLeft
        = some (some (.ids [2]), true, false) := by decide +kernel
  obtain ⟨t, ht, hleft⟩ := Option.map_eq_some_iff.mp hrun
  have hreach := Machine.reaches_of_run (writesUnraced_of_inOneGo bothReject) rejectsInTurn ht
  have hkey : t.world.world.cache.entries (.offer "order-1") = some (.ids [2]) :=
    congrArg Prod.fst hleft
  have hnone : ∀ publicId, twoAgents.cache.entries (.offer publicId) = none := fun _ => rfl
  refine ⟨t, hkey, procs_of_returned (congrArg (fun x => x.2.1) hleft), ?_⟩
  exact offer_integrity sampleConfig bothReject hnone hreach hkey

/-- Both rejects read the offer before one writes it: the second writes back the agent who has
rejected first. -/
theorem reject_lost : ∃ t : OfferSys,
    machine.recorded.Reaches (fun _ _ _ _ => True) (offering sampleConfig bothReject twoAgents) t ∧
      t.world.world.cache.entries (.offer "order-1") = some (.ids [1]) ∧
      bothReject 1 = some (.reject "order-1" 1) ∧ t.procs 1 = some (.pure ()) ∧
      ∃ x ∈ since (beginsOffer "order-1") t.world.log, readsOffer "order-1" 1 x = true := by
  have hrun : (machine.recorded.run (fun _ _ _ _ => true) rejectsAtOnce
      (offering sampleConfig bothReject twoAgents)).map (fun t => (offerLeft t,
        (since (beginsOffer "order-1") t.world.log).any (readsOffer "order-1" 1)))
        = some ((some (.ids [1]), true, true), true) := by decide +kernel
  obtain ⟨t, ht, hend⟩ := Option.map_eq_some_iff.mp hrun
  have hleft : offerLeft t = (some (.ids [1]), true, true) := congrArg Prod.fst hend
  have hread : (since (beginsOffer "order-1") t.world.log).any (readsOffer "order-1" 1) = true :=
    congrArg Prod.snd hend
  exact ⟨t, Machine.reaches_of_run (fun _ _ _ _ _ => trivial) rejectsAtOnce ht,
    congrArg Prod.fst hleft, rfl, procs_of_returned (congrArg (fun x => x.2.1) hleft),
    List.any_eq_true.mp hread⟩

end Result

end OrderService
