import OrderService.Interleaving.Trace
import OrderService.Services.CoreEvents

/-! An acknowledged core event was handled, unless a consumer took the mark of one that had died
or failed for a handled event. -/
namespace OrderService
open Interleaving

section Invariant

variable (w : EventsWorld)

/-- A handler of the event may still come to its end: the consumer that has set the mark lives. -/
def EventsWorld.Underway (event : CoreEventEnvelope) : Prop :=
  ∃ q m, w.stage q = .marked m ∧ m.event = some event

/-- The message will come to a consumer, or one has it that may still call the handler. -/
def EventsWorld.Pending (m : CoreMessage) : Prop :=
  w.broker m = .ready ∨
    ∃ q, w.broker m = .inFlight q ∧ (w.stage q = .received m ∨ w.stage q = .marked m)

/-- No consumer finds the mark of an event with a handler that is neither handled nor about to be,
and nothing fails for an event that another consumer took for processed. -/
def MarkTrue (p : Nat) (o : EventOp) (e : EventEnv) (w : EventsWorld) : Prop :=
  match o with
  | .trySet key _ _ => ∀ event, w.event p = some event → event.hasHandler = true →
    (e.fail = true → event ∉ w.skipped) ∧
      (e.fail = false → key ∈ w.marks → event ∈ w.completed ∨ w.Underway event)
  | .runHandler event => e.fail = true → event ∉ w.skipped
  | _ => True

/-- What is acknowledged was handled or skipped; what was skipped is handled or may still be. -/
structure EventsInv : Prop where
  acked : ∀ m event, m.event = some event → event.hasHandler = true → w.broker m = .acked →
    event ∈ w.completed ∨ event ∈ w.skipped
  skipped : ∀ event ∈ w.skipped, event.hasHandler = true →
    event ∈ w.completed ∨ ∃ m, m.event = some event ∧ w.Pending m
  held : ∀ q m, w.message q = some m → w.broker m = .inFlight q
  named : ∀ event ∈ w.skipped, ∃ key, event.eventId.text = .ok key

/-- What the others leave to a consumer: its message, and what is known of the events. -/
structure EventsRely (p : Nat) (w w' : EventsWorld) : Prop where
  stage : w'.stage p = w.stage p
  held : ∀ m, w.broker m = .inFlight p → w'.broker m = .inFlight p
  completed : ∀ event ∈ w.completed, event ∈ w'.completed
  skipped : ∀ event ∈ w.skipped, event ∈ w'.skipped

def eventsSpec : Spec Nat EventsWorld := ⟨EventsInv, EventsRely⟩

end Invariant

section Steps

variable {w w' : EventsWorld} {p q : Nat} {m m' : CoreMessage} {event : CoreEventEnvelope}

theorem EventsRely.refl : EventsRely p w w :=
  ⟨rfl, fun _ h => h, fun _ h => h, fun _ h => h⟩

theorem EventsRely.trans {w'' : EventsWorld} (h : EventsRely p w w') (h' : EventsRely p w' w'') :
    EventsRely p w w'' :=
  ⟨h'.stage.trans h.stage, fun m hm => h'.held m (h.held m hm),
    fun e he => h'.completed e (h.completed e he), fun e he => h'.skipped e (h.skipped e he)⟩

theorem message_eq_some :
    w.message p = some m ↔ w.stage p = .received m ∨ w.stage p = .marked m := by
  unfold EventsWorld.message
  cases w.stage p <;> simp

theorem EventsWorld.Pending.cases (h : w.Pending m) :
    w.broker m = .ready ∨ ∃ q, w.broker m = .inFlight q ∧ w.message q = some m := by
  simpa only [EventsWorld.Pending, ← message_eq_some] using h

/-- A step of one consumer that leaves alone what the others have. -/
theorem relies (hstage : ∀ q, q ≠ p → w'.stage q = w.stage q)
    (hheld : ∀ q m, q ≠ p → w.broker m = .inFlight q → w'.broker m = .inFlight q)
    (hcompleted : ∀ event ∈ w.completed, event ∈ w'.completed)
    (hskipped : ∀ event ∈ w.skipped, event ∈ w'.skipped) :
    ∀ q, q ≠ p → EventsRely q w w' :=
  fun q hq => ⟨hstage q hq, fun m => hheld q m hq, hcompleted, hskipped⟩

theorem message_enter_of_ne (s : ConsumerStage) (hq : q ≠ p) :
    (w.enter p s).message q = w.message q := by
  simp only [EventsWorld.message, EventsWorld.enter, Function.update_of_ne hq]

theorem stage_enter (s : ConsumerStage) : (w.enter p s).stage p = s := Function.update_self ..

theorem stage_enter_of_ne (s : ConsumerStage) (hq : q ≠ p) :
    (w.enter p s).stage q = w.stage q := Function.update_of_ne hq ..

/-- The consumer of `m` calls no handler any more. What this leaves of the event is handled, or
another consumer is at it. -/
theorem EventsInv.over (h : EventsInv w) (hm : w.message p = some m)
    (hevent : m.event = some event) {marks : List String}
    {completed skipped : List CoreEventEnvelope}
    (hcompleted : ∀ e ∈ w.completed, e ∈ completed) (hkept : ∀ e ∈ w.skipped, e ∈ skipped)
    (hskipped : ∀ e ∈ skipped, e ∈ w.skipped ∨ e = event ∧ ∃ key, event.eventId.text = .ok key)
    (hleft : event.hasHandler = true → event ∈ skipped → event ∈ completed ∨
      ∃ q m', q ≠ p ∧ w.message q = some m' ∧ m'.event = some event) :
    EventsInv { w.enter p .over with
      marks := marks, completed := completed, skipped := skipped } := by
  constructor
  case acked =>
    intro m' e he hhandler hacked
    rcases h.acked m' e he hhandler hacked with hc | hs
    · exact .inl (hcompleted e hc)
    · exact .inr (hkept e hs)
  case skipped =>
    intro e he hhandler
    by_cases heq : e = event
    · subst heq
      rcases hleft hhandler he with hc | ⟨q, m', hq, hm', hevent'⟩
      · exact .inl hc
      · refine .inr ⟨m', hevent', .inr ⟨q, h.held q m' hm', ?_⟩⟩
        have hstage := message_eq_some.mp hm'
        rwa [← stage_enter_of_ne .over hq] at hstage
    · have hold : e ∈ w.skipped := (hskipped e he).resolve_right fun hnew => heq hnew.1
      rcases h.skipped e hold hhandler with hc | ⟨m', hevent', hpending⟩
      · exact .inl (hcompleted e hc)
      · refine .inr ⟨m', hevent', ?_⟩
        rcases hpending.cases with hready | ⟨q, hflight, hm'⟩
        · exact .inl hready
        · -- Another event: it is not the message of the consumer that stops.
          have hq : q ≠ p := by
            rintro rfl
            rw [hm] at hm'
            cases hm'
            rw [hevent] at hevent'
            cases hevent'
            exact heq rfl
          have hstage := message_eq_some.mp hm'
          rw [← stage_enter_of_ne .over hq] at hstage
          exact .inr ⟨q, hflight, hstage⟩
  case held =>
    intro q m' hm'
    by_cases hq : q = p
    · subst hq
      simp [EventsWorld.message, EventsWorld.enter] at hm'
    · exact h.held q m' ((message_enter_of_ne .over hq).symm.trans hm')
  case named =>
    intro e he
    rcases hskipped e he with hold | ⟨rfl, hkey⟩
    · exact h.named e hold
    · exact hkey

theorem broker_settle_of_ne {d : Delivery} (hne : m' ≠ m) :
    (w.settle m d).broker m' = w.broker m' := Function.update_of_ne hne ..

/-- The consumer settles its message for good. -/
theorem EventsInv.settled (h : EventsInv w) (hm : w.broker m = .inFlight p) {d : Delivery}
    (hmine : ∀ m', w.message p = some m' → m' = m)
    (hover : ∀ event, m.event = some event → event ∈ w.skipped → event.hasHandler = true →
      w.stage p = .over)
    (hacked : ∀ event, m.event = some event → event.hasHandler = true → d = .acked →
      event ∈ w.completed ∨ event ∈ w.skipped) :
    EventsInv ((w.settle m d).enter p .over) := by
  have hother : ∀ q m', q ≠ p → w.message q = some m' → m' ≠ m := by
    rintro q m' hq hm' rfl
    have hflight := h.held q m' hm'
    rw [hm] at hflight
    cases hflight
    exact hq rfl
  constructor
  case acked =>
    intro m' e he hhandler hacked'
    by_cases hne : m' = m
    · subst hne
      have hd' : d = .acked := by simpa [EventsWorld.settle, EventsWorld.enter] using hacked'
      exact hacked e he hhandler hd'
    · exact h.acked m' e he hhandler ((broker_settle_of_ne hne).symm.trans hacked')
  case skipped =>
    intro e he hhandler
    rcases h.skipped e he hhandler with hc | ⟨m', hevent', hpending⟩
    · exact .inl hc
    refine .inr ⟨m', hevent', ?_⟩
    rcases hpending.cases with hready | ⟨q, hflight, hm'⟩
    · have hne : m' ≠ m := by
        rintro rfl
        rw [hm] at hready
        cases hready
      exact .inl ((broker_settle_of_ne hne).trans hready)
    · -- The message that is settled is pending no more, for its consumer has stopped.
      have hq : q ≠ p := by
        rintro rfl
        obtain rfl := hmine m' hm'
        have hstop := hover e hevent' he hhandler
        simp [EventsWorld.message, hstop] at hm'
      have hstage := message_eq_some.mp hm'
      rw [← stage_enter_of_ne .over hq] at hstage
      exact .inr ⟨q, (broker_settle_of_ne (hother q m' hq hm')).trans hflight, hstage⟩
  case held =>
    intro q m' hm'
    by_cases hq : q = p
    · subst hq
      simp [EventsWorld.message, EventsWorld.enter] at hm'
    · have hmessage : w.message q = some m' := (message_enter_of_ne .over hq).symm.trans hm'
      exact (broker_settle_of_ne (hother q m' hq hmessage)).trans (h.held q m' hmessage)
  case named => exact h.named

theorem rely_settled (d : Delivery) (hm : w.broker m = .inFlight p) :
    ∀ q, q ≠ p → EventsRely q w ((w.settle m d).enter p .over) := by
  apply relies
  · exact fun q hq => stage_enter_of_ne .over hq
  · intro q m' hq hflight
    have hne : m' ≠ m := by
      rintro rfl
      rw [hm] at hflight
      cases hflight
      exact hq rfl
    exact (broker_settle_of_ne hne).trans hflight
  · exact fun _ h => h
  · exact fun _ h => h

/-- Neither changes what the broker or the consumers have. -/
theorem EventsInv.marks (h : EventsInv w) (marks : List String) :
    EventsInv { w with marks := marks } :=
  ⟨h.acked, h.skipped, h.held, h.named⟩

/-- The consumer that waited gets a message, or the one that has it goes on to the handler. -/
theorem EventsInv.advance (h : EventsInv w) {s : ConsumerStage}
    (hs : s = .received m ∨ s = .marked m)
    (hfrom : w.broker m = .ready ∧ w.message p = none ∨
      w.broker m = .inFlight p ∧ w.message p = some m) :
    EventsInv ((w.settle m (.inFlight p)).enter p s) := by
  have hmessage : ((w.settle m (.inFlight p)).enter p s).message p = some m := by
    rw [message_eq_some, stage_enter]
    exact hs
  have hother : ∀ q m', q ≠ p → w.message q = some m' → m' ≠ m := by
    rintro q m' hq hm' rfl
    have hflight := h.held q m' hm'
    rcases hfrom with ⟨hready, _⟩ | ⟨hmine, _⟩
    · simp [hready] at hflight
    · rw [hmine] at hflight
      cases hflight
      exact hq rfl
  have hnow : ((w.settle m (.inFlight p)).enter p s).Pending m :=
    .inr ⟨p, Function.update_self .., message_eq_some.mp hmessage⟩
  constructor
  case acked =>
    intro m' e he hhandler hacked
    by_cases hne : m' = m
    · subst hne
      simp [EventsWorld.settle, EventsWorld.enter] at hacked
    · exact h.acked m' e he hhandler ((broker_settle_of_ne hne).symm.trans hacked)
  case skipped =>
    intro e he hhandler
    rcases h.skipped e he hhandler with hc | ⟨m', hevent', hpending⟩
    · exact .inl hc
    refine .inr ⟨m', hevent', ?_⟩
    by_cases hne : m' = m
    · exact hne ▸ hnow
    rcases hpending.cases with hready | ⟨q, hflight, hm'⟩
    · exact .inl ((broker_settle_of_ne hne).trans hready)
    · have hq : q ≠ p := by
        rintro rfl
        rcases hfrom with ⟨_, hnone⟩ | ⟨_, hmine⟩
        · simp [hnone] at hm'
        · exact hne (Option.some.inj (hm'.symm.trans hmine))
      have hstage := message_eq_some.mp hm'
      rw [← stage_enter_of_ne s hq] at hstage
      exact .inr ⟨q, (broker_settle_of_ne hne).trans hflight, hstage⟩
  case held =>
    intro q m' hm'
    by_cases hq : q = p
    · subst hq
      obtain rfl := Option.some.inj (hm'.symm.trans hmessage)
      exact Function.update_self ..
    · have hold : w.message q = some m' := (message_enter_of_ne s hq).symm.trans hm'
      exact (broker_settle_of_ne (hother q m' hq hold)).trans (h.held q m' hold)
  case named => exact h.named

theorem rely_advance (s : ConsumerStage)
    (hfrom : w.broker m = .ready ∨ w.broker m = .inFlight p) :
    ∀ q, q ≠ p → EventsRely q w ((w.settle m (.inFlight p)).enter p s) := by
  apply relies
  · exact fun q hq => stage_enter_of_ne s hq
  · intro q m' hq hflight
    have hne : m' ≠ m := by
      rintro rfl
      rcases hfrom with hready | hmine
      · simp [hready] at hflight
      · rw [hmine] at hflight
        cases hflight
        exact hq rfl
    exact (broker_settle_of_ne hne).trans hflight
  · exact fun _ h => h
  · exact fun _ h => h

theorem broker_crash_inFlight {m : CoreMessage} {q p : Nat} (hflight : w.broker m = .inFlight q) :
    (w.crash p).broker m = if q = p then .ready else .inFlight q := by
  simp only [EventsWorld.crash, hflight]

/-- A crash brings back what the process has in hand, and nothing else. -/
theorem broker_crash_of_ne {m : CoreMessage} {p : Nat}
    (hfree : ∀ q, w.broker m ≠ .inFlight q) :
    (w.crash p).broker m = w.broker m := by
  cases hd : w.broker m with
  | inFlight q => exact absurd hd (hfree q)
  | _ => simp only [EventsWorld.crash, hd]

theorem EventsInv.crash (h : EventsInv w) (p : Nat) : EventsInv (w.crash p) := by
  constructor
  case acked =>
    intro m e he hhandler hacked
    cases hd : w.broker m with
    | inFlight q =>
      rw [broker_crash_inFlight hd] at hacked
      split at hacked <;> cases hacked
    | acked => exact h.acked m e he hhandler hd
    | _ =>
      rw [broker_crash_of_ne (fun q hflight => by rw [hd] at hflight; cases hflight), hd] at hacked
      cases hacked
  case skipped =>
    intro e he hhandler
    rcases h.skipped e he hhandler with hc | ⟨m, hevent, hpending⟩
    · exact .inl hc
    refine .inr ⟨m, hevent, ?_⟩
    rcases hpending.cases with hready | ⟨q, hflight, hm⟩
    · have hfree : ∀ q, w.broker m ≠ .inFlight q := by
        intro q hflight
        rw [hready] at hflight
        cases hflight
      exact .inl ((broker_crash_of_ne hfree).trans hready)
    · by_cases hq : q = p
      · left
        rw [broker_crash_inFlight hflight]
        exact if_pos hq
      · have hstage := message_eq_some.mp hm
        rw [← stage_enter_of_ne .over hq] at hstage
        refine .inr ⟨q, ?_, hstage⟩
        rw [broker_crash_inFlight hflight]
        exact if_neg hq
  case held =>
    intro q m hm
    by_cases hq : q = p
    · subst hq
      simp [EventsWorld.message, EventsWorld.crash, EventsWorld.enter] at hm
    · have hold : w.message q = some m := (message_enter_of_ne .over hq).symm.trans hm
      rw [broker_crash_inFlight (h.held q m hold)]
      exact if_neg hq
  case named => exact h.named

theorem rely_crash (w : EventsWorld) (p : Nat) : ∀ q, q ≠ p → EventsRely q w (w.crash p) := by
  apply relies
  · exact fun q hq => stage_enter_of_ne .over hq
  · intro q m hq hflight
    simp [EventsWorld.crash, hflight, hq]
  · exact fun _ h => h
  · exact fun _ h => h

/-- A message that nobody has comes to the queue. -/
theorem EventsInv.queued (h : EventsInv w) (hm : w.broker m = .absent ∨ w.broker m = .dead) :
    EventsInv (w.settle m .ready) ∧ ∀ q, EventsRely q w (w.settle m .ready) := by
  have hfree : ∀ m' q, w.broker m' = .inFlight q → m' ≠ m := by
    rintro m' q hflight rfl
    rcases hm with hm | hm <;> simp [hm] at hflight
  have hheld : ∀ m' q, w.broker m' = .inFlight q → (w.settle m .ready).broker m' = .inFlight q :=
    fun m' q hflight => (broker_settle_of_ne (hfree m' q hflight)).trans hflight
  refine ⟨?_, fun q => ⟨rfl, fun m' => hheld m' q, fun _ he => he, fun _ he => he⟩⟩
  constructor
  case acked =>
    intro m' e he hhandler hacked
    by_cases hne : m' = m
    · subst hne
      simp [EventsWorld.settle] at hacked
    · exact h.acked m' e he hhandler ((broker_settle_of_ne hne).symm.trans hacked)
  case skipped =>
    intro e he hhandler
    rcases h.skipped e he hhandler with hc | ⟨m', hevent', hpending⟩
    · exact .inl hc
    refine .inr ⟨m', hevent', ?_⟩
    by_cases hne : m' = m
    · subst hne
      exact .inl (Function.update_self ..)
    rcases hpending with hready | ⟨q, hflight, hstage⟩
    · exact .inl ((broker_settle_of_ne hne).trans hready)
    · exact .inr ⟨q, (broker_settle_of_ne hne).trans hflight, hstage⟩
  case held => exact fun q m' hm' => hheld m' q (h.held q m' hm')
  case named => exact h.named

theorem EventsInv.ext (h : EventsInv w) (x : EventsExt) :
    EventsInv (w.ext x) ∧ ∀ q, EventsRely q w (w.ext x) := by
  have hsame : EventsInv w ∧ ∀ q, EventsRely q w w := ⟨h, fun _ => .refl⟩
  cases x with
  | publish m =>
    simp only [EventsWorld.ext]
    split
    · next hm => exact h.queued (.inl hm)
    · exact hsame
  | forget key => exact ⟨h.marks _, fun _ => ⟨rfl, fun _ hm => hm, fun _ he => he, fun _ he => he⟩⟩
  | replay m =>
    simp only [EventsWorld.ext]
    split
    · next hm => exact h.queued (.inr hm)
    · exact hsame

theorem eventsSpec_fits : eventsSpec.Fits eventsMachine where
  refl _ _ := .refl
  trans _ _ _ _ := .trans
  crash p w h := ⟨h.crash p, rely_crash w p⟩
  ext x _ h := h.ext x

end Steps

section Consumer

variable {w : EventsWorld} {p : Nat} {msg : CoreMessage} {event : CoreEventEnvelope}

/-- The consumer has the message and will call no handler for it; where it has not got as far as
the mark, no mark can be made of the event. -/
structure Ending (p : Nat) (msg : CoreMessage) (w : EventsWorld) : Prop where
  held : w.broker msg = .inFlight p
  stage : w.stage p = .over ∨ w.stage p = .received msg ∧
    ∀ event, msg.event = some event → ∀ key, event.eventId.text ≠ .ok key

theorem Ending.later {w' : EventsWorld} (h : Ending p msg w) (hr : EventsRely p w w') :
    Ending p msg w' :=
  ⟨hr.held msg h.held, by simpa only [hr.stage] using h.stage⟩

theorem wp_nack {Q : Except Err Unit → EventsWorld → Prop} (hQ : ∀ v, Q (.ok ()) v)
    (h : Ending p msg w) :
    wp eventsMachine MarkTrue eventsSpec p (awaitEvent (.nack msg false)) Q w := by
  apply wp_perform
  intro w₁ hr hi e r w₂ _ hx
  have hend : Ending p msg w₁ := h.later hr
  cases hx
  refine ⟨hi.settled hend.held ?_ ?_ ?_, rely_settled .dead hend.held, hQ _⟩
  · intro m' hm'
    rcases hend.stage with hover | ⟨hreceived, _⟩
    · simp [EventsWorld.message, hover] at hm'
    · simpa [EventsWorld.message, hreceived] using hm'.symm
  · intro event hevent hskipped _
    rcases hend.stage with hover | ⟨_, hunnamed⟩
    · exact hover
    · obtain ⟨key, hkey⟩ := hi.named event hskipped
      exact absurd hkey (hunnamed event hevent key)
  · intro _ _ _ hd
    cases hd

/-- The event of the message is dealt with: no handler is for it, or it was handled or skipped. -/
def Dealt (p : Nat) (msg : CoreMessage) (event : CoreEventEnvelope) (w : EventsWorld) : Prop :=
  w.stage p = .marked msg ∧ event.hasHandler = false ∨
    w.stage p = .over ∧ (event ∈ w.completed ∨ event ∈ w.skipped)

theorem wp_ack {Q : Except Err Unit → EventsWorld → Prop} (hevent : msg.event = some event)
    (hQ : ∀ v, Q (.ok ()) v) (hheld : w.broker msg = .inFlight p) (h : Dealt p msg event w) :
    wp eventsMachine MarkTrue eventsSpec p (awaitEvent (.ack msg)) Q w := by
  apply wp_perform
  intro w₁ hr hi e r w₂ _ hx
  have hheld₁ : w₁.broker msg = .inFlight p := hr.held msg hheld
  have hdealt : Dealt p msg event w₁ := by
    rcases h with ⟨hmarked, hnone⟩ | ⟨hover, hdone⟩
    · exact .inl ⟨hr.stage.trans hmarked, hnone⟩
    · exact .inr ⟨hr.stage.trans hover, hdone.imp (hr.completed event) (hr.skipped event)⟩
  cases hx
  refine ⟨hi.settled hheld₁ ?_ ?_ ?_, rely_settled .acked hheld₁, hQ _⟩
  · intro m' hm'
    rcases hdealt with ⟨hmarked, _⟩ | ⟨hover, _⟩
    · simpa [EventsWorld.message, hmarked] using hm'.symm
    · simp [EventsWorld.message, hover] at hm'
  · intro event' hevent' _ hhandler
    obtain rfl := Option.some.inj (hevent'.symm.trans hevent)
    rcases hdealt with ⟨_, hnone⟩ | ⟨hover, _⟩
    · simp [hnone] at hhandler
    · exact hover
  · intro event' hevent' hhandler _
    obtain rfl := Option.some.inj (hevent'.symm.trans hevent)
    rcases hdealt with ⟨_, hnone⟩ | ⟨_, hdone⟩
    · simp [hnone] at hhandler
    · exact hdone

/-- What the command for the mark leaves: the consumer stops, or has set the mark. -/
theorem wp_trySet {key value : String} {ttlSeconds : Nat}
    {Q : Except Err Bool → EventsWorld → Prop} (hevent : msg.event = some event)
    (hkey : ∃ key, event.eventId.text = .ok key) (hstage : w.stage p = .received msg)
    (hfail : ∀ v, Ending p msg v → Q (.error .failed) v)
    (hskip : ∀ v, v.broker msg = .inFlight p → v.stage p = .over → event ∈ v.skipped →
      Q (.ok false) v)
    (hfresh : ∀ v, v.broker msg = .inFlight p → v.stage p = .marked msg → Q (.ok true) v) :
    wp eventsMachine MarkTrue eventsSpec p (awaitEvent (.trySet key value ttlSeconds)) Q w := by
  apply wp_perform
  intro w₁ hr hi e r w₂ hok hx
  have hreceived : w₁.stage p = .received msg := hr.stage.trans hstage
  have hmessage : w₁.message p = some msg := message_eq_some.mpr (.inl hreceived)
  have hheld : w₁.broker msg = .inFlight p := hi.held p msg hmessage
  have hat : w₁.event p = some event := by
    rw [EventsWorld.event, hmessage]
    exact hevent
  have hx' : w₁.trySet p key e = (r, w₂) := Option.some.inj hx
  simp only [EventsWorld.trySet, hmessage, hat, Option.toList_some, List.singleton_append] at hx'
  by_cases hfails : e.fail = true
  · rw [if_pos hfails] at hx'
    cases hx'
    refine ⟨hi.over hmessage hevent (fun _ h => h) (fun _ h => h) (fun _ h => .inl h) ?_, ?_, ?_⟩
    · exact fun hhandler hskipped => absurd hskipped ((hok event hat hhandler).1 hfails)
    · exact relies (fun q hq => stage_enter_of_ne .over hq) (fun _ _ _ h => h) (fun _ h => h)
        (fun _ h => h)
    · exact hfail _ ⟨hheld, .inl (stage_enter .over)⟩
  rw [if_neg hfails] at hx'
  by_cases hmark : key ∈ w₁.marks
  · rw [if_pos hmark] at hx'
    cases hx'
    refine ⟨hi.over hmessage hevent (fun _ h => h) (fun _ h => List.mem_cons_of_mem _ h) ?_ ?_,
      ?_, ?_⟩
    · intro e' he'
      rcases List.mem_cons.mp he' with rfl | hold
      · exact .inr ⟨rfl, hkey⟩
      · exact .inl hold
    · intro hhandler _
      have hfalse : e.fail = false := by simpa using hfails
      rcases (hok event hat hhandler).2 hfalse hmark with hc | ⟨q, m', hmarked, hevent'⟩
      · exact .inl hc
      · -- The consumer that set the mark is another one: this one has only received.
        have hq : q ≠ p := by
          rintro rfl
          rw [hreceived] at hmarked
          cases hmarked
        exact .inr ⟨q, m', hq, message_eq_some.mpr (.inr hmarked), hevent'⟩
    · exact relies (fun q hq => stage_enter_of_ne .over hq) (fun _ _ _ h => h) (fun _ h => h)
        (fun _ h => List.mem_cons_of_mem _ h)
    · exact hskip _ hheld (stage_enter .over) List.mem_cons_self
  · rw [if_neg hmark] at hx'
    cases hx'
    have hadvance : EventsInv ((w₁.settle msg (.inFlight p)).enter p (.marked msg)) :=
      hi.advance (.inr rfl) (.inr ⟨hheld, hmessage⟩)
    have hsame : w₁.settle msg (.inFlight p) = w₁ := by
      rw [EventsWorld.settle, ← hheld, Function.update_eq_self]
    rw [hsame] at hadvance
    refine ⟨hadvance.marks _, ?_, hfresh _ hheld (stage_enter (.marked msg))⟩
    exact relies (fun q hq => stage_enter_of_ne (.marked msg) hq) (fun _ _ _ h => h)
      (fun _ h => h) (fun _ h => h)

theorem wp_runHandler {Q : Except Err Unit → EventsWorld → Prop} (hevent : msg.event = some event)
    (hstage : w.stage p = .marked msg) (hfail : ∀ v, Ending p msg v → Q (.error .failed) v)
    (hdone : ∀ v, v.broker msg = .inFlight p → v.stage p = .over → event ∈ v.completed →
      Q (.ok ()) v) :
    wp eventsMachine MarkTrue eventsSpec p (awaitEvent (.runHandler event)) Q w := by
  apply wp_perform
  intro w₁ hr hi e r w₂ hok hx
  have hmarked : w₁.stage p = .marked msg := hr.stage.trans hstage
  have hmessage : w₁.message p = some msg := message_eq_some.mpr (.inr hmarked)
  have hheld : w₁.broker msg = .inFlight p := hi.held p msg hmessage
  simp only [eventsMachine, EventsWorld.exec] at hx
  split_ifs at hx with hfails
  · cases hx
    refine ⟨hi.over hmessage hevent (fun _ h => h) (fun _ h => h) (fun _ h => .inl h) ?_, ?_, ?_⟩
    · exact fun _ hskipped => absurd hskipped (hok hfails)
    · exact relies (fun q hq => stage_enter_of_ne .over hq) (fun _ _ _ h => h) (fun _ h => h)
        (fun _ h => h)
    · exact hfail _ ⟨hheld, .inl (stage_enter .over)⟩
  · cases hx
    refine ⟨hi.over hmessage hevent (fun _ h => List.mem_cons_of_mem _ h) (fun _ h => h)
      (fun _ h => .inl h) (fun _ _ => .inl List.mem_cons_self), ?_, ?_⟩
    · exact relies (fun q hq => stage_enter_of_ne .over hq) (fun _ _ _ h => h)
        (fun _ h => List.mem_cons_of_mem _ h) (fun _ h => h)
    · exact hdone _ hheld (stage_enter .over) List.mem_cons_self

/-- Where the handling of a message throws, the message is still to be settled. -/
def EndingOnError (p : Nat) (msg : CoreMessage) : Except Err Unit → EventsWorld → Prop
  | .ok _, _ => True
  | .error _, w => Ending p msg w

theorem wp_handleCoreEvent (hheld : w.broker msg = .inFlight p)
    (hstage : w.stage p = .received msg) :
    wp eventsMachine MarkTrue eventsSpec p (handleCoreEvent msg) (EndingOnError p msg) w := by
  unfold handleCoreEvent
  cases hevent : msg.event with
  | none =>
    apply wp_nack
    · exact fun _ => trivial
    · refine ⟨hheld, .inr ⟨hstage, fun event h => ?_⟩⟩
      rw [hevent] at h
      cases h
  | some event =>
    apply wp_do
    apply (wp_ofExcept _ _ _).mpr
    cases htext : event.eventId.text with
    | error err =>
      refine ⟨hheld, .inr ⟨hstage, fun event' h key hkey => ?_⟩⟩
      obtain rfl := Option.some.inj (hevent.symm.trans h)
      rw [htext] at hkey
      cases hkey
    | ok eventId =>
      apply wp_do
      apply wp_trySet hevent ⟨eventId, htext⟩ hstage
      · exact fun v hend => hend
      · -- The mark was there.
        intro v hheld hover hskipped
        exact wp_ack hevent (fun _ => trivial) hheld (.inr ⟨hover, .inr hskipped⟩)
      · intro v hheld hmarked
        simp only [Bool.not_true, Bool.false_eq_true, if_false]
        cases hhandler : event.hasHandler with
        | false => exact wp_ack hevent (fun _ => trivial) hheld (.inl ⟨hmarked, hhandler⟩)
        | true =>
          apply wp_catch
          apply wp_do
          apply wp_runHandler hevent hmarked
          · exact fun v hend => wp_nack (fun _ => trivial) hend
          · intro v hheld hover hcompleted
            exact wp_ack hevent (fun _ => trivial) hheld (.inr ⟨hover, .inl hcompleted⟩)

/-- A consumer that has not begun keeps the invariant to its end. -/
theorem wp_consumeMessage (raw : Option CoreMessage) (hstage : w.stage p = .waiting) :
    wp eventsMachine MarkTrue eventsSpec p (consumeMessage raw) (fun _ _ => True) w := by
  cases raw with
  | none => trivial
  | some msg =>
    apply wp_do
    apply wp_perform
    intro w₁ hr hi e r w₂ _ hx
    have hwaiting : w₁.message p = none := by
      rw [EventsWorld.message, hr.stage, hstage]
    simp only [eventsMachine, EventsWorld.exec] at hx
    split at hx
    case h_2 => cases hx
    case h_1 hready =>
      cases hx
      refine ⟨hi.advance (.inl rfl) (.inl ⟨hready, hwaiting⟩),
        rely_advance (.received msg) (.inl hready), ?_⟩
      apply wp_catch
      apply wp_mono _ (wp_handleCoreEvent (Function.update_self ..) (stage_enter (.received msg)))
      intro r v hr
      cases r with
      | ok _ => trivial
      | error _ => exact wp_nack (fun _ => trivial) hr

end Consumer

section Result

/-- Before the first delivery: messages may lie in the queue, marks of before may be set. -/
structure EventsWorld.Begins (w : EventsWorld) : Prop where
  broker : ∀ m, w.broker m = .absent ∨ w.broker m = .ready
  stage : ∀ p, w.stage p = .waiting
  skipped : w.skipped = []

theorem EventsWorld.Begins.inv {w : EventsWorld} (h : w.Begins) : EventsInv w := by
  constructor
  case acked =>
    intro m _ _ _ hacked
    rcases h.broker m with hm | hm <;> simp [hm] at hacked
  case skipped =>
    intro e he
    simp [h.skipped] at he
  case held =>
    intro q m hm
    simp [EventsWorld.message, h.stage q] at hm
  case named =>
    intro e he
    simp [h.skipped] at he

abbrev EventsSys := Sys Nat EventOp EventOp.Res Err EventsWorld Unit

/-- Any number of consumers, each called for some message. -/
structure EventsSys.Start (s : EventsSys) : Prop where
  begins : s.world.Begins
  consumers : ∀ p prog, s.procs p = some prog → ∃ raw, prog = consumeMessage raw

/-- The broker has no message of the event any more that it would deliver. -/
def EventsWorld.Final (w : EventsWorld) (event : CoreEventEnvelope) : Prop :=
  ∀ m, m.event = some event → w.broker m ≠ .ready ∧ ∀ q, w.broker m ≠ .inFlight q

/-- The event was acknowledged at last. -/
def EventsWorld.FinallyAcked (w : EventsWorld) (event : CoreEventEnvelope) : Prop :=
  w.Final event ∧ ∃ m, m.event = some event ∧ w.broker m = .acked

theorem acked_handled {s t : EventsSys} (hs : EventsSys.Start s)
    (h : eventsMachine.Reaches MarkTrue s t) {event : CoreEventEnvelope}
    (hhandler : event.hasHandler = true) (hacked : t.world.FinallyAcked event) :
    event ∈ t.world.completed := by
  have hsound : Sound eventsMachine MarkTrue eventsSpec (fun _ _ _ => True) t := by
    refine sound_reaches eventsSpec_fits (fun _ _ _ _ _ _ h => h) ⟨hs.begins.inv, ?_⟩ h
    intro p prog hp
    obtain ⟨raw, rfl⟩ := hs.consumers p prog hp
    exact wp_consumeMessage raw (hs.begins.stage p)
  obtain ⟨hfinal, m, hevent, hm⟩ := hacked
  have hinv : EventsInv t.world := hsound.1
  rcases hinv.acked m event hevent hhandler hm with hc | hskipped
  · exact hc
  rcases hinv.skipped event hskipped hhandler with hc | ⟨m', hevent', hpending⟩
  · exact hc
  · obtain ⟨hready, hflight⟩ := hfinal m' hevent'
    rcases hpending with hr | ⟨q, hq, _⟩
    · exact absurd hr hready
    · exact absurd hq (hflight q)

/-- An event of core in the queue, and a consumer each time the broker calls one. -/
def branchUpdated : CoreMessage := ⟨1, "\x7b\"eventId\":\"e\",\"eventType\":\"branch.updated\"\x7d"⟩

def queuedEvent : EventsSys :=
  ⟨{ broker := Function.update (fun _ => .absent) branchUpdated .ready },
    fun _ => some (consumeMessage (some branchUpdated))⟩

theorem queuedEvent_start : EventsSys.Start queuedEvent := by
  refine ⟨⟨fun m => ?_, fun _ => rfl, rfl⟩, fun p prog hp => ⟨_, (Option.some.inj hp).symm⟩⟩
  simp only [queuedEvent]
  by_cases hm : m = branchUpdated
  · exact .inr (hm ▸ Function.update_self ..)
  · exact .inl (Function.update_of_ne hm ..)

theorem event_branchUpdated : ∃ event, branchUpdated.event = some event ∧
    event.eventId.text = .ok "e" ∧ event.hasHandler = true := by
  have hread : (branchUpdated.event.map fun e => (e.eventId.text.toOption, e.hasHandler))
      = some (some "e", true) := by decide +kernel
  obtain ⟨event, hevent, hpair⟩ := Option.map_eq_some_iff.mp hread
  obtain ⟨htext, hhandler⟩ := Prod.mk.injEq .. ▸ hpair
  refine ⟨event, hevent, ?_, hhandler⟩
  cases hid : event.eventId.text with
  | error err => simp [hid, Except.toOption] at htext
  | ok key =>
    rw [hid] at htext
    exact congrArg Except.ok (Option.some.inj htext)

/-- The consumer of an event with a handler. -/
theorem consumeMessage_eq {msg : CoreMessage} {event : CoreEventEnvelope} {eventId : String}
    (hevent : msg.event = some event) (htext : event.eventId.text = .ok eventId)
    (hhandler : event.hasHandler = true) :
    consumeMessage (some msg) = (do
      awaitEvent (.receive msg)
      tryCatch (do
        let fresh ← awaitEvent (.trySet ("core-events:dedupe:" ++ eventId) "1" dedupeTtlSec)
        if !fresh then awaitEvent (.ack msg)
        else
          tryCatch (do
            awaitEvent (.runHandler event)
            awaitEvent (.ack msg))
            fun _ => awaitEvent (.nack msg false))
        fun _ => awaitEvent (.nack msg false)) := by
  simp only [consumeMessage, handleCoreEvent, hevent, htext, hhandler]
  rfl

/-- Whether the operation fails not, nor finds a mark. -/
def unmarked (_ : Nat) (o : EventOp) (e : EventEnv) (w : EventsWorld) : Bool :=
  match o with
  | .trySet key _ _ => !e.fail && key ∉ w.marks
  | _ => !e.fail

theorem markTrue_of_unmarked (p : Nat) (o : EventOp) (e : EventEnv) (w : EventsWorld)
    (h : unmarked p o e w = true) : MarkTrue p o e w := by
  cases o with
  | trySet key value ttlSeconds =>
    obtain ⟨hfail, hmark⟩ : e.fail = false ∧ key ∉ w.marks := by simpa [unmarked] using h
    intro event _ _
    exact ⟨fun hf => by simp [hfail] at hf, fun _ hk => absurd hk hmark⟩
  | runHandler event =>
    have hfail : e.fail = false := by simpa [unmarked] using h
    exact fun hf => by simp [hfail] at hf
  | _ => trivial

/-- The first consumer dies with the message before it sets the mark. -/
def diesUnmarked : List (Label Nat EventEnv EventsExt) :=
  [.act 0 {}, .crash 0, .act 1 {}, .act 1 {}, .act 1 {}, .act 1 {}]

/-- It dies once it has set the mark: the second consumer acknowledges what it finds marked. -/
def diesMarked : List (Label Nat EventEnv EventsExt) :=
  [.act 0 {}, .act 0 {}, .crash 0, .act 1 {}, .act 1 {}, .act 1 {}]

/-- The message after the first consumer died and the second acknowledged it. -/
def redelivered : EventsWorld :=
  (((queuedEvent.world.settle branchUpdated (.inFlight 0)).crash 0).settle branchUpdated
    (.inFlight 1)).settle branchUpdated .acked

theorem finallyAcked_redelivered {w : EventsWorld} (hw : w.broker = redelivered.broker)
    {event : CoreEventEnvelope} (hevent : branchUpdated.event = some event) :
    w.FinallyAcked event := by
  have hacked : w.broker branchUpdated = .acked := by
    rw [hw, redelivered]
    simp only [EventsWorld.settle, Function.update_self]
  refine ⟨fun m _ => ?_, branchUpdated, hevent, hacked⟩
  have hm : w.broker m = .acked ∨ w.broker m = .absent := by
    by_cases hm : m = branchUpdated
    · exact .inl (hm ▸ hacked)
    · right
      rw [hw, redelivered, broker_settle_of_ne hm, broker_settle_of_ne hm]
      simp [EventsWorld.crash, broker_settle_of_ne hm, queuedEvent, hm]
  rcases hm with hm | hm <;> simp [hm]

theorem acked_handled_redelivered : ∃ (t : EventsSys) (event : CoreEventEnvelope),
    event.hasHandler = true ∧ t.world.FinallyAcked event ∧ event ∈ t.world.completed := by
  obtain ⟨event, hevent, htext, hhandler⟩ := event_branchUpdated
  have hrun : (eventsMachine.run unmarked diesUnmarked queuedEvent).map (fun t => t.world.broker)
      = some redelivered.broker := by
    rw [queuedEvent, consumeMessage_eq hevent htext hhandler]
    rfl
  obtain ⟨t, ht, hbroker⟩ := Option.map_eq_some_iff.mp hrun
  have hacked : t.world.FinallyAcked event := finallyAcked_redelivered hbroker hevent
  have hreach := Machine.reaches_of_run markTrue_of_unmarked diesUnmarked ht
  exact ⟨t, event, hhandler, hacked, acked_handled queuedEvent_start hreach hhandler hacked⟩

/-- The consumer dies between the mark and the handler: the event is acknowledged, and no handler
came to its end. -/
theorem mark_outlives_consumer : ∃ s t event, EventsSys.Start s ∧
    eventsMachine.Reaches (fun _ _ _ _ => True) s t ∧ event.hasHandler = true ∧
    t.world.FinallyAcked event ∧ event ∉ t.world.completed := by
  obtain ⟨event, hevent, htext, hhandler⟩ := event_branchUpdated
  have hrun : (eventsMachine.run (fun _ _ _ _ => true) diesMarked queuedEvent).map
      (fun t => (t.world.broker, t.world.completed)) = some (redelivered.broker, []) := by
    rw [queuedEvent, consumeMessage_eq hevent htext hhandler]
    rfl
  obtain ⟨t, ht, hend⟩ := Option.map_eq_some_iff.mp hrun
  obtain ⟨hbroker, hcompleted⟩ := Prod.mk.injEq .. ▸ hend
  refine ⟨queuedEvent, t, event, queuedEvent_start,
    Machine.reaches_of_run (fun _ _ _ _ _ => trivial) diesMarked ht, hhandler,
    finallyAcked_redelivered hbroker hevent, ?_⟩
  simp only [hcompleted, List.not_mem_nil, not_false_eq_true]

end Result

end OrderService
