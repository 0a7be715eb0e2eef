import OrderService.Codec.JsonText
import OrderService.Interleaving.RelyGuarantee

/-! The consumer of core events, beside a broker that redelivers what a dead consumer left. -/
namespace OrderService
open Interleaving

section Messages

structure CoreEventEnvelope where
  eventId : Json
  eventType : Json
  payload : Option Json

/-- `parseEnvelope` of the consumer: anything but an object with both names is no event. -/
def parseCoreEvent (body : String) : Option CoreEventEnvelope :=
  match Json.parse body with
  | some (.obj fields) =>
    match getField fields "eventId", getField fields "eventType" with
    | some eventId, some eventType =>
      if eventId.truthy && eventType.truthy then
        some ⟨eventId, eventType, getField fields "payload"⟩
      else none
    | _, _ => none
  | _ => none

/-- The handlers that `registerOrderModuleCoreEventHandlers` registers. -/
def registeredHandlers : List String :=
  ["product.stock.changed", "product.price.changed", "branch.updated", "branch.deactivated",
    "restaurant.suspended", "rbac.permissions_changed"]

/-- `handlers.get(envelope.eventType)` finds one. -/
def CoreEventEnvelope.hasHandler (event : CoreEventEnvelope) : Bool :=
  match event.eventType with
  | .str eventType => eventType ∈ registeredHandlers
  | _ => false

/-- A message of the queue. Messages of the same body are told apart. -/
structure CoreMessage where
  id : Nat
  body : String
deriving DecidableEq

def CoreMessage.event (m : CoreMessage) : Option CoreEventEnvelope := parseCoreEvent m.body

end Messages

section Broker

/-- What the broker knows of a message. A dead one lies in the dead letter queue. -/
inductive Delivery where
  | absent
  | ready
  | inFlight (p : Nat)
  | acked
  | dead

/-- How far the handling of a message has come: the consumer has it, it has set its mark and goes
on to the handler, or no handler is called any more. -/
inductive ConsumerStage where
  | waiting
  | received (m : CoreMessage)
  | marked (m : CoreMessage)
  | over

/-- `completed` are the events whose handler came to its end, `skipped` those that a consumer took
for processed because it found their mark. -/
structure EventsWorld where
  broker : CoreMessage → Delivery := fun _ => .absent
  marks : List String := []
  stage : Nat → ConsumerStage := fun _ => .waiting
  completed : List CoreEventEnvelope := []
  skipped : List CoreEventEnvelope := []

inductive EventOp where
  | receive (m : CoreMessage)
  | trySet (key value : String) (ttlSeconds : Nat)
  | runHandler (event : CoreEventEnvelope)
  | ack (m : CoreMessage)
  | nack (m : CoreMessage) (requeue : Bool)

abbrev EventOp.Res : EventOp → Type
  | .trySet _ _ _ => Bool
  | _ => Unit

/-- Whether a command of the cache or a handler fails. The cache may have done what it reports as
failed. -/
structure EventEnv where
  fail : Bool := false
  applied : Bool := false

variable (w : EventsWorld) (p : Nat)

def EventsWorld.settle (m : CoreMessage) (d : Delivery) : EventsWorld :=
  { w with broker := Function.update w.broker m d }

def EventsWorld.enter (s : ConsumerStage) : EventsWorld :=
  { w with stage := Function.update w.stage p s }

/-- The message that the consumer handles. -/
def EventsWorld.message : Option CoreMessage :=
  match w.stage p with
  | .received m => some m
  | .marked m => some m
  | _ => none

def EventsWorld.event : Option CoreEventEnvelope := (w.message p).bind CoreMessage.event

/-- `SET key value EX ttl NX`. -/
def EventsWorld.trySet (key : String) (e : EventEnv) : Except Err Bool × EventsWorld :=
  if e.fail then
    (.error .failed, { w.enter p .over with
      marks := if e.applied then key :: w.marks else w.marks })
  else if key ∈ w.marks then
    (.ok false, { w.enter p .over with skipped := (w.event p).toList ++ w.skipped })
  else
    match w.message p with
    | some m => (.ok true, { w.enter p (.marked m) with marks := key :: w.marks })
    | none => (.ok true, { w with marks := key :: w.marks })

/-- A message is delivered to one consumer at a time, and settled by the one who has it. -/
def EventsWorld.exec : (o : EventOp) → EventEnv → Option (Except Err o.Res × EventsWorld)
  | .receive m, _ =>
    match w.broker m with
    | .ready => some (.ok (), (w.settle m (.inFlight p)).enter p (.received m))
    | _ => none
  | .trySet key _ _, e => some (w.trySet p key e)
  | .runHandler event, e =>
    if e.fail then some (.error .failed, w.enter p .over)
    else some (.ok (), { w.enter p .over with completed := event :: w.completed })
  | .ack m, _ => some (.ok (), (w.settle m .acked).enter p .over)
  | .nack m requeue, _ =>
    some (.ok (), (w.settle m (if requeue then .ready else .dead)).enter p .over)

/-- What happens without a consumer: core publishes a message, a mark expires or is deleted, a
dead message is replayed. -/
inductive EventsExt where
  | publish (m : CoreMessage)
  | forget (key : String)
  | replay (m : CoreMessage)

def EventsWorld.ext : EventsExt → EventsWorld
  | .publish m =>
    match w.broker m with
    | .absent => w.settle m .ready
    | _ => w
  | .forget key => { w with marks := w.marks.filter fun k => k ≠ key }
  | .replay m =>
    match w.broker m with
    | .dead => w.settle m .ready
    | _ => w

/-- The broker has back what the dead consumer did not settle. -/
def EventsWorld.crash : EventsWorld :=
  { w.enter p .over with
    broker := fun m => match w.broker m with
      | .inFlight q => if q = p then .ready else .inFlight q
      | d => d }

def eventsMachine : Machine Nat EventOp EventOp.Res Err EventsWorld EventEnv EventsExt :=
  ⟨fun p o e w => w.exec p o e, fun p w => w.crash p, fun x w => w.ext x⟩

end Broker

section Consumer

abbrev EventProg := Prog EventOp EventOp.Res Err

def awaitEvent (o : EventOp) : EventProg o.Res := Prog.perform o

def dedupeTtlSec : Nat := 24 * 60 * 60

/-- `handleMessage` of the consumer. -/
def handleCoreEvent (msg : CoreMessage) : EventProg Unit := do
  match msg.event with
  | none => awaitEvent (.nack msg false)
  | some envelope =>
    let eventId ← Prog.ofExcept envelope.eventId.text
    let fresh ← awaitEvent (.trySet ("core-events:dedupe:" ++ eventId) "1" dedupeTtlSec)
    if !fresh then awaitEvent (.ack msg)
    else if !envelope.hasHandler then awaitEvent (.ack msg)
    else
      tryCatch (do
        awaitEvent (.runHandler envelope)
        awaitEvent (.ack msg))
        fun _ => awaitEvent (.nack msg false)

/-- `handleMessage` of the client, which the broker calls for a message; it calls it without one
when it cancels the consumer. -/
def consumeMessage (raw : Option CoreMessage) : EventProg Unit := do
  match raw with
  | none => pure ()
  | some msg =>
    awaitEvent (.receive msg)
    tryCatch (handleCoreEvent msg) fun _ => awaitEvent (.nack msg false)

end Consumer

end OrderService
