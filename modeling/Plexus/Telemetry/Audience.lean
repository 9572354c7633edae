import Plexus.Telemetry.Channel

/-!
# Audiences

An audience is a channel together with the subscribers that may be on it.  A subscriber
is known by its name.  It notes down every event it gets and then does what its behaviour
says, which may change the channel while an event is delivered.
-/

namespace Plexus

/-- What a subscriber does after it has noted an event down. -/
inductive Behaviour where
  | log
  /-- Fails. -/
  | raise
  /-- Unsubscribes itself. -/
  | leave
  /-- Unsubscribes another subscriber. -/
  | drop (name : String)
  /-- Subscribes another subscriber. -/
  | add (name : String)
  /-- Takes all subscribers off. -/
  | clear
  /-- The first time only, emits another event. -/
  | emit
deriving DecidableEq, Inhabited

/-- A channel and its subscribers. -/
structure Audience where
  channel : Channel String
  /-- The behaviours of the subscribers that have been named so far. -/
  known : List (String × Behaviour)
  /-- The subscribers that have been on the channel. -/
  subscribed : List String
  /-- The subscribers that have emitted an event of their own. -/
  spoken : List String
  /-- What has been noted down, in order. -/
  heard : List (String × Event)
deriving Inhabited

namespace Audience

/-- An audience of nobody. -/
def empty : Audience := ⟨.empty, [], [], [], []⟩

/-- Gives a behaviour to a name.  It counts only when the name is new. -/
def introduce (name : String) (behaviour : Behaviour) (a : Audience) : Audience :=
  { a with
    known := if (a.known.lookup name).isSome then a.known else a.known ++ [(name, behaviour)] }

/-- Subscribes by name. -/
def subscribe (name : String) (behaviour : Behaviour) (a : Audience) : Audience :=
  { a.introduce name behaviour with
    channel := a.channel.subscribe name
    subscribed := if a.subscribed.contains name then a.subscribed else a.subscribed ++ [name] }

/-- Takes a subscriber off the channel, whether it has been there or not. -/
def remove (name : String) (a : Audience) : Audience :=
  { a.introduce name .log with channel := a.channel.unsubscribe name }

/-- Ends a subscription; there must have been one of that name. -/
def unsubscribe (name : String) : Attempt Audience Unit := do
  if (← get).subscribed.contains name then modify (remove name)
  else throw (.unknownSubscriber name)

/-- Takes all subscribers off the channel. -/
def clear (a : Audience) : Audience := { a with channel := a.channel.clear }

/-- The behaviour of a subscriber. -/
def behaviour (a : Audience) (name : String) : Behaviour := (a.known.lookup name).getD .log

/-- What a subscriber does on an event; `emitOn` emits the event of a subscriber of its own. -/
def react (emitOn : Event → Attempt Audience Unit) (name : String) (e : Event) :
    Attempt Audience Unit := do
  modify fun a => { a with heard := a.heard ++ [(name, e)] }
  match (← get).behaviour name with
  | .log => pure ()
  | .raise => throw (.subscriber name)
  | .leave => unsubscribe name
  | .drop other => unsubscribe other
  | .add other => modify (subscribe other .log)
  | .clear => modify clear
  | .emit =>
      if (← get).spoken.contains name then pure ()
      else
        modify fun a => { a with spoken := a.spoken ++ [name] }
        emitOn ⟨.epoch, e.value + 1.0⟩

/-- Emits an event, with at most `depth` events inside one another. -/
def emitWithin : Nat → Event → Attempt Audience Unit
  | 0, _ => pure ()
  | depth + 1, e => Channel.emit Audience.channel (react (emitWithin depth)) e

/--
Emits an event.  Every event inside another is the first of a further subscriber, so
there are never more of them inside one another than there are subscribers.
-/
def emit (e : Event) : Attempt Audience Unit := do
  emitWithin ((← get).known.length + 1) e

/-- Emits the event of a kind and a number that are given as values. -/
def emitValues (kind value : Value) : Attempt Audience Unit := do
  let e ← Attempt.of (Event.ofValues kind value)
  emit e

end Audience
end Plexus
