import Plexus.Attempt
import Plexus.Telemetry.Event

/-!
# Event channels

A channel is the list of its subscribers, in the order of subscription; a subscriber may
be on it several times.  An event goes to the subscribers that are on the channel when it
is emitted, whatever they do to the channel while it is delivered.  An event that nobody
subscribes to is lost.
-/

namespace Plexus

/-- The subscribers of a channel, in the order of subscription. -/
structure Channel (κ : Type) where
  subscribers : List κ
deriving Inhabited

namespace Channel

variable {κ σ : Type}

/-- The channel without subscribers. -/
def empty : Channel κ := ⟨[]⟩

/-- Adds a subscriber. -/
def subscribe (c : Channel κ) (k : κ) : Channel κ := ⟨c.subscribers ++ [k]⟩

/-- Takes a subscriber off, once, if it is there. -/
def unsubscribe [BEq κ] (c : Channel κ) (k : κ) : Channel κ := ⟨c.subscribers.erase k⟩

/-- Takes all subscribers off. -/
def clear (_ : Channel κ) : Channel κ := empty

/-- Hands an event to some subscribers, in order, up to the first that fails. -/
def deliver (react : κ → Event → Attempt σ Unit) (e : Event) : List κ → Attempt σ Unit
  | [] => pure ()
  | k :: rest => do
      react k e
      deliver react e rest

/--
Emits an event.  The state that subscribers react in holds the channel; the subscribers
are read from it once, before the first of them reacts.
-/
def emit (channel : σ → Channel κ) (react : κ → Event → Attempt σ Unit) (e : Event) :
    Attempt σ Unit := do
  deliver react e (channel (← get)).subscribers

end Channel
end Plexus
