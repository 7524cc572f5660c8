import EventRelay.Registry
import EventRelay.Error
/-!
Subscriptions, and feeds that hand the messages of a subscription to a sink.
-/
namespace EventRelay

/-- A subscriber attached to a channel of a registry, and the mailbox it reads. -/
structure Subscription where
  registry : Nat
  channel : Channel
  id : SubscriberId
  mailbox : Nat
  deriving DecidableEq

/-- Takes a message, given those it took before, or fails. -/
abbrev Sink := List Event → Event → Except Error Unit

def Sink.upTo (n : Nat) (e : Error) : Sink := fun seen _ =>
  if n ≤ seen.length then .error e else .ok ()

def Sink.all : Sink := fun _ _ => .ok ()

structure Feed where
  /-- Absent if the subscription was refused. -/
  subscription : Option Subscription
  sink : Sink
  /-- The messages that the sink took. -/
  taken : List Event := []
  cancelled : Bool := false
  result : Option (Except Error Unit) := none

end EventRelay
