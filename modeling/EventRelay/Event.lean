import EventRelay.Event.Attributes
/-!
The events that channels carry.
-/
namespace EventRelay

inductive Change where
  | create
  | update
  | delete
  deriving DecidableEq, Repr

/-- A change of the object `id`, or free content such as a chat message. -/
inductive Event where
  | object (change : Change) (id : Int64)
  | content (kind : Int32) (attributes : Attributes)
  deriving DecidableEq

end EventRelay
