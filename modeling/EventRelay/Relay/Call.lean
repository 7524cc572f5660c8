import EventRelay.Relay.Lane
/-!
Calls on a broker, and where a call stands between two of its steps.
-/
namespace EventRelay

structure Publication where
  channel : Channel
  payload : List UInt8
  deriving DecidableEq, Repr

inductive Request where
  | ensure (topic : String)
  /-- In order, up to the first that fails. -/
  | publish (items : List Publication)
  | close
  deriving DecidableEq, Repr

inductive Response where
  /-- Whether this call enrolled the topic. -/
  | ensured (enrolled : Bool)
  | published (acks : List Ack)
  | closed
  | failed (e : Error)
  deriving DecidableEq, Repr

/-- What a call wants a topic for: an answer, or the next item of a batch. -/
inductive Purpose where
  | answer
  | publish (item : Publication) (rest : List Publication) (acks : List Ack)

/- The stages from `creating` on name the log call or the lanes that the call waits for. -/
inductive Stage where
  | queued (after : Nat) (request : Request)
  | delayed (after : Nat) (request : Request)
  | creating (topic : String) (purpose : Purpose) (h : Hindrance)
  | opening (topic : String) (purpose : Purpose) (readers : List Reader) (h : Hindrance)
  | producing (item : Publication) (rest : List Publication) (acks : List Ack) (h : Hindrance)
  | draining (lanes : List Nat)
  | closing (h : Hindrance)
  | finished (response : Response)

structure Call where
  broker : Nat
  stage : Stage

/-- The deletion of a topic whose creator found the broker full. -/
structure Removal where
  topic : String
  /-- What the deletion meets, once it is under way. -/
  hindrance : Option Hindrance := none

end EventRelay
