import EventRelay.Table
/-!
What the brokers' log calls meet on their way: waits and failures, in the order they are scripted.
-/
namespace EventRelay

/-- A wait in milliseconds and then, possibly, a failure in place of the call itself. -/
structure Hindrance where
  delay : Nat := 0
  failure : Option String := none
  deriving DecidableEq, Repr

inductive LogCall where
  | create
  | delete
  | produce
  | tail
  | close
  deriving DecidableEq, Repr

/-- What one read of a lane meets: nothing, a failure, or the end of the partition. -/
inductive ReadHindrance where
  | none
  | failure (reason : String)
  | ended
  deriving DecidableEq, Repr

structure Script where
  calls : Table LogCall (List Hindrance) := .empty
  /-- For the next reader of a partition of a topic. -/
  reads : Table (String × Nat) (List ReadHindrance) := .empty

namespace Script

def addCalls (s : Script) (c : LogCall) (hs : List Hindrance) : Script :=
  { s with calls := s.calls.insert c ((s.calls.find? c).getD [] ++ hs) }

def addReads (s : Script) (topic : String) (partition : Nat) (hs : List ReadHindrance) : Script :=
  { s with
    reads := s.reads.insert (topic, partition) ((s.reads.find? (topic, partition)).getD [] ++ hs) }

def meet (s : Script) (c : LogCall) : Hindrance × Script :=
  match (s.calls.find? c).getD [] with
  | [] => ({}, s)
  | h :: hs => (h, { s with calls := s.calls.insert c hs })

def takeReads (s : Script) (topic : String) (partition : Nat) : List ReadHindrance × Script :=
  ((s.reads.find? (topic, partition)).getD [],
    { s with reads := s.reads.erase (topic, partition) })

end Script
end EventRelay
