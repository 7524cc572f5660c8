import EventRelay.Channel
import EventRelay.Hash.Xxh32
import EventRelay.Log.Partition
import EventRelay.Table
import EventRelay.Text.Utf8
/-!
The partitioned log. A topic that is deleted and created again is a new incarnation; readers of an
earlier one still find the records in its window and then its end.

A call makes all its checks before its first write. A call that fails has thus written nothing, and
an `Except Error`, with a log on success alone, says all that comes of it.
-/
namespace EventRelay

/-- Where an acknowledged record landed. -/
structure Ack where
  partition : Nat
  offset : Nat
  deriving DecidableEq, Repr

structure Incarnation where
  topic : String
  partitions : Array Partition
  partitions_pos : 0 < partitions.size

/-- A reader's place: the next offset it asks for in a partition of an incarnation. -/
structure Cursor where
  incarnation : Nat
  partition : Nat
  offset : Nat
  deriving DecidableEq, Repr

def Cursor.past (c : Cursor) (r : Record) : Cursor := { c with offset := r.offset + 1 }

inductive Read where
  | record (r : Record)
  | pending
  | ended
  deriving DecidableEq, Repr

structure Log where
  retention : Nat
  closed : Bool := false
  /-- The current incarnation of each topic. -/
  topics : Table String Nat := .empty
  incarnations : Array Incarnation := #[]

def partitionFor (key : String) (n : Nat) : Nat := (Xxh32.hash (Utf8.encode key)).toNat % n

namespace Incarnation

def new (topic : String) (retention n : Nat) (h : 0 < n) : Incarnation where
  topic := topic
  partitions := .replicate n (.empty retention)
  partitions_pos := by simpa using h

theorem partitionFor_lt (i : Incarnation) (key : String) :
    partitionFor key i.partitions.size < i.partitions.size :=
  Nat.mod_lt _ i.partitions_pos

def produce (i : Incarnation) (key : String) (value : List UInt8) : Ack × Incarnation :=
  let p := partitionFor key i.partitions.size
  have h : p < i.partitions.size := i.partitionFor_lt key
  let old := i.partitions[p]
  let new := old.append fun offset => ⟨i.topic, p, offset, key, value⟩
  (⟨p, old.next⟩, { i with
    partitions := i.partitions.set p new
    partitions_pos := by simpa using i.partitions_pos })

end Incarnation

namespace Log

/-- An empty log that keeps at least `retention` records per partition. -/
def new (retention : Nat) : Log := { retention := max retention 1 }

def topicNames (l : Log) : List String := l.topics.keys.mergeSort fun a b => decide (a ≤ b)

def current? (l : Log) (topic : String) : Option (Nat × Incarnation) := do
  let i ← l.topics.find? topic
  return (i, ← l.incarnations[i]?)

def find (l : Log) (topic : String) : Except Error (Nat × Incarnation) :=
  if l.closed then .error .closed
  else match l.current? topic with
    | some i => .ok i
    | none => .error (.unknownTopic topic)

def partitionCount (l : Log) (topic : String) : Option Nat :=
  (l.current? topic).map fun (_, i) => i.partitions.size

def highWatermarks (l : Log) (topic : String) : Except Error (List Nat) := do
  let (_, i) ← l.find topic
  return i.partitions.toList.map Partition.next

/-- Creating a topic anew with its own partition count succeeds and changes nothing. -/
def create (l : Log) (topic : String) (n : Nat) : Except Error Log := do
  if l.closed then throw .closed
  Topic.validate topic
  if h : 0 < n then
    match l.partitionCount topic with
    | some m =>
      if m = n then return l
      throw (.log s!"topic {topic} exists with {m} partitions, requested {n}")
    | none =>
      return { l with
        topics := l.topics.insert topic l.incarnations.size
        incarnations := l.incarnations.push (.new topic l.retention n h) }
  else throw (.log s!"topic {topic} needs at least one partition")

def delete (l : Log) (topic : String) : Except Error Log := do
  let _ ← l.find topic
  return { l with topics := l.topics.erase topic }

def produce (l : Log) (topic key : String) (value : List UInt8) : Except Error (Ack × Log) := do
  let (i, inc) ← l.find topic
  let (ack, inc) := inc.produce key value
  return (ack, { l with incarnations := l.incarnations.setIfInBounds i inc })

/-- A reader at the current end of a partition. -/
def tail (l : Log) (topic : String) (partition : Nat) : Except Error Cursor := do
  let (i, inc) ← l.find topic
  match inc.partitions[partition]? with
  | some p => return ⟨i, partition, p.next⟩
  | none => throw (.unknownPartition topic partition)

def close (l : Log) : Log := { l with closed := true, topics := .empty }

def partition? (l : Log) (c : Cursor) : Option Partition := do
  let i ← l.incarnations[c.incarnation]?
  i.partitions[c.partition]?

/-- Whether the incarnation is the one its topic stands for. -/
def isCurrent (l : Log) (i : Nat) : Bool :=
  l.incarnations[i]?.any fun inc => l.topics.find? inc.topic = some i

/-- What a reader finds. It waits at the end of a partition and ends when that is gone. -/
def read (l : Log) (c : Cursor) : Read :=
  match l.partition? c with
  | none => .ended
  | some p =>
    if h : c.offset < p.next then .record (p.record c.offset h)
    else if l.isCurrent c.incarnation then .pending
    else .ended

/- Reads `fuel` records at most. -/
def drainFrom (l : Log) : Nat → Cursor → List Record × Cursor
  | 0, c => ([], c)
  | fuel + 1, c =>
    match l.read c with
    | .record r =>
      let (rs, c) := l.drainFrom fuel (c.past r)
      (r :: rs, c)
    | _ => ([], c)

def drain (l : Log) (c : Cursor) : List Record × Cursor :=
  l.drainFrom ((l.partition? c).elim 0 Partition.next - c.offset) c

end Log
end EventRelay
