import EventRelay.Config
import EventRelay.Table
/-!
A broker: the topics it has enrolled, never more than its cap, and the lanes that consume them.
Main statements: `enroll_of_mem`, `enroll_of_full` and `enroll_of_room`, one for each outcome.
-/
namespace EventRelay

structure Broker where
  config : Config := {}
  /-- The registry its lanes feed. -/
  registry : Nat := 0
  /-- Enrolled topics, the latest last. -/
  topics : List String := []
  /-- The lanes started for each topic. -/
  crews : Table String (List Nat) := .empty
  /-- Records the log has acknowledged. -/
  published : UInt64 := 0
  closed : Bool := false

namespace Broker

/-- A broker that was never opened takes no calls. -/
instance : Inhabited Broker := ⟨{ closed := true }⟩

def isFull (b : Broker) : Bool := b.config.maxTopics ≤ b.topics.length

inductive Enrollment where
  | enrolled
  | known
  | full
  deriving DecidableEq, Repr

def enroll (b : Broker) (topic : String) : Enrollment × Broker :=
  if topic ∈ b.topics then (.known, b)
  else if b.isFull then (.full, b)
  else (.enrolled, { b with topics := b.topics ++ [topic] })

def topicNames (b : Broker) : List String := b.topics.mergeSort fun x y => decide (x ≤ y)

/-- The longest wait for a topic to be created, in whole milliseconds. -/
def createTimeout (b : Broker) : Nat := (b.config.topicCreateTimeout + 999999) / 1000000

theorem enroll_of_mem {b : Broker} {topic : String} (h : topic ∈ b.topics) :
    b.enroll topic = (.known, b) := by
  rw [enroll, if_pos h]

theorem enroll_of_full {b : Broker} {topic : String} (h : topic ∉ b.topics)
    (hf : b.config.maxTopics ≤ b.topics.length) : b.enroll topic = (.full, b) := by
  rw [enroll, if_neg h, if_pos (by simpa [isFull] using hf)]

theorem enroll_of_room {b : Broker} {topic : String} (h : topic ∉ b.topics)
    (hf : b.topics.length < b.config.maxTopics) :
    b.enroll topic = (.enrolled, { b with topics := b.topics ++ [topic] }) := by
  rw [enroll, if_neg h, if_neg (by simpa [isFull] using hf)]

end Broker
end EventRelay
