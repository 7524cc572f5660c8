import EventRelay.Error
/-!
Configuration of a broker, and what makes one unusable.
-/
namespace EventRelay

structure Config where
  brokers : List String := ["localhost:9092"]
  /-- Registry shards, and partitions of every topic. -/
  workers : Nat := 8
  maxTopics : Nat := 16
  /-- How long creating a topic may take, in nanoseconds. -/
  topicCreateTimeout : Nat := 1000000000
  subscriberBuffer : Nat := 256
  partitionRetention : Nat := 1024
  deriving DecidableEq, Repr

namespace Config

inductive Fault where
  | noBrokers
  | noWorkers
  | tooManyWorkers
  | noTopics
  | noTimeout
  | noBuffer
  | noRetention
  deriving DecidableEq, Repr

def Fault.message : Fault → String
  | noBrokers => "at least one broker address is required"
  | noWorkers => "workers cannot be zero"
  | tooManyWorkers => "workers must fit a partition index"
  | noTopics => "max_topics cannot be zero"
  | noTimeout => "topic_create_timeout cannot be zero"
  | noBuffer => "subscriber_buffer cannot be zero"
  | noRetention => "partition_retention cannot be zero"

def fault? (c : Config) : Option Fault :=
  if c.brokers = [] then some .noBrokers
  else if c.workers = 0 then some .noWorkers
  else if UInt32.size ≤ c.workers then some .tooManyWorkers
  else if c.maxTopics = 0 then some .noTopics
  else if c.topicCreateTimeout = 0 then some .noTimeout
  else if c.subscriberBuffer = 0 then some .noBuffer
  else if c.partitionRetention = 0 then some .noRetention
  else none

def validate (c : Config) : Except Error Unit :=
  match c.fault? with
  | some f => .error (.invalidConfig f.message)
  | none => .ok ()

/-- Partition indices are 32 bit words. -/
def partitions (c : Config) : UInt32 := c.workers.toUInt32

theorem partitions_toNat {c : Config} (h : c.fault? = none) : c.partitions.toNat = c.workers := by
  have : c.workers < UInt32.size := by
    unfold fault? at h
    split at h <;> try contradiction
    split at h <;> try contradiction
    split at h <;> try contradiction
    omega
  simpa [partitions] using Nat.mod_eq_of_lt this

end Config
end EventRelay
