/-!
Everything a call can fail with: its stable label, its text, and whether a later call may succeed.
-/
namespace EventRelay

inductive Error where
  | topicCapacityExceeded (max : Nat)
  | topicCreateTimeout (topic : String)
  | log (reason : String)
  | unknownTopic (topic : String)
  | unknownPartition (topic : String) (partition : Nat)
  | invalidTopic (reason : String)
  | invalidChannel (reason : String)
  | serialization (reason : String)
  | deserialization (reason : String)
  | subscriberLagging (subscriber : String)
  | subscriberClosed (subscriber : String)
  | timeout
  | closed
  | invalidConfig (reason : String)
  deriving DecidableEq, Repr

namespace Error

def label : Error → String
  | topicCapacityExceeded _ => "topic_capacity_exceeded"
  | topicCreateTimeout _ => "topic_create_timeout"
  | log _ => "log_error"
  | unknownTopic _ => "unknown_topic"
  | unknownPartition .. => "unknown_partition"
  | invalidTopic _ => "invalid_topic"
  | invalidChannel _ => "invalid_channel"
  | serialization _ => "serialization_error"
  | deserialization _ => "deserialization_error"
  | subscriberLagging _ => "subscriber_lagging"
  | subscriberClosed _ => "subscriber_closed"
  | timeout => "timeout"
  | closed => "closed"
  | invalidConfig _ => "invalid_config"

def message : Error → String
  | topicCapacityExceeded max => s!"Topic capacity exceeded: at most {max} topics can be live"
  | topicCreateTimeout topic => "Timed out creating topic: " ++ topic
  | log reason => "Log error: " ++ reason
  | unknownTopic topic => "Unknown topic: " ++ topic
  | unknownPartition topic partition => s!"Unknown partition {partition} for topic {topic}"
  | invalidTopic reason => "Invalid topic name: " ++ reason
  | invalidChannel reason => "Invalid channel name: " ++ reason
  | serialization reason => "Failed to serialize message: " ++ reason
  | deserialization reason => "Failed to deserialize message: " ++ reason
  | subscriberLagging subscriber => s!"Subscriber {subscriber} is not keeping up"
  | subscriberClosed subscriber => s!"Subscriber {subscriber} has gone away"
  | timeout => "Operation timeout"
  | closed => "Broker is closed"
  | invalidConfig reason => "Invalid configuration: " ++ reason

/-- Whether the same call can succeed later. A topic is never given up while a broker lives, so a
full broker stays full. -/
def isTransient : Error → Bool
  | topicCreateTimeout _ | log _ | subscriberLagging _ | timeout => true
  | _ => false

end Error
end EventRelay
