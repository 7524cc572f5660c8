import EventRelay.Config
import EventRelay.Text.Blank
import EventRelay.Text.Quoted
import EventRelay.Text.Utf8
/-!
Configuration from environment variables. A variable that is unset or not UTF-8 leaves its default.
-/
namespace EventRelay

/-- The bytes a variable is set to, if it is set. -/
abbrev Environment := String → Option (List UInt8)

namespace Environment

def text (env : Environment) (key : String) : Option String := (env key).bind Utf8.decode?

/-- A numeral: at least one digit, behind a plus sign at most, and below 2^64. -/
def numeral? (cs : List Char) : Option Nat :=
  let ds := if cs.head? = some '+' then cs.drop 1 else cs
  if ds ≠ [] ∧ ds.all Char.isDigit ∧ Nat.ofDigitChars 10 ds 0 < UInt64.size then
    some (Nat.ofDigitChars 10 ds 0)
  else none

def number (env : Environment) (key : String) (default : Nat) : Except Error Nat :=
  match env.text key with
  | none => .ok default
  | some raw =>
    match numeral? (Text.trim raw.toList) with
    | some n => .ok n
    | none =>
      .error (.invalidConfig (key ++ " must be a non-negative integer, got " ++ Text.quote raw))

/- The parts of a text between commas. -/
def fields : List Char → List (List Char)
  | [] => [[]]
  | c :: r =>
    if c = ',' then [] :: fields r
    else match fields r with
      | [] => [[c]]
      | f :: fs => (c :: f) :: fs

/-- Names between commas, trimmed; empty ones do not count. -/
def names (s : String) : List String :=
  (((fields s.toList).map Text.trim).filter (· ≠ [])).map String.ofList

/-- A bad number is reported before anything else that is wrong with the result. -/
def config (env : Environment) : Except Error Config := do
  let d : Config := {}
  let brokers := (env.text "FANOUT_BROKERS").elim d.brokers names
  let workers ← env.number "FANOUT_WORKERS" d.workers
  let maxTopics ← env.number "FANOUT_MAX_TOPICS" d.maxTopics
  let timeout ← env.number "FANOUT_TOPIC_TIMEOUT_MS" (d.topicCreateTimeout / 1000000)
  let buffer ← env.number "FANOUT_SUBSCRIBER_BUFFER" d.subscriberBuffer
  let retention ← env.number "FANOUT_PARTITION_RETENTION" d.partitionRetention
  let c : Config := ⟨brokers, workers, maxTopics, timeout * 1000000, buffer, retention⟩
  c.validate
  return c

end Environment
end EventRelay
