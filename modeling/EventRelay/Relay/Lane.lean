import EventRelay.Log
import EventRelay.Relay.Script
/-!
Lanes: each reads one partition of a topic for one broker.
-/
namespace EventRelay

structure Reader where
  cursor : Cursor
  script : List ReadHindrance := []

inductive ReadStep where
  | pending
  | record (r : Record) (next : Reader)
  | failed (reason : String) (next : Reader)
  | ended

def Reader.read (rd : Reader) (log : Log) : ReadStep :=
  match rd.script with
  | .failure reason :: script => .failed reason { rd with script }
  | .ended :: _ => .ended
  | _ =>
    match log.read rd.cursor with
    | .record r => .record r ⟨rd.cursor.past r, rd.script.tail⟩
    | .pending => .pending
    | .ended => .ended

inductive LaneStage where
  | reading
  /-- Waits before it reads again. -/
  | retrying
  deriving DecidableEq, Repr

structure Lane where
  broker : Nat
  topic : String
  partition : Nat
  reader : Reader
  stage : LaneStage := .reading
  /-- Told to stop on its own. -/
  dismissed : Bool := false

/-- The wait after a failed read, in milliseconds. -/
def Lane.retryDelay : Nat := 100

end EventRelay
