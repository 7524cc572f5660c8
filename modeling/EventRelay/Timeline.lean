import EventRelay.Relay.Step
/-!
A relay in time. Jobs run one at a time, in the order in which they became able to run, each until
it waits; the clock moves, in milliseconds, only when no job can run, and then to the next alarm.
-/
namespace EventRelay

structure Alarm where
  due : Nat
  job : Job
  signal : Signal
  deriving DecidableEq, Repr

structure Timeline where
  relay : Relay
  now : Nat := 0
  /-- Jobs that can run, the next one first. -/
  ready : List (Job × Signal) := []
  /-- In the order in which they were set. -/
  alarms : List Alarm := []

namespace Timeline

def wake (t : Timeline) : Timeline :=
  { t with
    ready := t.ready ++ t.relay.enabled.filter fun (j, _) => t.ready.all fun (k, _) => j ≠ k }

def change (t : Timeline) (relay : Relay) : Timeline := { t with relay }.wake

/-- After a step a job goes on at once, or sets its alarms. -/
def resume (t : Timeline) (j : Job) : Timeline :=
  match t.relay.readiness j with
  | .now s => { t with ready := (j, s) :: t.ready }
  | .later timers =>
    { t with alarms := t.alarms ++ timers.map fun (ms, s) => ⟨t.now + ms, j, s⟩ }

/-- The next job takes one step; what else it was to be signalled is dropped. -/
def tick (t : Timeline) : Option Timeline :=
  match t.ready with
  | [] => none
  | (j, s) :: ready =>
    match t.relay.step j s with
    | none => some { t with ready }
    | some relay =>
      let t := { t with
        relay
        ready := ready.filter fun (k, _) => k ≠ j
        alarms := t.alarms.filter fun a => a.job ≠ j }
      some (t.resume j).wake

def run : Nat → Timeline → Timeline
  | 0, t => t
  | fuel + 1, t => match t.tick with
    | none => t
    | some t => run fuel t

end Timeline

/-- A measure of all that is still to be done in a relay at this moment. -/
def Relay.workload (r : Relay) : Nat :=
  let items : Stage → Nat
    | .queued _ (.publish items) | .delayed _ (.publish items) => items.length + 1
    | .creating _ (.publish _ rest _) _ | .opening _ (.publish _ rest _) .. => rest.length + 2
    | .producing _ rest .. => rest.length + 2
    | _ => 1
  let unread : Reader → Nat := fun rd =>
    rd.script.length + ((r.log.partition? rd.cursor).elim 0 Partition.next - rd.cursor.offset)
  let total : List Nat → Nat := List.foldl (· + ·) 0
  let workers := total (r.brokers.toList.map fun b => b.config.workers + 4)
  total (r.calls.values.map fun c => items c.stage) * (workers + 4)
    + total (r.lanes.values.map fun l => unread l.reader + 2)
    + total (r.script.reads.values.map List.length)
    + total (r.mailboxes.boxes.toList.map fun b => b.buffer.length)
    + 3 * (r.removals.size + r.feeds.size) + 4

/-- Each record is read by every lane and each delivery taken by every feed at most, so the cube of
the workload bounds the steps that a relay takes before it waits. -/
def Relay.stepBound (r : Relay) : Nat := r.workload * r.workload * r.workload

namespace Timeline

def settle (t : Timeline) : Timeline := t.run (t.relay.stepBound + t.ready.length)

def nextAlarm (t : Timeline) : Option Nat := (t.alarms.map Alarm.due).min?

/-- Moves the clock and queues the jobs whose alarms are due. -/
def moveTo (t : Timeline) (now : Nat) : Timeline :=
  { t with
    now
    ready := t.ready ++ (t.alarms.filter (·.due ≤ now)).map fun a => (a.job, a.signal)
    alarms := t.alarms.filter fun a => now < a.due }

/- Alarms that are due before `deadline` go off one after the other, `fuel` of them at most. -/
def passUntil (deadline : Nat) : Nat → Timeline → Timeline
  | 0, t => t
  | fuel + 1, t => match t.nextAlarm with
    | some due => if due < deadline then passUntil deadline fuel (t.moveTo due).settle else t
    | none => t

/-- Lets some milliseconds pass, what is due at their end included. -/
def wait (t : Timeline) (ms : Nat) : Timeline :=
  let deadline := t.now + ms
  let t := passUntil (deadline + 1) (ms + 1) t.settle
  { t with now := deadline }

/- Alarms go off one after the other until a condition holds, `fuel` of them at most. -/
def passUntilDone (done : Relay → Bool) : Nat → Timeline → Timeline
  | 0, t => t
  | fuel + 1, t =>
    if done t.relay then t
    else match t.nextAlarm with
      | some due => passUntilDone done fuel (t.moveTo due).settle
      | none => t

def await (t : Timeline) (calls : List Nat) : Timeline :=
  let fuel := t.relay.stepBound
  passUntilDone (fun r => calls.all fun c => (r.response? c).isSome) fuel t.settle

/-- Makes several calls at once, each after some milliseconds, and waits for all answers. -/
def performAll (t : Timeline) (requests : List (Nat × Request × Nat)) :
    List (Option Response) × Timeline :=
  let (ids, relay) := Relay.submitAll requests t.relay
  let t := (t.change relay).await ids
  let (responses, relay) := Relay.collectAll ids t.relay
  (responses, { t with relay })

def perform (t : Timeline) (b : Nat) (request : Request) : Option Response × Timeline :=
  let (id, relay) := t.relay.submit b request
  let t := (t.change relay).await [id]
  let (response, relay) := t.relay.collect id
  (response, { t with relay })

/- Takes a message, or lets the next alarm before the deadline go off and tries again. -/
def receiveUntil (deadline : Nat) (s : Subscription) : Nat → Timeline → Taken × Timeline
  | 0, t => (.empty, t)
  | fuel + 1, t =>
    match t.relay.take s with
    | (.empty, _) =>
      match t.nextAlarm with
      | some due =>
        if due < deadline then receiveUntil deadline s fuel (t.moveTo due).settle
        else (.empty, { t with now := max t.now deadline })
      | none => (.empty, { t with now := max t.now deadline })
    | (taken, relay) => (taken, t.change relay)

/-- Waits some milliseconds for a message; one that comes at their very end is too late. -/
def receive (t : Timeline) (s : Subscription) (ms : Nat) : Except Error Event × Timeline :=
  match receiveUntil (t.now + ms) s (ms + 1) t.settle with
  | (.message m, t) => (.ok m, t)
  | (.disconnected, t) => (.error .closed, t)
  | (.empty, t) => (.error .timeout, t)

/-- Takes a message, after a wait if none is there yet; one that comes at its very end counts. -/
def takeWithin (t : Timeline) (s : Subscription) (ms : Nat) : Taken × Timeline :=
  let t := match (t.relay.take s).1 with
    | .empty => t.wait ms
    | _ => t
  let (taken, relay) := t.relay.take s
  (taken, t.change relay)

end Timeline
end EventRelay
