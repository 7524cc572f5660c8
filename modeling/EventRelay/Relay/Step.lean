import EventRelay.Relay.Basic
/-!
Work under way in a relay goes on in steps, each up to the next point where it may have to wait.
`Relay.step` is one step of one job; `Relay.readiness` says when a job can take its next.
-/
namespace EventRelay

inductive Job where
  | call (id : Nat)
  | removal (id : Nat)
  | lane (id : Nat)
  | feed (id : Nat)
  deriving DecidableEq, Repr

/-- What makes a job go on: what it waits for has come, its patience is over, or it is to stop. -/
inductive Signal where
  | proceed
  | expire
  | stop
  deriving DecidableEq, Repr

namespace Relay

def setStage (r : Relay) (id b : Nat) (s : Stage) : Relay :=
  { r with calls := r.calls.insert id ⟨b, s⟩ }

def answer (r : Relay) (id b : Nat) (a : Response) : Relay := r.setStage id b (.finished a)
def fail (r : Relay) (id b : Nat) (e : Error) : Relay := r.answer id b (.failed e)

/-- Starts a log call: takes what it meets from the script. -/
def meet (r : Relay) (c : LogCall) : Hindrance × Relay :=
  let (h, script) := r.script.meet c
  (h, { r with script })

def topicReady (r : Relay) (id b : Nat) (purpose : Purpose) (enrolled : Bool) : Relay :=
  match purpose with
  | .answer => r.answer id b (.ensured enrolled)
  | .publish item rest acks =>
    let (h, r) := r.meet .produce
    r.setStage id b (.producing item rest acks h)

/-- A topic that is not known yet is created, unless the broker is closed or full. -/
def ensureTopic (r : Relay) (id b : Nat) (topic : String) (purpose : Purpose) : Relay :=
  let broker := r.broker b
  if topic ∈ broker.topics then r.topicReady id b purpose false
  else if broker.closed then r.fail id b .closed
  else match Topic.validate topic with
    | .error e => r.fail id b e
    | .ok () =>
      if broker.isFull then r.fail id b (.topicCapacityExceeded broker.config.maxTopics)
      else
        let (h, r) := r.meet .create
        r.setStage id b (.creating topic purpose h)

def publishNext (r : Relay) (id b : Nat) (items : List Publication) (acks : List Ack) : Relay :=
  match items with
  | [] => r.answer id b (.published acks)
  | item :: rest =>
    if (r.broker b).closed then r.fail id b .closed
    else match Channel.validateName item.channel.name with
      | .error e => r.fail id b e
      | .ok () => r.ensureTopic id b item.channel.topic (.publish item rest acks)

/-- The first close lets every lane go and waits for them; a later one has nothing to do. -/
def closeBroker (r : Relay) (id b : Nat) : Relay :=
  let broker := r.broker b
  if broker.closed then r.answer id b .closed
  else
    let lanes := broker.crews.values.flatten
    (r.setBroker b { broker with closed := true, crews := .empty }).setStage id b (.draining lanes)

def start (r : Relay) (id b : Nat) : Request → Relay
  | .ensure topic => r.ensureTopic id b topic .answer
  | .publish items => r.publishNext id b items []
  | .close => r.closeBroker id b

def dismiss : List Nat → Relay → Relay
  | [], r => r
  | i :: is, r =>
    dismiss is { r with lanes := r.lanes.modify i fun l => { l with dismissed := true } }

/-- Adds a lane for each reader, from partition `p` on, and answers their numbers. -/
def addLanes (b : Nat) (topic : String) : Nat → List Reader → Relay → List Nat × Relay
  | _, [], r => ([], r)
  | p, reader :: readers, r =>
    let lane : Lane := { broker := b, topic, partition := p, reader }
    let (ids, s) := addLanes b topic (p + 1) readers
      { r with lanes := r.lanes.insert r.nextLane lane, nextLane := r.nextLane + 1 }
    (r.nextLane :: ids, s)

/-- Starts the lanes of a topic. Lanes that run for it already are told to stop. -/
def startLanes (r : Relay) (b : Nat) (topic : String) (readers : List Reader) : Relay :=
  let r := dismiss (((r.broker b).crews.find? topic).getD []) r
  let (ids, r) := addLanes b topic 0 readers r
  let broker := r.broker b
  r.setBroker b { broker with crews := broker.crews.insert topic ids }

def remove (r : Relay) (topic : String) : Relay :=
  { r with
    removals := r.removals.insert r.nextRemoval { topic }
    nextRemoval := r.nextRemoval + 1 }

/-- All readers are open, so the topic is enrolled if a slot is still free. -/
def enroll (r : Relay) (id b : Nat) (topic : String) (purpose : Purpose)
    (readers : List Reader) : Relay :=
  let broker := r.broker b
  match broker.enroll topic with
  | (.enrolled, broker) =>
    ((r.setBroker b broker).startLanes b topic readers).topicReady id b purpose true
  | (.known, _) => r.topicReady id b purpose false
  | (.full, _) => (r.remove topic).fail id b (.topicCapacityExceeded broker.config.maxTopics)

def openNext (r : Relay) (id b : Nat) (topic : String) (purpose : Purpose)
    (readers : List Reader) : Relay :=
  if (r.broker b).config.partitions.toNat ≤ readers.length then r.enroll id b topic purpose readers
  else
    let (h, r) := r.meet .tail
    r.setStage id b (.opening topic purpose readers h)

/-- The log call that a call waited for goes through, or fails as scripted. -/
def reach (r : Relay) (id b : Nat) (h : Hindrance) (f : Except Error Relay) : Relay :=
  match h.failure with
  | some reason => r.fail id b (.log reason)
  | none => match f with
    | .ok r => r
    | .error e => r.fail id b e

def proceedCall (r : Relay) (id b : Nat) : Stage → Option Relay
  | .queued 0 request => some (r.start id b request)
  | .queued after request => some (r.setStage id b (.delayed after request))
  | .delayed _ request => some (r.start id b request)
  | .creating topic purpose h => some <| r.reach id b h do
      let log ← r.log.create topic (r.broker b).config.partitions.toNat
      let r := { r with log }
      return r.openNext id b topic purpose []
  | .opening topic purpose readers h => some <| r.reach id b h do
      let cursor ← r.log.tail topic readers.length
      let (reads, script) := r.script.takeReads topic readers.length
      let r := { r with script }
      return r.openNext id b topic purpose (readers ++ [⟨cursor, reads⟩])
  | .producing item rest acks h => some <| r.reach id b h do
      let (ack, log) ← r.log.produce item.channel.topic item.channel.name item.payload
      let broker := r.broker b
      let r := { r.setBroker b { broker with published := broker.published + 1 } with log }
      return r.publishNext id b rest (acks ++ [ack])
  | .draining lanes =>
    if lanes.any fun i => r.lanes.contains i then none
    else
      let (h, r) := r.meet .close
      some (r.setStage id b (.closing h))
  | .closing h => some <| r.reach id b h do
      let r := { r with log := r.log.close }
      return r.answer id b .closed
  | .finished _ => none

def stepCall (r : Relay) (id : Nat) (s : Signal) : Option Relay := do
  let call ← r.calls.find? id
  match s, call.stage with
  | .proceed, stage => r.proceedCall id call.broker stage
  | .expire, .creating topic .. => some (r.fail id call.broker (.topicCreateTimeout topic))
  | _, _ => none

/-- A removal that fails is not repeated. -/
def stepRemoval (r : Relay) (id : Nat) (s : Signal) : Option Relay := do
  let removal ← r.removals.find? id
  match s, removal.hindrance with
  | .proceed, none =>
    let (h, r) := r.meet .delete
    return { r with removals := r.removals.insert id { removal with hindrance := some h } }
  | .proceed, some h =>
    let log := match h.failure with
      | some _ => r.log
      | none => (r.log.delete removal.topic).toOption.getD r.log
    return { r with log, removals := r.removals.erase id }
  | _, _ => none

def isCancelled (r : Relay) (l : Lane) : Bool := l.dismissed || (r.broker l.broker).closed

/-- A lane dispatches a record, waits after a failed read, and exits at the end. -/
def react (r : Relay) (id : Nat) (lane : Lane) : ReadStep → Option Relay
  | .pending => none
  | .record record reader =>
    let registry := (r.broker lane.broker).registry
    let (_, r) := r.dispatch registry ⟨lane.topic, record.key⟩ record.value
    some { r with lanes := r.lanes.insert id { lane with reader } }
  | .failed _ reader =>
    some { r with lanes := r.lanes.insert id { lane with reader, stage := .retrying } }
  | .ended => some { r with lanes := r.lanes.erase id }

/-- A step of a lane over any reader; `read` tells what a read gives at this moment. -/
def stepLaneOver (r : Relay) (id : Nat) (read : Lane → ReadStep) (s : Signal) : Option Relay := do
  let lane ← r.lanes.find? id
  match s, lane.stage with
  | .stop, _ => if r.isCancelled lane then return { r with lanes := r.lanes.erase id } else none
  | .proceed, .retrying =>
    return { r with lanes := r.lanes.insert id { lane with stage := .reading } }
  | .proceed, .reading => r.react id lane (read lane)
  | .expire, _ => none

def stepLane (r : Relay) (id : Nat) (s : Signal) : Option Relay :=
  r.stepLaneOver id (fun lane => lane.reader.read r.log) s

def endFeed (r : Relay) (id : Nat) (f : Feed) (s : Subscription) (result : Except Error Unit) :
    Relay :=
  let r := r.unsubscribe s
  { r with feeds := r.feeds.insert id { f with result := some result } }

def stepFeed (r : Relay) (id : Nat) (s : Signal) : Option Relay := do
  let feed ← r.feeds.find? id
  let sub ← feed.subscription
  if feed.result.isSome then none
  else match s with
    | .stop => if feed.cancelled then return r.endFeed id feed sub (.ok ()) else none
    | .expire => none
    | .proceed =>
      match r.take sub with
      | (.empty, _) => none
      | (.disconnected, _) => return r.endFeed id feed sub (.ok ())
      | (.message m, r) =>
        match feed.sink feed.taken m with
        | .ok () =>
          let feed := { feed with taken := feed.taken ++ [m] }
          return { r with feeds := r.feeds.insert id feed }
        | .error e => return r.endFeed id feed sub (.error e)

def step (r : Relay) : Job → Signal → Option Relay
  | .call id, s => r.stepCall id s
  | .removal id, s => r.stepRemoval id s
  | .lane id, s => r.stepLane id s
  | .feed id, s => r.stepFeed id s

end Relay

/-- A job can go on at once, or it waits: for other jobs, or for one of some timers. -/
inductive Readiness where
  | now (s : Signal)
  | later (timers : List (Nat × Signal))
  deriving DecidableEq, Repr

def Hindrance.readiness (h : Hindrance) (others : List (Nat × Signal) := []) : Readiness :=
  if h.delay = 0 then .now .proceed else .later ((h.delay, .proceed) :: others)

namespace Relay

def callReadiness (r : Relay) (c : Call) : Readiness :=
  match c.stage with
  | .queued .. => .now .proceed
  | .delayed after _ => .later [(after, .proceed)]
  | .creating _ _ h => h.readiness [((r.broker c.broker).createTimeout, .expire)]
  | .opening _ _ _ h | .producing _ _ _ h | .closing h => h.readiness
  | .draining lanes => if lanes.any fun i => r.lanes.contains i then .later [] else .now .proceed
  | .finished _ => .later []

def laneReadiness (r : Relay) (l : Lane) : Readiness :=
  if r.isCancelled l then .now .stop
  else match l.stage with
    | .retrying => .later [(Lane.retryDelay, .proceed)]
    | .reading =>
      match l.reader.read r.log with
      | .pending => .later []
      | _ => .now .proceed

def feedReadiness (r : Relay) (f : Feed) : Readiness :=
  match f.subscription, f.result with
  | some s, none =>
    if f.cancelled then .now .stop
    else match (r.take s).1 with
      | .empty => .later []
      | _ => .now .proceed
  | _, _ => .later []

/-- When a job can take its next step; one that is over waits for nothing. -/
def readiness (r : Relay) : Job → Readiness
  | .call id => (r.calls.find? id).elim (.later []) r.callReadiness
  | .removal id => (r.removals.find? id).elim (.later []) fun m =>
      m.hindrance.elim (.now .proceed) Hindrance.readiness
  | .lane id => (r.lanes.find? id).elim (.later []) r.laneReadiness
  | .feed id => (r.feeds.find? id).elim (.later []) r.feedReadiness

def jobs (r : Relay) : List Job :=
  r.calls.keys.map .call ++ r.removals.keys.map .removal ++ r.lanes.keys.map .lane ++
    r.feeds.keys.map .feed

def enabled (r : Relay) : List (Job × Signal) :=
  r.jobs.filterMap fun j => match r.readiness j with
    | .now s => some (j, s)
    | .later _ => none

end Relay
end EventRelay
