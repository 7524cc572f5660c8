import EventRelay.Relay.Broker
import EventRelay.Relay.Call
import EventRelay.Relay.Feed
/-!
The relay: brokers over one log, their registries, and the work under way. Its operations here take
effect at once; `Relay.step` carries on what waits.
-/
namespace EventRelay

structure Relay where
  log : Log
  script : Script := {}
  registries : Array Registry := #[]
  mailboxes : Mailboxes := {}
  brokers : Array Broker := #[]
  lanes : Table Nat Lane := .empty
  calls : Table Nat Call := .empty
  removals : Table Nat Removal := .empty
  feeds : Table Nat Feed := .empty
  /- The numbers that the next of each kind gets. -/
  nextLane : Nat := 0
  nextCall : Nat := 0
  nextRemoval : Nat := 0
  nextFeed : Nat := 0
  nextSubscriber : Nat := 0

/-- What a broker reports about itself and its registry. -/
structure Stats where
  topics : Nat
  lanes : Nat
  channels : Nat
  subscribers : Nat
  published : UInt64
  delivered : UInt64
  refused : UInt64
  undecodable : UInt64
  deriving DecidableEq, Repr

/-- What a registry knows of that: it has neither topics nor lanes and publishes nothing. -/
def Registry.stats (r : Registry) : Stats where
  topics := 0
  lanes := 0
  channels := r.channelCount
  subscribers := r.attachedCount
  published := 0
  delivered := r.delivered
  refused := r.refused
  undecodable := r.undecodable

namespace Relay

def broker (r : Relay) (b : Nat) : Broker := r.brokers[b]?.getD default
def setBroker (r : Relay) (b : Nat) (v : Broker) : Relay :=
  { r with brokers := r.brokers.setIfInBounds b v }

def registry (r : Relay) (i : Nat) : Registry := r.registries[i]?.getD (.new 1)
def setRegistry (r : Relay) (i : Nat) (v : Registry) : Relay :=
  { r with registries := r.registries.setIfInBounds i v }

def addRegistry (r : Relay) (workers : Nat) : Nat × Relay :=
  (r.registries.size, { r with registries := r.registries.push (.new workers) })

/-- Opens a broker that feeds a registry with as many shards as it has workers. -/
def addBroker (r : Relay) (config : Config) (registry : Nat) : Except Error (Nat × Relay) := do
  config.validate
  let shards := (r.registry registry).workers
  if shards ≠ config.workers then
    throw (.invalidConfig s!"node has {shards} shards but config has {config.workers} workers")
  return (r.brokers.size, { r with brokers := r.brokers.push { config, registry } })

def connect (r : Relay) (config : Config) : Except Error (Nat × Relay) := do
  config.validate
  let (registry, r) := r.addRegistry config.workers
  r.addBroker config registry

def dispatch (r : Relay) (registry : Nat) (c : Channel) (payload : List UInt8) : Nat × Relay :=
  let (n, reg, mailboxes) := (r.registry registry).dispatch r.mailboxes c payload
  (n, { r.setRegistry registry reg with mailboxes })

def detach (r : Relay) (registry : Nat) (c : Channel) (id : SubscriberId) : Bool × Relay :=
  let (found, reg, mailboxes) := (r.registry registry).detach r.mailboxes c id
  (found, { r.setRegistry registry reg with mailboxes })

/-- Attaches a new subscriber; only what is dispatched from now on reaches it. The mailbox's first
sending end goes to the registry. -/
def subscribe (r : Relay) (b : Nat) (c : Channel) : Except Error (Subscription × Relay) := do
  Channel.validateName c.name
  let broker := r.broker b
  let id := SubscriberId.fresh r.nextSubscriber
  let (mailbox, mailboxes) := r.mailboxes.add (.new broker.config.subscriberBuffer)
  let (reg, mailboxes) := (r.registry broker.registry).attach mailboxes c id mailbox
  let r := { r.setRegistry broker.registry reg with
    mailboxes := mailboxes.dropSender mailbox
    nextSubscriber := r.nextSubscriber + 1 }
  return (⟨broker.registry, c, id, mailbox⟩, r)

/-- Ends a subscription: its subscriber is detached and its mailbox discarded. -/
def unsubscribe (r : Relay) (s : Subscription) : Relay :=
  let (_, r) := r.detach s.registry s.channel s.id
  { r with mailboxes := r.mailboxes.modify s.mailbox .discard }

def take (r : Relay) (s : Subscription) : Taken × Relay :=
  let (taken, mailboxes) := r.mailboxes.take s.mailbox
  (taken, { r with mailboxes })

def takeMany (r : Relay) (s : Subscription) (n : Nat) : List Event × Relay :=
  let (messages, mailboxes) := r.mailboxes.takeMany s.mailbox n
  (messages, { r with mailboxes })

def submit (r : Relay) (b : Nat) (request : Request) (after : Nat := 0) : Nat × Relay :=
  (r.nextCall, { r with
    calls := r.calls.insert r.nextCall ⟨b, .queued after request⟩
    nextCall := r.nextCall + 1 })

def submitAll : List (Nat × Request × Nat) → Relay → List Nat × Relay
  | [], r => ([], r)
  | (b, request, after) :: rest, r =>
    let (id, r) := r.submit b request after
    let (ids, r) := submitAll rest r
    (id :: ids, r)

def response? (r : Relay) (call : Nat) : Option Response :=
  match r.calls.find? call with
  | some ⟨_, .finished response⟩ => some response
  | _ => none

/-- Takes the answer of a call, which is over with that. -/
def collect (r : Relay) (call : Nat) : Option Response × Relay :=
  match r.response? call with
  | some response => (some response, { r with calls := r.calls.erase call })
  | none => (none, r)

def collectAll : List Nat → Relay → List (Option Response) × Relay
  | [], r => ([], r)
  | id :: ids, r =>
    let (response, r) := r.collect id
    let (responses, r) := collectAll ids r
    (response :: responses, r)

def serve (r : Relay) (b : Nat) (c : Channel) (sink : Sink) (cancelled : Bool := false) :
    Nat × Relay :=
  let (feed, r) : Feed × Relay := match r.subscribe b c with
    | .ok (s, r) => ({ subscription := some s, sink, cancelled }, r)
    | .error e => ({ subscription := none, sink, cancelled, result := some (.error e) }, r)
  (r.nextFeed, { r with feeds := r.feeds.insert r.nextFeed feed, nextFeed := r.nextFeed + 1 })

def cancel (r : Relay) (feed : Nat) : Relay :=
  { r with feeds := r.feeds.modify feed fun f => { f with cancelled := true } }

/-- The lanes of a broker's crews that are still running. -/
def runningLanes (r : Relay) (b : Nat) : List Nat :=
  (r.broker b).crews.values.flatten.filter fun i => r.lanes.contains i

def stats (r : Relay) (b : Nat) : Stats :=
  let broker := r.broker b
  { (r.registry broker.registry).stats with
    topics := broker.topics.length
    lanes := (r.runningLanes b).length
    published := broker.published }

end Relay
end EventRelay
