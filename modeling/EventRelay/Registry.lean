import EventRelay.Event.Binary
import EventRelay.Hash.Xxh64
import EventRelay.Mailbox
import EventRelay.Table
/-!
The registry of attached subscribers: channels spread over shards by the hash of their names.
Main statement: `members_setMembers`, the shards act as one table of channels.
-/
namespace EventRelay

def hashName (name : String) : UInt64 := Xxh64.hash (Utf8.encode name)

inductive ShardFault where
  | noShards
  deriving DecidableEq, Repr

def ShardFault.message : ShardFault → String
  | noShards => "shard count must be non-zero"

def shardIndex (name : String) (n : Nat) : Except ShardFault Nat :=
  if n = 0 then .error .noShards else .ok ((hashName name).toNat % n)

/-- The subscribers of one channel and their mailboxes. -/
abbrev Members := Table SubscriberId Nat

abbrev Shard := Table Channel Members

structure Registry where
  shards : Array Shard
  shards_pos : 0 < shards.size
  /-- Messages put into mailboxes. -/
  delivered : UInt64 := 0
  /-- Messages that a mailbox refused. -/
  refused : UInt64 := 0
  /-- Payloads that hold no event. -/
  undecodable : UInt64 := 0

def SubscriberId.refusal (id : SubscriberId) : Refusal → Error
  | .full => .subscriberLagging id.text
  | .closed => .subscriberClosed id.text

namespace Registry

def new (workers : Nat) : Registry where
  shards := .replicate (max workers 1) .empty
  shards_pos := by rw [Array.size_replicate]; exact Nat.le_max_right workers 1

def workers (r : Registry) : Nat := r.shards.size

def shardOf (r : Registry) (name : String) : Nat := (hashName name).toNat % r.workers

theorem shardOf_lt (r : Registry) (name : String) : r.shardOf name < r.shards.size :=
  Nat.mod_lt _ r.shards_pos

def shard (r : Registry) (c : Channel) : Shard :=
  have h : r.shardOf c.name < r.shards.size := r.shardOf_lt c.name
  r.shards[r.shardOf c.name]

def setShard (r : Registry) (c : Channel) (s : Shard) : Registry :=
  { r with
    shards := r.shards.set (r.shardOf c.name) s (r.shardOf_lt c.name)
    shards_pos := by simpa using r.shards_pos }

def members (r : Registry) (c : Channel) : Members := ((r.shard c).find? c).getD .empty

/-- Stores the members of a channel; a channel without members is not kept. -/
def setMembers (r : Registry) (c : Channel) (m : Members) : Registry :=
  r.setShard c (if m.isEmpty then (r.shard c).erase c else (r.shard c).insert c m)

/-- Attaches a sending end of a mailbox; an earlier one under the same identifier is let go. -/
def attach (r : Registry) (boxes : Mailboxes) (c : Channel) (id : SubscriberId) (box : Nat) :
    Registry × Mailboxes :=
  let m := r.members c
  let boxes := boxes.addSender box
  let boxes := match m.find? id with
    | some old => boxes.dropSender old
    | none => boxes
  (r.setMembers c (m.insert id box), boxes)

/-- Lets go of a subscriber; answers whether it was attached. -/
def detach (r : Registry) (boxes : Mailboxes) (c : Channel) (id : SubscriberId) :
    Bool × Registry × Mailboxes :=
  let m := r.members c
  match m.find? id with
  | some box => (true, r.setMembers c (m.erase id), boxes.dropSender box)
  | none => (false, r, boxes)

/- Offers an event to each mailbox in turn and counts those that take it and those that refuse. -/
def offer (m : Event) : List Nat → Mailboxes → Nat × Nat × Mailboxes
  | [], boxes => (0, 0, boxes)
  | box :: rest, boxes =>
    match boxes.deliver box m with
    | .ok boxes => let (n, k, boxes) := offer m rest boxes; (n + 1, k, boxes)
    | .error _ => let (n, k, boxes) := offer m rest boxes; (n, k + 1, boxes)

/-- Delivers a payload to every subscriber of a channel and answers how many took it. A channel
without subscribers is left alone, whatever the payload. -/
def dispatch (r : Registry) (boxes : Mailboxes) (c : Channel) (payload : List UInt8) :
    Nat × Registry × Mailboxes :=
  let m := r.members c
  if m.isEmpty then (0, r, boxes)
  else match Binary.decode payload with
    | .error _ => (0, { r with undecodable := r.undecodable + 1 }, boxes)
    | .ok event =>
      let (n, k, boxes) := offer event m.values boxes
      let r := { r with
        delivered := r.delivered + n.toUInt64
        refused := r.refused + k.toUInt64 }
      (n, r, boxes)

theorem shard_setShard (r : Registry) (c d : Channel) (s : Shard) :
    (r.setShard c s).shard d = if r.shardOf c.name = r.shardOf d.name then s else r.shard d := by
  have hd : (r.setShard c s).shardOf d.name = r.shardOf d.name := by
    simp only [shardOf, workers, setShard, Array.size_set]
  simp only [shard, hd]
  simp only [setShard, Array.getElem_set]

@[simp] theorem members_new (workers : Nat) (c : Channel) : (new workers).members c = .empty := by
  have : (new workers).shard c = .empty := by
    simp only [shard, new, Array.getElem_replicate]
  rw [members, this]; rfl

theorem members_setMembers (r : Registry) (c d : Channel) (m : Members) :
    (r.setMembers c m).members d = if c = d then m else r.members d := by
  rw [members, setMembers, shard_setShard]
  by_cases hcd : c = d
  · subst hcd
    rw [if_pos rfl, if_pos rfl]
    by_cases hm : m.isEmpty
    · rw [if_pos hm, Table.find?_erase, if_pos rfl]
      exact (Table.eq_empty_of_isEmpty hm).symm
    · rw [if_neg hm, Table.find?_insert, if_pos rfl]
      rfl
  · rw [if_neg hcd]
    by_cases hs : r.shardOf c.name = r.shardOf d.name
    · have hshard : r.shard c = r.shard d := by simp only [shard, hs]
      rw [if_pos hs, hshard]
      by_cases hm : m.isEmpty
      · rw [if_pos hm, Table.find?_erase, if_neg hcd]; rfl
      · rw [if_neg hm, Table.find?_insert, if_neg hcd]; rfl
    · rw [if_neg hs]; rfl

def subscriberCount (r : Registry) (c : Channel) : Nat := (r.members c).size
def channels (r : Registry) : List Channel := r.shards.toList.flatMap Table.keys

def attached (r : Registry) : List (Channel × SubscriberId) :=
  r.shards.toList.flatMap fun s => s.entries.flatMap fun (c, m) => m.keys.map fun id => (c, id)

def channelCount (r : Registry) : Nat := r.channels.length
def attachedCount (r : Registry) : Nat := r.attached.length

end Registry
end EventRelay
