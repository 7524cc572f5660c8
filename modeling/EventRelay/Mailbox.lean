import EventRelay.Event
/-!
The buffer of one subscriber: a bounded queue that never makes a sender wait.
Main statements: `deliver_of_room`, `deliver_of_full` and `deliver_of_closed`, one for each outcome
of a delivery, and `takeMany_add`.
-/
namespace EventRelay

structure Mailbox where
  capacity : Nat
  buffer : List Event := []
  accepting : Bool := true
  /-- Sending ends alive; a stream ends when none is left. -/
  senders : Nat
  deriving DecidableEq

inductive Refusal where
  | closed
  | full
  deriving DecidableEq, Repr

inductive Taken where
  | message (m : Event)
  | empty
  | disconnected
  deriving DecidableEq

namespace Mailbox

/-- An empty mailbox, for at least one message, with one sending end. -/
def new (capacity : Nat) : Mailbox := { capacity := max capacity 1, senders := 1 }

def deliver (b : Mailbox) (m : Event) : Except Refusal Mailbox :=
  if !b.accepting then .error .closed
  else if b.capacity ≤ b.buffer.length then .error .full
  else .ok { b with buffer := b.buffer ++ [m] }

def take (b : Mailbox) : Taken × Mailbox :=
  match b.buffer with
  | m :: rest => (.message m, { b with buffer := rest })
  | [] => (if b.accepting && b.senders != 0 then .empty else .disconnected, b)

/-- Up to `n` messages that are there already. Space for `n` messages of eight bytes is set aside
first, whatever the buffer holds; from `n = 2^60` on that fails, which is not described here. -/
def takeMany (b : Mailbox) (n : Nat) : List Event × Mailbox :=
  (b.buffer.take n, { b with buffer := b.buffer.drop n })

/-- Takes no more messages; those in the buffer stay. -/
def close (b : Mailbox) : Mailbox := { b with accepting := false }

/-- The receiving side goes away, and what it had not taken with it. -/
def discard (b : Mailbox) : Mailbox := { b with accepting := false, buffer := [] }

theorem deliver_of_room {b : Mailbox} (m : Event) (ha : b.accepting = true)
    (hr : b.buffer.length < b.capacity) :
    b.deliver m = .ok { b with buffer := b.buffer ++ [m] } := by
  rw [deliver, if_neg (by rw [ha]; decide), if_neg (Nat.not_le.2 hr)]

theorem deliver_of_full {b : Mailbox} (m : Event) (ha : b.accepting = true)
    (hf : b.capacity ≤ b.buffer.length) : b.deliver m = .error .full := by
  rw [deliver, if_neg (by rw [ha]; decide), if_pos hf]

theorem deliver_of_closed {b : Mailbox} (m : Event) (h : b.accepting = false) :
    b.deliver m = .error .closed := by
  rw [deliver, if_pos (by rw [h]; rfl)]

theorem take_message {b : Mailbox} {m : Event} :
    b.take.1 = .message m ↔ b.buffer.head? = some m := by
  unfold take
  cases b.buffer with
  | nil => cases (b.accepting && b.senders != 0) <;> simp
  | cons m' rest => simp

theorem buffer_take (b : Mailbox) : b.take.2.buffer = b.buffer.tail := by
  unfold take
  cases hb : b.buffer with
  | nil => exact hb
  | cons m rest => rfl

theorem takeMany_add (b : Mailbox) (n k : Nat) :
    b.takeMany (n + k) =
      ((b.takeMany n).1 ++ ((b.takeMany n).2.takeMany k).1, ((b.takeMany n).2.takeMany k).2) := by
  simp only [takeMany, List.take_add, List.drop_drop]

end Mailbox

structure Mailboxes where
  boxes : Array Mailbox := #[]

namespace Mailboxes

def get? (t : Mailboxes) (i : Nat) : Option Mailbox := t.boxes[i]?

def modify (t : Mailboxes) (i : Nat) (f : Mailbox → Mailbox) : Mailboxes :=
  ⟨t.boxes.modify i f⟩

def add (t : Mailboxes) (b : Mailbox) : Nat × Mailboxes := (t.boxes.size, ⟨t.boxes.push b⟩)

def addSender (t : Mailboxes) (i : Nat) : Mailboxes :=
  t.modify i fun b => { b with senders := b.senders + 1 }

def dropSender (t : Mailboxes) (i : Nat) : Mailboxes :=
  t.modify i fun b => { b with senders := b.senders - 1 }

def deliver (t : Mailboxes) (i : Nat) (m : Event) : Except Refusal Mailboxes :=
  match t.get? i with
  | none => .error .closed
  | some b => (b.deliver m).map fun b => t.modify i fun _ => b

def take (t : Mailboxes) (i : Nat) : Taken × Mailboxes :=
  match t.get? i with
  | none => (.disconnected, t)
  | some b => let (taken, b) := b.take; (taken, t.modify i fun _ => b)

def takeMany (t : Mailboxes) (i n : Nat) : List Event × Mailboxes :=
  match t.get? i with
  | none => ([], t)
  | some b => let (ms, b) := b.takeMany n; (ms, t.modify i fun _ => b)

end Mailboxes
end EventRelay
