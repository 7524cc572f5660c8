/-!
One append-only partition. Offsets count up from zero; a ring of slots keeps the latest records.
-/
namespace EventRelay

structure Record where
  topic : String
  partition : Nat
  offset : Nat
  /-- The channel name it was produced under. -/
  key : String
  value : List UInt8
  deriving DecidableEq, Repr

/-- The least power of two that is not below `n`. -/
def windowSize (n : Nat) : Nat := if n ≤ 1 then 1 else 1 <<< ((n - 1).log2 + 1)

theorem windowSize_pos (n : Nat) : 0 < windowSize n := by
  unfold windowSize
  split
  · exact Nat.one_pos
  · rw [Nat.one_shiftLeft]; exact Nat.two_pow_pos _

theorem le_windowSize (n : Nat) : n ≤ windowSize n := by
  unfold windowSize
  split
  · assumption
  · rw [Nat.one_shiftLeft]
    have := Nat.lt_log2_self (n := n - 1)
    omega

structure Partition where
  window : Nat
  /-- The high watermark: the offset that the next record gets. -/
  next : Nat
  /-- The record at offset `o` stands in slot `o % window`. -/
  slots : Array Record
  window_pos : 0 < window
  size_slots : slots.size = min next window

namespace Partition

def empty (retention : Nat) : Partition where
  window := windowSize retention
  next := 0
  slots := #[]
  window_pos := windowSize_pos retention
  size_slots := by simp

def oldest (p : Partition) : Nat := p.next - p.window

theorem slot_lt (p : Partition) {o : Nat} (h : o < p.next) : o % p.window < p.slots.size := by
  have hw := Nat.mod_lt o p.window_pos
  have hm := Nat.mod_le o p.window
  rw [p.size_slots]
  omega

/-- The record a reader at offset `e` gets: its own, or the oldest one if that is gone. -/
def record (p : Partition) (e : Nat) (h : e < p.next) : Record :=
  have hs : max e p.oldest % p.window < p.slots.size :=
    p.slot_lt (by have := p.window_pos; unfold oldest; omega)
  p.slots[max e p.oldest % p.window]

/-- The record for offset `next` overwrites the one a whole window before it.

It is stored whether a reader is open or not, and its slot goes by its offset. A ring that stores
only what some reader is there for would count its slots apart from the offsets, yet no reader could
tell: it starts at `next`, so all that it may ask for came while it was open itself and was stored,
and from its start on both counts go up together. -/
def append (p : Partition) (r : Nat → Record) : Partition where
  window := p.window
  next := p.next + 1
  slots :=
    if h : p.next % p.window < p.slots.size then p.slots.set (p.next % p.window) (r p.next) h
    else p.slots.push (r p.next)
  window_pos := p.window_pos
  size_slots := by
    have hs := p.size_slots
    have hw := Nat.mod_lt p.next p.window_pos
    by_cases hlt : p.next < p.window
    · have hm := Nat.mod_eq_of_lt hlt
      split
      · omega
      · simp; omega
    · split
      · simp; omega
      · omega

end Partition
end EventRelay
