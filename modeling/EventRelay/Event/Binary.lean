import EventRelay.Event
import EventRelay.Channel
import EventRelay.SubscriberId
/-!
The binary form of events: fixed width little endian integers, tags of four bytes, and lengths and
counts of eight. Bytes behind an event are not looked at.
Main statements: `length_le` and `ofLe_le`, an integer has its width and reads back.
-/
namespace EventRelay.Binary

inductive Fault where
  | numberCutShort
  | textCutShort
  | badTag (tag count : Nat)
  | badText (fault : Utf8.Fault)
  deriving DecidableEq, Repr

def Fault.message : Fault → String
  | numberCutShort => "io error: unexpected end of file"
  | textCutShort => "io error: "
  | badTag n k => s!"invalid value: integer `{n}`, expected variant index 0 <= i < {k}"
  | badText f => "string is not valid utf8: " ++ f.message

/-- The lowest `w` bytes of `n`, least significant first. -/
def le : Nat → Nat → List UInt8
  | 0, _ => []
  | w + 1, n => UInt8.ofNat (n % 256) :: le w (n / 256)

def ofLe (bs : List UInt8) : Nat := bs.foldr (fun b n => b.toNat + 256 * n) 0

def text (s : String) : List UInt8 :=
  let bs := Utf8.encode s
  le 8 bs.length ++ bs

def tag : Change → Nat
  | .create => 0
  | .update => 1
  | .delete => 2

def entry (e : String × String) : List UInt8 := text e.1 ++ text e.2

def encode : Event → List UInt8
  | .object change id => le 4 0 ++ le 4 (tag change) ++ le 8 id.toUInt64.toNat
  | .content kind attributes =>
    le 4 1 ++ le 4 kind.toUInt32.toNat ++ le 8 attributes.entries.length ++
      attributes.entries.flatMap entry

def encodeChannel (c : Channel) : List UInt8 := text c.topic ++ text c.name
def encodeId (id : SubscriberId) : List UInt8 := le 8 id.bytes.length ++ id.bytes

/- Readers take what they need off the front and return the rest. -/
def number (w : Nat) (bs : List UInt8) : Except Fault (Nat × List UInt8) :=
  if bs.length < w then .error .numberCutShort else .ok (ofLe (bs.take w), bs.drop w)

def readText (bs : List UInt8) : Except Fault (String × List UInt8) := do
  let (n, bs) ← number 8 bs
  if bs.length < n then throw .textCutShort
  let s ← (Utf8.decode (bs.take n)).mapError .badText
  return (s, bs.drop n)

def readChange (bs : List UInt8) : Except Fault (Change × List UInt8) := do
  let (tag, bs) ← number 4 bs
  match tag with
  | 0 => return (.create, bs)
  | 1 => return (.update, bs)
  | 2 => return (.delete, bs)
  | n => throw (.badTag n 3)

def readEntries : Nat → List UInt8 → Except Fault (List (String × String) × List UInt8)
  | 0, bs => return ([], bs)
  | n + 1, bs => do
    let (k, bs) ← readText bs
    let (v, bs) ← readText bs
    let (es, bs) ← readEntries n bs
    return ((k, v) :: es, bs)

def read (bs : List UInt8) : Except Fault (Event × List UInt8) := do
  let (tag, bs) ← number 4 bs
  match tag with
  | 0 =>
    let (change, bs) ← readChange bs
    let (id, bs) ← number 8 bs
    return (.object change id.toUInt64.toInt64, bs)
  | 1 =>
    let (kind, bs) ← number 4 bs
    let (count, bs) ← number 8 bs
    let (entries, bs) ← readEntries count bs
    return (.content kind.toUInt32.toInt32 (.ofList entries), bs)
  | n => throw (.badTag n 2)

def decode (bs : List UInt8) : Except Fault Event := (·.1) <$> read bs

theorem length_le (w n : Nat) : (le w n).length = w := by
  induction w generalizing n with
  | zero => rfl
  | succ w ih => simp [le, ih]

theorem ofLe_le (w n : Nat) : ofLe (le w n) = n % (1 <<< (8 * w)) := by
  induction w generalizing n with
  | zero => simp [le, ofLe, Nat.mod_one]
  | succ w ih =>
    have : ofLe (le (w + 1) n) = n % 256 + 256 * ofLe (le w (n / 256)) := by
      simp [le, ofLe]
    have hw : 1 <<< (8 * (w + 1)) = 256 * 1 <<< (8 * w) := by
      rw [Nat.one_shiftLeft, Nat.one_shiftLeft, Nat.mul_add, Nat.pow_add, Nat.mul_comm]
    rw [this, ih, hw, Nat.mod_mul]

end EventRelay.Binary

namespace EventRelay

/-- The event at the front of a payload. -/
def Event.decode (payload : List UInt8) : Except Error Event :=
  (Binary.decode payload).mapError fun f => .deserialization f.message

end EventRelay
