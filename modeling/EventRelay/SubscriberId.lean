import EventRelay.Text.Hex
/-!
Subscriber identifiers: 128 bits, shown as a UUID.
-/
namespace EventRelay

structure SubscriberId where
  bits : BitVec 128
  deriving DecidableEq

namespace SubscriberId

/-- The `n`-th identifier of a supply: a version 4 identifier with the count in its lowest bits. -/
def fresh (n : Nat) : SubscriberId :=
  ⟨0x9F3C6B1A57E24D08B000000000000000#128 + BitVec.ofNat 128 n⟩

/- Cuts a list into runs of the given lengths. -/
def groups : List Nat → List Char → List (List Char)
  | [], _ => []
  | n :: ns, cs => cs.take n :: groups ns (cs.drop n)

def text (id : SubscriberId) : String :=
  String.ofList (List.intercalate ['-'] (groups [8, 4, 4, 4, 12] (Hex.fixed 32 id.bits.toNat)))

def bytes (id : SubscriberId) : List UInt8 :=
  (List.range 16).map fun i => UInt8.ofNat (id.bits.toNat >>> (8 * (15 - i)))

def ofDigits? (cs : List Char) : Option SubscriberId :=
  if cs.length = 32 then (Hex.number? cs).map fun n => ⟨BitVec.ofNat 128 n⟩ else none

/-- Hyphens stand after 8, 12, 16 and 20 digits. -/
def ofHyphenated? (cs : List Char) : Option SubscriberId :=
  if cs.length = 36 ∧ [8, 13, 18, 23].all (cs[·]? = some '-') then
    ofDigits? (cs.take 8 ++ (cs.drop 9).take 4 ++ (cs.drop 14).take 4 ++ (cs.drop 19).take 4 ++
      cs.drop 24)
  else none

def urnPrefix : List Char := "urn:uuid:".toList

/-- Reads bare digits, the hyphenated form, and that form in braces or behind `urn:uuid:`. -/
def ofText? (s : String) : Option SubscriberId :=
  let cs := s.toList
  match cs.length with
  | 32 => ofDigits? cs
  | 36 => ofHyphenated? cs
  | 38 =>
    if cs.head? = some '\x7b' ∧ cs.getLast? = some '\x7d' then ofHyphenated? (cs.drop 1).dropLast
    else none
  | 45 => if (cs.take 9).map Char.toLower = urnPrefix then ofHyphenated? (cs.drop 9) else none
  | _ => none

end SubscriberId
end EventRelay
