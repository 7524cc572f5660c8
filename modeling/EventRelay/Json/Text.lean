import EventRelay.Json.Parse
import EventRelay.Text.Hex
/-!
Strings in JSON text. A character beyond the first plane may be escaped as a surrogate pair; half a
pair is a fault.
-/
namespace EventRelay.Json

def escaped? : Char → Option Char
  | '"' => some '"'
  | '\\' => some '\\'
  | '/' => some '/'
  | 'b' => some '\x08'
  | 'f' => some '\x0c'
  | 'n' => some '\n'
  | 'r' => some '\r'
  | 't' => some '\t'
  | _ => none

/- Where a string stands: between characters, behind a backslash, inside the four digits of a
   number, or between the two halves of a surrogate pair whose first half is known. -/
inductive StringMode where
  | plain
  | escape
  | digits (high : Option Nat) (left value : Nat)
  | pairBackslash (high : Nat)
  | pairU (high : Nat)

/- Digits that the text has no room for are cut short, others that are wrong are malformed. -/
def badDigit (left : Nat) (cs : List Char) : Fault :=
  if (String.ofList cs).utf8ByteSize < left then .cutShort else .malformed

def isHigh (n : Nat) : Bool := 0xD800 ≤ n && n < 0xDC00
def isLow (n : Nat) : Bool := 0xDC00 ≤ n && n < 0xE000

def pair (high low : Nat) : Char := .ofNat (0x10000 + (high - 0xD800) * 0x400 + (low - 0xDC00))

def stringBody (m : StringMode) : Parse (List Char)
  | [] => .error .cutShort
  | c :: r =>
    let push (d : Char) := (fun (ds, rest) => (d :: ds, rest)) <$> stringBody .plain r
    match m with
    | .plain =>
      if c = '"' then .ok ([], r)
      else if c = '\\' then stringBody .escape r
      else if c.toNat < 0x20 then .error .malformed
      else push c
    | .escape =>
      match escaped? c with
      | some d => push d
      | none => if c = 'u' then stringBody (.digits none 4 0) r else .error .malformed
    | .digits high left value =>
      match Hex.value? c with
      | none => .error (badDigit left (c :: r))
      | some d =>
        let n := value * 16 + d
        if 1 < left then stringBody (.digits high (left - 1) n) r
        else match high with
          | none =>
            if isLow n then .error .malformed
            else if isHigh n then stringBody (.pairBackslash n) r
            else push (.ofNat n)
          | some h => if isLow n then push (pair h n) else .error .malformed
    | .pairBackslash h => if c = '\\' then stringBody (.pairU h) r else .error .malformed
    | .pairU h => if c = 'u' then stringBody (.digits (some h) 4 0) r else .error .malformed

def quoted : Parse String := fun cs =>
  (fun (ds, rest) => (String.ofList ds, rest)) <$> stringBody .plain cs

end EventRelay.Json
