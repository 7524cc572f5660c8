import EventRelay.Json.Number
import EventRelay.Json.Text
/-!
Values that are skipped: members that nobody asks for, of any shape and depth.
-/
namespace EventRelay.Json

def skipString (escape : Bool) (left : Nat) : Parse Unit
  | [] => .error .cutShort
  | c :: r =>
    if 0 < left then
      if (Hex.value? c).isSome then skipString false (left - 1) r
      else .error (badDigit left (c :: r))
    else if escape then
      if (escaped? c).isSome then skipString false 0 r
      else if c = 'u' then skipString false 4 r
      else .error .malformed
    else if c = '"' then .ok ((), r)
    else if c = '\\' then skipString true 0 r
    else if c.toNat < 0x20 then .error .malformed
    else skipString false 0 r

/- A value takes one unit of fuel and one character at least; a list of items or members takes one unit
   before each of its values. -/
mutual

def skipValue : Nat → Parse Unit
  | 0, _ => .error .malformed
  | fuel + 1, cs =>
    match skipSpace cs with
    | [] => .error .cutShort
    | c :: r =>
      if c = 'n' then literal "ull".toList r
      else if c = 't' then literal "rue".toList r
      else if c = 'f' then literal "alse".toList r
      else if c = '-' ∨ c.isDigit then (fun r => ((), r)) <$> skipNumber (c :: r)
      else if c = '"' then skipString false 0 r
      else if c = '[' then
        match skipSpace r with
        | ']' :: r => .ok ((), r)
        | [] => .error .cutShort
        | _ => skipItems fuel r
      else if c = '\x7b' then
        match skipSpace r with
        | '\x7d' :: r => .ok ((), r)
        | _ => skipMembers fuel r
      else .error .malformed

def skipItems : Nat → Parse Unit
  | 0, _ => .error .malformed
  | fuel + 1, cs => do
    let (_, r) ← skipValue fuel cs
    match skipSpace r with
    | ',' :: r => skipItems fuel r
    | ']' :: r => return ((), r)
    | [] => throw .cutShort
    | _ => throw .malformed

def skipMembers : Nat → Parse Unit
  | 0, _ => .error .malformed
  | fuel + 1, cs => do
    let (_, r) ← mark '"' cs
    let (_, r) ← skipString false 0 r
    let (_, r) ← mark ':' r
    let (_, r) ← skipValue fuel r
    match skipSpace r with
    | ',' :: r => skipMembers fuel r
    | '\x7d' :: r => return ((), r)
    | [] => throw .cutShort
    | _ => throw .malformed

end

def skip : Parse Unit := fun cs => skipValue (2 * cs.length + 2) cs

end EventRelay.Json
