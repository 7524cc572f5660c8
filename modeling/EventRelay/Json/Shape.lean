import EventRelay.Json.Number
import EventRelay.Json.Text
/-!
Values of one piece: texts, integers and `null`, and the fault where another shape stands.
-/
namespace EventRelay.Json

/-- The fault for a value that starts with `c` where another shape is wanted: a value of one piece
is read first and its own fault counts. -/
def otherShape (c : Char) (r : List Char) : Fault :=
  let after {α : Type} : Except Fault α → Fault
    | .ok _ => .mismatch
    | .error f => f
  if c = 'n' then after (literal "ull".toList r)
  else if c = 't' then after (literal "rue".toList r)
  else if c = 'f' then after (literal "alse".toList r)
  else if c = '-' ∨ c.isDigit then after (number (c :: r))
  else if c = '"' then after (quoted r)
  else if c = '[' ∨ c = '\x7b' then .mismatch
  else .malformed

def text : Parse String := fun cs =>
  match skipSpace cs with
  | [] => .error .cutShort
  | c :: r => if c = '"' then quoted r else .error (otherShape c r)

def integerIn (lo hi : Int) : Parse Int := fun cs =>
  match skipSpace cs with
  | [] => .error .cutShort
  | c :: r =>
    if c = '-' ∨ c.isDigit then do
      match ← number (c :: r) with
      | (some n, r) => if lo ≤ n ∧ n ≤ hi then return (n, r) else throw .mismatch
      | (none, _) => throw .mismatch
    else .error (otherShape c r)

def null : Parse Unit := fun cs =>
  match skipSpace cs with
  | [] => .error .cutShort
  | c :: r => if c = 'n' then literal "ull".toList r else .error (otherShape c r)

end EventRelay.Json
