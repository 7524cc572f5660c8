/-!
Reading JSON text once from left to right. The first fault met decides: text that is no JSON, text
that ends too early, or JSON of another shape than the one wanted.
-/
namespace EventRelay.Json

inductive Fault where
  | malformed
  | mismatch
  | cutShort
  deriving DecidableEq, Repr

def Fault.category : Fault → String
  | malformed => "syntax"
  | mismatch => "data"
  | cutShort => "eof"

/-- Takes a value off the front of a text and returns the rest. -/
abbrev Parse (α : Type) := List Char → Except Fault (α × List Char)

def isSpace (c : Char) : Bool := c == ' ' || c == '\n' || c == '\t' || c == '\r'
def skipSpace (cs : List Char) : List Char := cs.dropWhile isSpace

/-- The mark `c` with white space before it. -/
def mark (c : Char) : Parse Unit := fun cs =>
  match skipSpace cs with
  | [] => .error .cutShort
  | d :: r => if d = c then .ok ((), r) else .error .malformed

/-- The letters that complete `null`, `true` or `false`. -/
def literal : List Char → Parse Unit
  | [], cs => .ok ((), cs)
  | _ :: _, [] => .error .cutShort
  | e :: es, c :: cs => if c = e then literal es cs else .error .malformed

end EventRelay.Json
