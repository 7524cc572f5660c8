import EventRelay.Json.Shape
import EventRelay.Json.Skip
/-!
Objects with known members. They may come in any order; unknown ones are skipped, missing and
repeated ones are faults; an array of the members' values in their fixed order stands for the object.
-/
namespace EventRelay.Json

/-- The key of the next member, or `none` at the end of the object. -/
def nextKey (first : Bool) : Parse (Option String) := fun cs =>
  match skipSpace cs with
  | [] => .error .cutShort
  | c :: r =>
    if c = '\x7d' then .ok (none, r)
    else if first then
      if c = '"' then (fun (k, r) => (some k, r)) <$> quoted r else .error .malformed
    else if c = ',' then do
      let (_, r) ← mark '"' r
      let (k, r) ← quoted r
      return (some k, r)
    else .error .malformed

/- The members of an object that has the members `a` and `b`; each takes a unit of fuel. -/
def members {α β : Type} (a b : String) (ra : Parse α) (rb : Parse β) :
    Nat → Bool → Option α → Option β → Parse (α × β)
  | 0, _, _, _, _ => .error .malformed
  | fuel + 1, first, x, y, cs => do
    match ← nextKey first cs with
    | (none, r) =>
      match x, y with
      | some x, some y => return ((x, y), r)
      | _, _ => throw .mismatch
    | (some k, r) =>
      if k = a then
        if x.isSome then throw .mismatch
        let (_, r) ← mark ':' r
        let (x, r) ← ra r
        members a b ra rb fuel false (some x) y r
      else if k = b then
        if y.isSome then throw .mismatch
        let (_, r) ← mark ':' r
        let (y, r) ← rb r
        members a b ra rb fuel false x (some y) r
      else
        let (_, r) ← mark ':' r
        let (_, r) ← skip r
        members a b ra rb fuel false x y r

/-- The fault of an array that ends before its next item. -/
def item (first : Bool) : Parse Unit := fun cs =>
  match skipSpace cs with
  | [] => .error .cutShort
  | c :: r =>
    if c = ']' then .error .mismatch
    else if first then .ok ((), c :: r)
    else if c = ',' then
      match skipSpace r with
      | [] => .error .cutShort
      | d :: r => if d = ']' then .error .malformed else .ok ((), d :: r)
    else .error .malformed

/-- An object with the members `a` and `b`, or an array of their values. -/
def record {α β : Type} (a b : String) (ra : Parse α) (rb : Parse β) : Parse (α × β) := fun cs =>
  match skipSpace cs with
  | [] => .error .cutShort
  | c :: r =>
    if c = '\x7b' then members a b ra rb (r.length + 1) true none none r
    else if c = '[' then do
      let (_, r) ← item true r
      let (x, r) ← ra r
      let (_, r) ← item false r
      let (y, r) ← rb r
      let (_, r) ← mark ']' r
      return ((x, y), r)
    else .error (otherShape c r)

/- The members of an object whose values are all texts; each takes a unit of fuel. -/
def entries : Nat → Bool → Parse (List (String × String))
  | 0, _, _ => .error .malformed
  | fuel + 1, first, cs => do
    match ← nextKey first cs with
    | (none, r) => return ([], r)
    | (some k, r) =>
      let (_, r) ← mark ':' r
      let (v, r) ← text r
      let (es, r) ← entries fuel false r
      return ((k, v) :: es, r)

end EventRelay.Json
