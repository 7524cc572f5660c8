import EventRelay.Channel
import EventRelay.Event
import EventRelay.Json.Record
/-!
Reading events and channels from JSON text.
-/
namespace EventRelay.Json

def changeOf? : String → Option Change
  | "CREATE" => some .create
  | "UPDATE" => some .update
  | "DELETE" => some .delete
  | _ => none

/-- A change is its name, or an object whose only member has that name and the value `null`. -/
def change : Parse Change := fun cs =>
  match skipSpace cs with
  | [] => .error .cutShort
  | c :: r =>
    if c = '"' then do
      let (k, r) ← quoted r
      match changeOf? k with
      | some v => return (v, r)
      | none => throw .mismatch
    else if c = '\x7b' then do
      let (k, r) ← text r
      match changeOf? k with
      | none => throw .mismatch
      | some v =>
        let (_, r) ← mark ':' r
        let (_, r) ← null r
        let (_, r) ← mark '\x7d' r
        return (v, r)
    else .error .malformed

def attributesText : Parse Attributes := fun cs =>
  match skipSpace cs with
  | [] => .error .cutShort
  | c :: r =>
    if c = '\x7b' then (fun (es, r) => (.ofList es, r)) <$> entries (r.length + 1) true r
    else .error (otherShape c r)

def objectEvent : Parse Event := fun cs => do
  let ((change, id), r) ←
    record "type" "id" change (integerIn Int64.minValue.toInt Int64.maxValue.toInt) cs
  return (.object change (.ofInt id), r)

def contentEvent : Parse Event := fun cs => do
  let kind := integerIn Int32.minValue.toInt Int32.maxValue.toInt
  let ((kind, t), r) ← record "type" "attributes" kind attributesText cs
  return (.content (.ofInt kind) t, r)

/-- An object whose only member names the kind of event. -/
def eventText : Parse Event := fun cs =>
  match skipSpace cs with
  | [] => .error .cutShort
  | c :: r =>
    if c = '\x7b' then do
      let (k, r) ← text r
      let body ← match k with
        | "Object" => pure objectEvent
        | "Content" => pure contentEvent
        | _ => throw .mismatch
      let (_, r) ← mark ':' r
      let (m, r) ← body r
      let (_, r) ← mark '\x7d' r
      return (m, r)
    else if c = '"' then do
      let _ ← quoted r
      throw .mismatch
    else .error .malformed

def channelText : Parse Channel := fun cs => do
  let ((topic, name), r) ← record "topic" "name" text text cs
  return (⟨topic, name⟩, r)

def whole {α : Type} (p : Parse α) (s : String) : Except Fault α := do
  let (v, r) ← p s.toList
  if skipSpace r = [] then return v else throw .malformed

def readEvent (s : String) : Except Fault Event := whole eventText s
def readChannel (s : String) : Except Fault Channel := whole channelText s

end EventRelay.Json
