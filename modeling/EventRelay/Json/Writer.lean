import EventRelay.Channel
import EventRelay.Event
import EventRelay.Text.Hex
/-!
Compact JSON text of events and channels: members in a fixed order, no white space, and only the
escapes that JSON requires.
-/
namespace EventRelay.Json

def escape (c : Char) : List Char :=
  if c = '"' ∨ c = '\\' then ['\\', c]
  else if c = '\x08' then ['\\', 'b']
  else if c = '\x0c' then ['\\', 'f']
  else if c = '\n' then ['\\', 'n']
  else if c = '\r' then ['\\', 'r']
  else if c = '\t' then ['\\', 't']
  else if c.toNat < 0x20 then ['\\', 'u'] ++ Hex.fixed 4 c.toNat
  else [c]

def string (s : String) : List Char := '"' :: s.toList.flatMap escape ++ ['"']

def integer : Int → List Char
  | .ofNat n => Nat.toDigits 10 n
  | .negSucc n => '-' :: Nat.toDigits 10 (n + 1)

def object (members : List (String × List Char)) : List Char :=
  '\x7b' :: List.intercalate [','] (members.map fun (k, v) => string k ++ ':' :: v) ++ ['\x7d']

def changeName : Change → String
  | .create => "CREATE"
  | .update => "UPDATE"
  | .delete => "DELETE"

def attributes (t : Attributes) : List Char := object (t.entries.map fun (k, v) => (k, string v))

def event : Event → List Char
  | .object change id =>
    object [("Object", object [("type", string (changeName change)), ("id", integer id.toInt)])]
  | .content kind t =>
    object [("Content", object [("type", integer kind.toInt), ("attributes", attributes t)])]

def channel (c : Channel) : List Char :=
  object [("topic", string c.topic), ("name", string c.name)]

def writeEvent (m : Event) : String := .ofList (event m)
def writeChannel (c : Channel) : String := .ofList (channel c)

end EventRelay.Json
