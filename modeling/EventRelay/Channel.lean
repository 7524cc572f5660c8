import EventRelay.Error
import EventRelay.Text.Quoted
/-!
Topics, channel names, and the channel a topic and a name select together.
-/
namespace EventRelay

namespace Topic

/-- The longest topic name, in bytes. -/
def maxLength : Nat := 249

inductive Fault where
  | empty
  | tooLong
  | reserved (name : String)
  | illegal (name : String) (c : Char)
  deriving DecidableEq, Repr

def Fault.message : Fault → String
  | empty => "Topic name cannot be empty"
  | tooLong => s!"Topic name longer than {maxLength} characters"
  | reserved name => "Topic name cannot be " ++ Text.quote name
  | illegal name c =>
    "Topic name " ++ Text.quote name ++ " contains illegal character " ++ Text.quoteChar c

def isLegal (c : Char) : Bool := c.isAlphanum || c == '.' || c == '_' || c == '-'

def check (name : String) : Except Fault Unit :=
  if name.isEmpty then .error .empty
  else if maxLength < name.utf8ByteSize then .error .tooLong
  else if name = "." ∨ name = ".." then .error (.reserved name)
  else match name.toList.find? (!isLegal ·) with
    | some c => .error (.illegal name c)
    | none => .ok ()

def validate (name : String) : Except Error Unit :=
  (check name).mapError fun f => .invalidTopic f.message

end Topic

structure Channel where
  topic : String
  name : String
  deriving DecidableEq, Repr

namespace Channel

/-- The longest channel name, in bytes. -/
def maxNameLength : Nat := 256

inductive NameFault where
  | empty
  | tooLong
  deriving DecidableEq, Repr

def NameFault.message : NameFault → String
  | empty => "Channel name cannot be empty"
  | tooLong => s!"Channel name longer than {maxNameLength} bytes"

def checkName (name : String) : Except NameFault Unit :=
  if name.isEmpty then .error .empty
  else if maxNameLength < name.utf8ByteSize then .error .tooLong
  else .ok ()

def validateName (name : String) : Except Error Unit :=
  (checkName name).mapError fun f => .invalidChannel f.message

/-- A channel whose names the log can carry; a bad topic is reported before a bad name. -/
def parse (topic name : String) : Except Error Channel := do
  Topic.validate topic
  validateName name
  return ⟨topic, name⟩

def display (c : Channel) : String := c.topic ++ "/" ++ c.name

end Channel
end EventRelay
