import EventRelay.Text.Invisible
/-!
Quoted text as messages show it: double quotes around a text, single quotes around a character.
A backslash and the enclosing quote are escaped, NUL, tab, line feed and carriage return have
short forms, and an invisible character is written by its number in lower case hexadecimal.
-/
namespace EventRelay.Text

def hex (n : Nat) : List Char := Nat.toDigits 16 n

def quotedChar (quote c : Char) : List Char :=
  if c = '\x00' then ['\\', '0']
  else if c = '\t' then ['\\', 't']
  else if c = '\n' then ['\\', 'n']
  else if c = '\r' then ['\\', 'r']
  else if c = '\\' ∨ c = quote then ['\\', c]
  else if isInvisible c then ['\\', 'u', '\x7b'] ++ hex c.toNat ++ ['\x7d']
  else [c]

def quote (s : String) : String :=
  String.ofList ('"' :: s.toList.flatMap (quotedChar '"') ++ ['"'])

def quoteChar (c : Char) : String := String.ofList ('\x27' :: quotedChar '\x27' c ++ ['\x27'])

end EventRelay.Text
