import BlockBot.Text.Unseen

/-!
# Texts shown in messages

A message that has to show a piece of the input puts it in double quotes and replaces what a reader
could not see: the usual control characters by their letters, and every other unseen character by
its code point in braces. Unlike the quoted form of a document, this form keeps no lengths and is
not meant to be read back.
-/

namespace BlockBot.Text

/-- A number in hexadecimal, without leading zeros and in lower case. -/
def hexText (n : Nat) : List Char :=
  Nat.toDigits 16 n

/-- One character of a shown text. -/
def showChar (c : Char) : List Char :=
  if c = '\x00' then ['\\', '0']
  else if c = '\t' then ['\\', 't']
  else if c = '\r' then ['\\', 'r']
  else if c = '\n' then ['\\', 'n']
  else if c = '\\' then ['\\', '\\']
  else if c = '"' then ['\\', '"']
  else if isUnseen c then ['\\', 'u', '\x7b'] ++ hexText c.toNat ++ ['\x7d']
  else [c]

/-- The form of a text inside a message. -/
def shown (s : String) : String :=
  String.ofList ('"' :: s.toList.flatMap showChar ++ ['"'])

end BlockBot.Text
