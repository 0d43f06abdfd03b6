/-!
# Quoted texts

A text between double quotes, written so that it stays on one line. The quote and the backslash are
escaped by a backslash, five control characters have a letter of their own, and the others below the
space are written with four hexadecimal digits. Every other character stands for itself. The same
form is a string of the document format and a string literal of the programs that are written.
-/

namespace BlockBot.Text

/-- The hexadecimal digit of a number below sixteen, in lower case. -/
def hexDigit (n : Nat) : Char :=
  if n < 10 then Char.ofNat (48 + n) else Char.ofNat (87 + n)

/-- One character inside the quotes. -/
def escapeChar (c : Char) : List Char :=
  if c = '"' then ['\\', '"']
  else if c = '\\' then ['\\', '\\']
  else if c = '\x08' then ['\\', 'b']
  else if c = '\x0c' then ['\\', 'f']
  else if c = '\n' then ['\\', 'n']
  else if c = '\r' then ['\\', 'r']
  else if c = '\t' then ['\\', 't']
  else if c.toNat < 32 then ['\\', 'u', '0', '0', hexDigit (c.toNat / 16), hexDigit (c.toNat % 16)]
  else [c]

/-- The characters of a text as they stand between the quotes. -/
def escape (cs : List Char) : List Char :=
  cs.flatMap escapeChar

/-- A text in double quotes. -/
def quote (s : String) : String :=
  String.ofList ('"' :: escape s.toList ++ ['"'])

end BlockBot.Text
