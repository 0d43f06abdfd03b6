import BlockBot.Json.Printer

/-!
# Literals and names of a program

Programs are written in Python. A value of a document becomes the literal with the same value: the
constants are capitalised, and numbers and texts are written as in the document. A variable's name,
which may be any text, becomes an identifier.
-/

namespace BlockBot.Code

open BlockBot.Json BlockBot.Text

mutual

/-- The characters of the literal for a value. -/
def literalChars : Value → List Char
  | .null => "None".toList
  | .bool b => (if b then "True" else "False").toList
  | .number n => n.chars
  | .string s => quoteChars s
  | .array items => '[' :: itemLiterals items ++ [']']
  | .object members => '\x7b' :: memberLiterals members ++ ['\x7d']

/-- The characters of literals with commas between them. -/
def itemLiterals : List Value → List Char
  | [] => []
  | [v] => literalChars v
  | v :: vs => literalChars v ++ ',' :: ' ' :: itemLiterals vs

/-- The characters of keys and literals with commas between them. -/
def memberLiterals : List (String × Value) → List Char
  | [] => []
  | [(k, v)] => quoteChars k ++ ':' :: ' ' :: literalChars v
  | (k, v) :: ms => quoteChars k ++ ':' :: ' ' :: literalChars v ++ ',' :: ' ' :: memberLiterals ms

end

/-- The literal for a value. -/
def literal (v : Value) : String :=
  String.ofList (literalChars v)

/-- A number in hexadecimal with at least four digits. -/
def fourHexDigits (n : Nat) : List Char :=
  let digits := Nat.toDigits 16 n
  List.replicate (4 - digits.length) '0' ++ digits

/-- The letters and digits of ASCII. -/
def isPlain (c : Char) : Bool :=
  ('0' ≤ c && c ≤ '9') || ('a' ≤ c && c ≤ 'z') || ('A' ≤ c && c ≤ 'Z')

/-- A character of a variable's name inside an identifier. -/
def identChars (c : Char) : List Char :=
  if isPlain c then [c]
  else if c.toNat < 128 then ['_']
  else '_' :: 'u' :: fourHexDigits c.toNat

/-- The identifier for a variable's name. -/
def ident (name : String) : String :=
  String.ofList ("var_".toList ++ name.toList.flatMap identChars)

end BlockBot.Code
