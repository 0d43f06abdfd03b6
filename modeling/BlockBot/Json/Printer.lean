import BlockBot.Json.Value
import BlockBot.Text.Quoted

/-!
# Writing documents

Two layouts of a value. The compact one has no blanks at all. The pretty one puts every item and
every member on a line of its own, two spaces deeper than its container, and keeps empty containers
closed.
-/

namespace BlockBot.Json

open BlockBot.Text

/-- The characters of a text in quotes. -/
def quoteChars (s : String) : List Char :=
  '"' :: escape s.toList ++ ['"']

/-- The characters of the two truth values. -/
def boolChars (b : Bool) : List Char :=
  if b then ['t', 'r', 'u', 'e'] else ['f', 'a', 'l', 's', 'e']

/-- The characters of `null`. -/
def nullChars : List Char := ['n', 'u', 'l', 'l']

namespace Value

/-! ## Compact layout -/

mutual

/-- The characters of a value without blanks. -/
def chars : Value → List Char
  | .null => nullChars
  | .bool b => boolChars b
  | .number n => n.chars
  | .string s => quoteChars s
  | .array items => '[' :: itemChars items ++ [']']
  | .object members => '\x7b' :: memberChars members ++ ['\x7d']

/-- The characters of items with commas between them. -/
def itemChars : List Value → List Char
  | [] => []
  | [v] => v.chars
  | v :: vs => v.chars ++ ',' :: itemChars vs

/-- The characters of members with commas between them. -/
def memberChars : List (String × Value) → List Char
  | [] => []
  | [(k, v)] => quoteChars k ++ ':' :: v.chars
  | (k, v) :: ms => quoteChars k ++ ':' :: v.chars ++ ',' :: memberChars ms

end

/-- The compact text of a value. -/
def compact (v : Value) : String :=
  String.ofList v.chars

/-! ## Pretty layout -/

/-- A new line at a level of nesting. -/
def freshLine (level : Nat) : List Char :=
  '\n' :: List.replicate (2 * level) ' '

mutual

/-- The characters of a value whose first character stands at a level of nesting. -/
def prettyChars (level : Nat) : Value → List Char
  | .null => nullChars
  | .bool b => boolChars b
  | .number n => n.chars
  | .string s => quoteChars s
  | .array [] => ['[', ']']
  | .array (v :: vs) =>
    '[' :: freshLine (level + 1) ++ prettyChars (level + 1) v ++ prettyItems (level + 1) vs
      ++ freshLine level ++ [']']
  | .object [] => ['\x7b', '\x7d']
  | .object ((k, v) :: ms) =>
    '\x7b' :: freshLine (level + 1) ++ quoteChars k ++ ':' :: ' ' :: prettyChars (level + 1) v
      ++ prettyMembers (level + 1) ms ++ freshLine level ++ ['\x7d']

/-- The items after the first one, each on a line of its own. -/
def prettyItems (level : Nat) : List Value → List Char
  | [] => []
  | v :: vs => ',' :: freshLine level ++ prettyChars level v ++ prettyItems level vs

/-- The members after the first one, each on a line of its own. -/
def prettyMembers (level : Nat) : List (String × Value) → List Char
  | [] => []
  | (k, v) :: ms =>
    ',' :: freshLine level ++ quoteChars k ++ ':' :: ' ' :: prettyChars level v ++
      prettyMembers level ms

end

/-- The pretty text of a value. -/
def pretty (v : Value) : String :=
  String.ofList (prettyChars 0 v)

end Value

end BlockBot.Json
