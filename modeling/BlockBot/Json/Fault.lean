import BlockBot.Json.Value
import BlockBot.Text.Shown

/-!
# What can be wrong with a document

A `Fault` is a cause, in the words of the format; its wording is in `Fault.message`. While reading,
a cause comes with the text that was not yet read, from which the place in the whole text follows: a
line and a column, counted in bytes. A fault found by looking ahead lies one byte beyond the text
read, so the offending byte is included in the column.
-/

namespace BlockBot.Json

open BlockBot.Text

/-- The part of a document that the end of the text cuts short. -/
inductive Part where
  | value
  | list
  | object
  | text
  deriving DecidableEq, Repr

/-- A description of a value that has the wrong type. -/
inductive Found where
  | null
  | bool (b : Bool)
  | number (n : Number)
  | text (s : String)
  | list
  | object
  deriving DecidableEq, Repr

/-- The cause of a failed reading. -/
inductive Fault where
  /-- The text ends inside a part. -/
  | unfinished (part : Part)
  | expectedValue
  | expectedWord
  | expectedColon
  | expectedListComma
  | expectedObjectComma
  | expectedKey
  | trailingComma
  | trailingText
  | badNumber
  | numberTooLarge
  | badEscape
  /-- A leading surrogate without a second escape. -/
  | halfPair
  /-- A trailing surrogate without a leading one, or a second escape that is none. -/
  | loneSurrogate
  | controlCharacter
  | tooDeep
  /-- A value of another type than expected. -/
  | mismatch (found : Found) (expected : String)
  /-- A whole number outside the range of the expected type. -/
  | outOfRange (n : Int) (expected : String)
  | duplicateField (name : String)
  | missingField (name : String)
  /-- A record written as a list that ends before the field at `index`. -/
  | tooShort (index : Nat) (record : String) (size : Nat)
  /-- A value that fits none of the alternatives of a choice. -/
  | noAlternative (choice : String)
  deriving DecidableEq, Repr

/-- A text between back quotes. -/
def ticked (s : String) : String :=
  "`" ++ s ++ "`"

/-- How a message names a value. -/
def Found.message : Found → String
  | .null => "null"
  | .bool b => "boolean " ++ ticked (if b then "true" else "false")
  | .number (.whole n) => "integer " ++ ticked (Number.text (.whole n))
  | .number (.real x) => "floating point " ++ ticked (Number.text (.real x))
  | .text s => "string " ++ shown s
  | .list => "sequence"
  | .object => "map"

/-- How a message names a part. -/
def Part.message : Part → String
  | .value => "a value"
  | .list => "a list"
  | .object => "an object"
  | .text => "a string"

/-- The wording of a cause. -/
def Fault.message : Fault → String
  | .unfinished part => "EOF while parsing " ++ part.message
  | .expectedValue => "expected value"
  | .expectedWord => "expected ident"
  | .expectedColon => "expected `:`"
  | .expectedListComma => "expected `,` or `]`"
  | .expectedObjectComma => "expected `,` or `\x7d`"
  | .expectedKey => "key must be a string"
  | .trailingComma => "trailing comma"
  | .trailingText => "trailing characters"
  | .badNumber => "invalid number"
  | .numberTooLarge => "number out of range"
  | .badEscape => "invalid escape"
  | .halfPair => "unexpected end of hex escape"
  | .loneSurrogate => "lone leading surrogate in hex escape"
  | .controlCharacter => "control character (\\u0000-\\u001F) found while parsing a string"
  | .tooDeep => "recursion limit exceeded"
  | .mismatch found expected => "invalid type: " ++ found.message ++ ", expected " ++ expected
  | .outOfRange n expected =>
    "invalid value: integer " ++ ticked (String.ofList (intChars n)) ++ ", expected " ++ expected
  | .duplicateField name => "duplicate field " ++ ticked name
  | .missingField name => "missing field " ++ ticked name
  | .tooShort index record size =>
    "invalid length " ++ natText index ++ ", expected struct " ++ record ++ " with "
      ++ natText size ++ " elements"
  | .noAlternative choice => "data did not match any variant of untagged enum " ++ choice

/-- A line, counted from one, and the number of bytes of it that lie before the place. -/
structure Place where
  line : Nat
  column : Nat
  deriving DecidableEq, Repr

/-- The number of bytes of a list of characters. -/
def byteLength : List Char → Nat
  | [] => 0
  | c :: cs => c.utf8Size + byteLength cs

/-- The place `left` bytes after the start of `cs`, which itself starts at `place`. -/
def Place.advance (place : Place) (left : Nat) : List Char → Place
  | [] => place
  | c :: cs =>
    if left = 0 then place
    else if c = '\n' then Place.advance ⟨place.line + 1, 0⟩ (left - 1) cs
    else if left < c.utf8Size then ⟨place.line, place.column + left⟩
    else Place.advance ⟨place.line, place.column + c.utf8Size⟩ (left - c.utf8Size) cs

/-- The place that many bytes after the start of a text. -/
def Place.ofOffset (text : List Char) (offset : Nat) : Place :=
  Place.advance ⟨1, 0⟩ offset text

/-- A cause with the text not yet read; it lies `ahead` bytes into that text, but not beyond its
end. -/
structure Failure where
  fault : Fault
  rest : List Char
  ahead : Nat
  deriving DecidableEq, Repr

/-- The place of a failure in the whole text. -/
def Failure.place (text : List Char) (e : Failure) : Place :=
  let size := byteLength text
  Place.ofOffset text (min size (size - byteLength e.rest + e.ahead))

/-- A failed reading of a whole text. A choice that fits no alternative has no place. -/
structure ReadError where
  fault : Fault
  place : Option Place
  deriving DecidableEq, Repr

/-- The wording of a failed reading, with its place. -/
def ReadError.message (e : ReadError) : String :=
  match e.place with
  | some p =>
    e.fault.message ++ " at line " ++ natText p.line ++ " column " ++ natText p.column
  | none => e.fault.message

end BlockBot.Json
