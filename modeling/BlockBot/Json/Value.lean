import BlockBot.Decimal.Format
import BlockBot.Json.Entries

/-!
# Values of documents

The dynamic values of the document format. A number is a whole number between `-2 ^ 63` and
`2 ^ 64 - 1`, or a finite binary number; how it was written decides which, so `1` and `1.0` differ.
An object is a list of members. As read, it keeps the order and the repetitions of the text; in
canonical form its keys ascend and the last of several members with one key is left.
-/

namespace BlockBot.Json

open BlockBot.Decimal

/-- A whole number that fits into 64 bits, with or without a sign. -/
structure Whole where
  val : Int
  ge : -9223372036854775808 ≤ val
  lt : val < 18446744073709551616
  deriving DecidableEq, Repr

/-- A natural number as a whole number, if it fits. -/
def Whole.ofNat? (n : Nat) : Option Whole :=
  if h : (n : Int) < 18446744073709551616 then some ⟨n, by omega, h⟩ else none

/-- The negative of a natural number as a whole number, if it fits. -/
def Whole.ofNegNat? (n : Nat) : Option Whole :=
  if h : (n : Int) ≤ 9223372036854775808 then some ⟨-n, by omega, by omega⟩ else none

/-- The characters of a natural number in decimal. -/
def natChars (n : Nat) : List Char :=
  Nat.toDigits 10 n

/-- A natural number in decimal. -/
def natText (n : Nat) : String :=
  String.ofList (natChars n)

/-- The characters of an integer in decimal. -/
def intChars (n : Int) : List Char :=
  if n < 0 then '-' :: natChars n.natAbs else natChars n.natAbs

/-- A number of a document. -/
inductive Number where
  | whole (n : Whole)
  | real (x : Binary64)
  deriving DecidableEq, Repr

/-- The characters of a number. -/
def Number.chars : Number → List Char
  | .whole n => intChars n.val
  | .real x => Format.document.chars x

/-- The text of a number. -/
def Number.text (n : Number) : String :=
  String.ofList n.chars

/-- A value of a document. -/
inductive Value where
  | null
  | bool (b : Bool)
  | number (n : Number)
  | string (s : String)
  | array (items : List Value)
  | object (members : List (String × Value))
  deriving Repr, Inhabited

/-- The members of an object in canonical form. -/
abbrev Fields := Entries Value

namespace Value

/-- A natural number below `2 ^ 64` as a value. -/
def nat (n : Nat) : Value :=
  match Whole.ofNat? n with
  | some w => .number (.whole w)
  | none => .null

/-- Whether a value is `null`. -/
def isNull : Value → Bool
  | .null => true
  | _ => false

mutual

/-- The canonical form: members in key order, the last of several with one key. -/
def canonical : Value → Value
  | .array items => .array (canonicalItems items)
  | .object members => .object (canonicalMembers members)
  | .null => .null
  | .bool b => .bool b
  | .number n => .number n
  | .string s => .string s

/-- The canonical forms of a list of values. -/
def canonicalItems : List Value → List Value
  | [] => []
  | v :: vs => v.canonical :: canonicalItems vs

/-- The canonical forms of the members of an object. -/
def canonicalMembers : List (String × Value) → Fields
  | [] => []
  | (k, v) :: ms => Entries.insertNew k v.canonical (canonicalMembers ms)

end

end Value

end BlockBot.Json
