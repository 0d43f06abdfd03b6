import BlockBot.Decimal.Binary64

/-!
# Numerals in form fields

Editors store what a person typed into a form as text. A numeral there may carry a sign, lack the
digits on one side of the point, use an exponent, or spell infinity and not-a-number in letters of
any case. It is rounded once, to the nearest number.
-/

namespace BlockBot.Decimal

/-- What a numeral denotes. -/
inductive Numeral where
  | finite (x : Binary64)
  | infinite (negative : Bool)
  | notANumber
  deriving DecidableEq, Repr

/-- The decimal digits, in ASCII. -/
def isDigit (c : Char) : Bool :=
  '0' ≤ c && c ≤ '9'

/-- The value of a decimal digit. -/
def digitValue (c : Char) : Nat :=
  c.toNat - '0'.toNat

/-- The number that a list of decimal digits spells, after the digits of `n`. -/
def appendDigits (n : Nat) (cs : List Char) : Nat :=
  cs.foldl (fun n c => 10 * n + digitValue c) n

/-- Splits off a leading sign; `true` stands for minus. -/
def splitSign : List Char → Bool × List Char
  | '-' :: cs => (true, cs)
  | '+' :: cs => (false, cs)
  | cs => (false, cs)

/-- The exponent after the mantissa: nothing at all, or a letter, a sign and at least one digit. -/
def exponentOf? : List Char → Option Int
  | [] => some 0
  | c :: cs =>
    let (negative, ds) := splitSign cs
    if (c = 'e' || c = 'E') && !ds.isEmpty && ds.all isDigit then
      some (if negative then -(appendDigits 0 ds : Int) else appendDigits 0 ds)
    else none

/-- The mantissa digits before and after the point, and what follows them. -/
def splitMantissa (cs : List Char) : List Char × List Char × List Char :=
  let whole := cs.takeWhile isDigit
  match cs.dropWhile isDigit with
  | '.' :: r => (whole, r.takeWhile isDigit, r.dropWhile isDigit)
  | r => (whole, [], r)

/-- Reads an unsigned numeral in digits. -/
def readDigits? (negative : Bool) (cs : List Char) : Option Numeral :=
  let (whole, frac, r) := splitMantissa cs
  if whole.isEmpty && frac.isEmpty then none
  else
    (exponentOf? r).map fun e =>
      let digits := appendDigits (appendDigits 0 whole) frac
      match Binary64.ofDecimal negative digits (e - frac.length) with
      | some x => .finite x
      | none => .infinite negative

/-- Reads a whole text as a numeral. -/
def Numeral.read? (s : String) : Option Numeral :=
  let (negative, cs) := splitSign s.toList
  let word := String.ofList (cs.map Char.toLower)
  if word = "inf" || word = "infinity" then some (.infinite negative)
  else if word = "nan" then some .notANumber
  else readDigits? negative cs

/-- The largest count, `2 ^ 64 - 1`. -/
def maxCount : Nat := Nat.pow 2 64 - 1

/-- A number of things: rounded, upwards in the middle, and at most the largest count; negative
numbers count nothing. A negative zero is not negative. -/
def Numeral.count? : Numeral → Option Nat
  | .finite x => if x.negative && !x.isZero then none else some (min x.roundToNat maxCount)
  | .infinite negative => if negative then none else some maxCount
  | .notANumber => none

end BlockBot.Decimal
