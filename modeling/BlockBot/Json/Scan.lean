import BlockBot.Json.Fault
import BlockBot.Decimal.Numeral

/-!
# Reading blanks, words, texts and numbers

The leaves of the format. Each reader takes the characters that are left and returns what it read
with the characters after it, or a failure. Texts and numbers can be read in two ways: to their
values, and only to their ends. The second way accepts more, since it checks neither the pairing of
surrogates nor the size of numbers.
-/

namespace BlockBot.Json

open BlockBot.Decimal

/-- A way to read a value from the characters that are left: the value and the characters after
it. -/
abbrev Reader (α : Type) := List Char → Except Failure (α × List Char)

variable {α : Type}

/-- Fails at the first character that is left. -/
def failHere (fault : Fault) (rest : List Char) : Except Failure α :=
  .error ⟨fault, rest, 0⟩

/-- Fails just after the first byte that is left. -/
def failNext (fault : Fault) (rest : List Char) : Except Failure α :=
  .error ⟨fault, rest, 1⟩

/-! ## Blanks and words -/

/-- The four blanks of the format. -/
def isSpace (c : Char) : Bool :=
  c == ' ' || c == '\n' || c == '\t' || c == '\r'

/-- The characters after leading blanks. -/
def skipSpace (s : List Char) : List Char :=
  s.dropWhile isSpace

/-- Reads the remaining letters of a word whose first letter decided what it must be. -/
def readWord : List Char → List Char → Except Failure (List Char)
  | [], s => .ok s
  | _ :: _, [] => failHere (.unfinished .value) []
  | w :: ws, c :: s => if c = w then readWord ws s else failNext .expectedWord (c :: s)

/-! ## Texts -/

/-- The value of a hexadecimal digit. -/
def hexValue? (c : Char) : Option Nat :=
  if '0' ≤ c ∧ c ≤ '9' then some (c.toNat - 48)
  else if 'a' ≤ c ∧ c ≤ 'f' then some (c.toNat - 87)
  else if 'A' ≤ c ∧ c ≤ 'F' then some (c.toNat - 55)
  else none

/-- The number that four hexadecimal digits spell. -/
def quadValue? (a b c d : Char) : Option Nat := do
  let a ← hexValue? a
  let b ← hexValue? b
  let c ← hexValue? c
  let d ← hexValue? d
  return ((a * 16 + b) * 16 + c) * 16 + d

/-- Fails on what should have been four hexadecimal digits. They are looked at together, as four
bytes. -/
def failQuad (s : List Char) : Except Failure α :=
  if byteLength s < 4 then failHere (.unfinished .text) [] else .error ⟨.badEscape, s, 4⟩

/-- Reads four hexadecimal digits. -/
def readQuad : Reader Nat
  | a :: b :: c :: d :: s =>
    match quadValue? a b c d with
    | some n => .ok (n, s)
    | none => failQuad (a :: b :: c :: d :: s)
  | s => failQuad s

/-- The first half of the code of a character beyond the sixteen-bit range. -/
def isLeading (n : Nat) : Bool :=
  0xD800 ≤ n && n ≤ 0xDBFF

/-- The second half of the code of a character beyond the sixteen-bit range. -/
def isTrailing (n : Nat) : Bool :=
  0xDC00 ≤ n && n ≤ 0xDFFF

/-- Reads the second escape of a pair, after the first half `lead`. -/
def readSecondHalf (lead : Nat) : Reader Char
  | [] => failHere (.unfinished .text) []
  | '\\' :: 'u' :: s => do
    let (trail, s) ← readQuad s
    if isTrailing trail then
      return (Char.ofNat ((lead - 0xD800) * 0x400 + (trail - 0xDC00) + 0x10000), s)
    else failHere .loneSurrogate s
  | '\\' :: [] => failHere (.unfinished .text) []
  | '\\' :: s => failNext .halfPair s
  | s => failNext .halfPair s

/-- Reads an escape by number, after `\u`. -/
def readCode (s : List Char) : Except Failure (Char × List Char) := do
  let (n, s) ← readQuad s
  if isTrailing n then failHere .loneSurrogate s
  else if isLeading n then readSecondHalf n s
  else return (Char.ofNat n, s)

/-- The characters that one letter after a backslash stands for. -/
def letterEscape? (c : Char) : Option Char :=
  if c = '"' then some '"'
  else if c = '\\' then some '\\'
  else if c = '/' then some '/'
  else if c = 'b' then some '\x08'
  else if c = 'f' then some '\x0c'
  else if c = 'n' then some '\n'
  else if c = 'r' then some '\r'
  else if c = 't' then some '\t'
  else none

/-- Reads an escape, after its backslash. -/
def readEscape : Reader Char
  | [] => failHere (.unfinished .text) []
  | 'u' :: s => readCode s
  | c :: s =>
    match letterEscape? c with
    | some x => .ok (x, s)
    | none => failNext .badEscape (c :: s)

/-- Reads the characters of a text up to its closing quote. Each round reads at least one character,
so a number above that of the characters left is never used up. -/
def readTextLoop : Nat → Reader (List Char)
  | 0, _ => failHere (.unfinished .text) []
  | _ + 1, [] => failHere (.unfinished .text) []
  | _ + 1, '"' :: s => .ok ([], s)
  | fuel + 1, '\\' :: s => do
    let (c, s) ← readEscape s
    let (cs, s) ← readTextLoop fuel s
    return (c :: cs, s)
  | fuel + 1, c :: s =>
    if c.toNat < 32 then failNext .controlCharacter (c :: s)
    else do
      let (cs, s) ← readTextLoop fuel s
      return (c :: cs, s)

/-- Reads a text, after its opening quote; `size` is above the number of characters left. -/
def readText (size : Nat) : Reader String := fun s => do
  let (cs, s) ← readTextLoop size s
  return (String.ofList cs, s)

/-- Skips an escape, after its backslash. -/
def skipEscape : List Char → Except Failure (List Char)
  | [] => failHere (.unfinished .text) []
  | 'u' :: s => do
    let (_, s) ← readQuad s
    return s
  | c :: s => if (letterEscape? c).isSome then .ok s else failNext .badEscape (c :: s)

/-- Skips a text up to its closing quote. -/
def skipTextLoop : Nat → List Char → Except Failure (List Char)
  | 0, _ => failHere (.unfinished .text) []
  | _ + 1, [] => failHere (.unfinished .text) []
  | _ + 1, '"' :: s => .ok s
  | fuel + 1, '\\' :: s => do
    let s ← skipEscape s
    skipTextLoop fuel s
  | fuel + 1, c :: s =>
    if c.toNat < 32 then failHere .controlCharacter (c :: s) else skipTextLoop fuel s

/-- Skips a text, after its opening quote; `size` is above the number of characters left. -/
def skipText (size : Nat) (s : List Char) : Except Failure (List Char) :=
  skipTextLoop size s

/-! ## Numbers -/

/-- The parts of a written number. -/
structure Spelling where
  negative : Bool
  whole : List Char
  /-- The digits after the point, none if there is no point. -/
  fraction : List Char
  /-- The sign and the digits after the letter of an exponent. -/
  exponent : Option (Bool × List Char)
  deriving Repr

/-- The digits at the front. -/
def digitsOf (s : List Char) : List Char :=
  s.takeWhile isDigit

/-- What follows the digits at the front. -/
def afterDigits (s : List Char) : List Char :=
  s.dropWhile isDigit

/-- Reads the digits before the point; `atEnd` is the fault of a text that ends too early. -/
def readWhole (atEnd : Fault) : Reader (List Char)
  | [] => failHere atEnd []
  | c :: s =>
    if c = '0' then
      if (digitsOf s).isEmpty then .ok ([c], s) else failNext .badNumber s
    else if isDigit c then .ok (digitsOf (c :: s), afterDigits (c :: s))
    else failNext .badNumber (c :: s)

/-- Reads a point and the digits after it, if there is a point. -/
def readFraction (atEnd : Fault) : Reader (List Char)
  | '.' :: s =>
    if (digitsOf s).isEmpty then
      if s.isEmpty then failHere atEnd [] else failNext .badNumber s
    else .ok (digitsOf s, afterDigits s)
  | s => .ok ([], s)

/-- Reads the digits of an exponent. -/
def readExponentDigits (atEnd : Fault) (negative : Bool) :
    Reader (Option (Bool × List Char)) := fun s =>
  if (digitsOf s).isEmpty then
    if s.isEmpty then failHere atEnd [] else failNext .badNumber s
  else .ok (some (negative, digitsOf s), afterDigits s)

/-- Reads an exponent, if there is one. -/
def readExponent (atEnd : Fault) : Reader (Option (Bool × List Char))
  | c :: s =>
    if c = 'e' || c = 'E' then
      match s with
      | '-' :: s => readExponentDigits atEnd true s
      | '+' :: s => readExponentDigits atEnd false s
      | s => readExponentDigits atEnd false s
    else .ok (none, c :: s)
  | [] => .ok (none, [])

/-- Reads a number without its value, after a minus sign if `negative`. -/
def readSpelling (atEnd : Fault) (negative : Bool) (s : List Char) :
    Except Failure (Spelling × List Char) := do
  let (whole, s) ← readWhole atEnd s
  let (fraction, s) ← readFraction atEnd s
  let (exponent, s) ← readExponent atEnd s
  return (⟨negative, whole, fraction, exponent⟩, s)

/-- Appends digits to a number as long as it stays below `2 ^ 64`; also the digits that no longer
fit. -/
def gather (n : Nat) : List Char → Nat × List Char
  | [] => (n, [])
  | c :: cs =>
    let next := 10 * n + digitValue c
    if next < Nat.pow 2 64 then gather next cs else (n, c :: cs)

/-- A power of ten as the nearest binary number. -/
def tenPower (e : Nat) : Binary64 :=
  (Binary64.ofNat (Nat.pow 10 e)).getD (.zero false)

/-- The number `x / 10 ^ e`, divided in steps of `10 ^ 308`. -/
def divideByTens (x : Binary64) (e : Nat) : Binary64 :=
  if e ≤ Binary64.maxTen then (x.div (tenPower e)).getD x
  else if x.isZero then x
  else divideByTens ((x.div (tenPower Binary64.maxTen)).getD x) (e - Binary64.maxTen)
termination_by e
decreasing_by simp [Binary64.maxTen] at *; omega

/-- The binary number for a significand and a decimal exponent, rounded after each operation; `none`
if too large. -/
def scaleByTens (significand : Nat) (e : Int) : Option Binary64 := do
  let x ← Binary64.ofNat significand
  if e < 0 then some (divideByTens x e.natAbs)
  else if e.toNat ≤ Binary64.maxTen then x.mul (tenPower e.toNat)
  else if x.isZero then some x
  else none

/-- The largest written exponent. -/
def maxExponent : Nat := Nat.pow 2 31 - 1

/-- The value of the digits of an exponent, or the digits after the one that makes it too large. -/
def exponentValue (n : Nat) : List Char → Except (List Char) Nat
  | [] => .ok n
  | c :: cs =>
    let next := 10 * n + digitValue c
    if next ≤ maxExponent then exponentValue next cs else .error cs

/-- A binary number with the sign of a spelling. -/
def Spelling.signed (p : Spelling) (x : Binary64) : Number :=
  .real { x with negative := p.negative }

/-- A number without point and exponent whose digits all fit: whole if its range allows, and `-0` is
not. -/
def Spelling.plain (p : Spelling) (n : Nat) : Number :=
  let whole := if p.negative then (if n = 0 then none else Whole.ofNegNat? n) else Whole.ofNat? n
  match whole with
  | some w => .whole w
  | none => p.signed ((Binary64.ofNat n).getD (.zero false))

/-- The number with a given decimal exponent. -/
def Spelling.scaled (p : Spelling) (significand : Nat) (e : Int) : Except (List Char) Number :=
  match scaleByTens significand e with
  | some x => .ok (p.signed x)
  | none => .error []

/-- The value of a spelling. The digits are gathered into one significand below `2 ^ 64`. A digit of
the whole part that no longer fits counts into the exponent, one of the fraction is dropped. A
number that is too large fails with the digits of the exponent that were not looked at. -/
def Spelling.value (p : Spelling) : Except (List Char) Number :=
  let (n, excess) := gather 0 p.whole
  let (m, dropped) := gather n p.fraction
  let shift : Int := excess.length - (p.fraction.length - dropped.length : Nat)
  match p.exponent with
  | none => if p.fraction.isEmpty && excess.isEmpty then .ok (p.plain n) else p.scaled m shift
  | some (negative, digits) =>
    match exponentValue 0 digits with
    | .ok e => p.scaled m (if negative then shift - e else shift + e)
    | .error unread => if m ≠ 0 && !negative then .error unread else .ok (p.signed (.zero false))

/-- Reads a number, after a minus sign if `negative`. -/
def readNumber (negative : Bool) (s : List Char) : Except Failure (Number × List Char) := do
  let (p, s) ← readSpelling (.unfinished .value) negative s
  match p.value with
  | .ok n => return (n, s)
  | .error unread => failHere .numberTooLarge (unread ++ s)

/-- Skips a number, after its sign. -/
def skipNumber (s : List Char) : Except Failure (List Char) := do
  let (_, s) ← readSpelling .badNumber false s
  return s

end BlockBot.Json
