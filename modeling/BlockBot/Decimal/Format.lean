import BlockBot.Decimal.Shortest

/-!
# Layout of decimals

How a finite number becomes text once its digits are known: positional between `1e-5` and `1e16`,
always with a digit after the point, and otherwise with one digit before the point and an exponent.
The two formats in use differ in the sign of a positive exponent and in the choice between two
equally near decimals.
-/

namespace BlockBot.Decimal

/-- The decisions of one format. -/
structure Format where
  /-- Whether a positive exponent carries a plus sign. -/
  plusSign : Bool
  /-- Which of two equally near decimals is taken. -/
  tie : Tie
  deriving DecidableEq, Repr

/-- Numbers of a document: `1e+16`, and the even one of two equally near decimals. -/
def Format.document : Format := ⟨true, .toEven⟩

/-- Durations in a program: `1e16`, and the larger one of two equally near decimals. -/
def Format.duration : Format := ⟨false, .upwards⟩

/-- Positional notation reaches from this exponent of the leading digit … -/
def leastPositional : Int := -5

/-- … up to, but not including, this one. -/
def firstScientific : Int := 16

/-- The digits with a point: `point` of them stand before it. -/
def positional (digits : List Char) (point : Int) : List Char :=
  if point ≤ 0 then
    '0' :: '.' :: (List.replicate (-point).toNat '0' ++ digits)
  else if digits.length ≤ point.toNat then
    digits ++ List.replicate (point.toNat - digits.length) '0' ++ ['.', '0']
  else digits.take point.toNat ++ '.' :: digits.drop point.toNat

/-- The digits with one of them before the point, and an exponent. -/
def scientific (f : Format) (digits : List Char) (exponent : Int) : List Char :=
  let mantissa := match digits with
    | d :: ds => if ds.isEmpty then [d] else d :: '.' :: ds
    | [] => []
  let sign := if exponent < 0 then ['-'] else if f.plusSign then ['+'] else []
  mantissa ++ 'e' :: sign ++ Nat.toDigits 10 exponent.natAbs

/-- The text of a finite number. -/
def Format.chars (f : Format) (x : Binary64) : List Char :=
  let (c, e) := shortest f.tie x
  let digits := Nat.toDigits 10 c
  let lead : Int := (digits.length : Int) - 1 + e
  let magnitude :=
    if leastPositional ≤ lead ∧ lead < firstScientific then positional digits (lead + 1)
    else scientific f digits lead
  if x.negative then '-' :: magnitude else magnitude

/-- The text of a finite number. -/
def Format.text (f : Format) (x : Binary64) : String :=
  String.ofList (f.chars x)

/-- Milliseconds as a number of seconds, rounded twice: to a number, and after the division. -/
def seconds (millis : Nat) : String :=
  match Binary64.ofNat millis, Binary64.ofNat 1000 with
  | some m, some thousand => ((m.div thousand).map Format.duration.text).getD ""
  | _, _ => ""

end BlockBot.Decimal
