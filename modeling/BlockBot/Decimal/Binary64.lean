/-!
# Finite binary floating-point numbers

The finite numbers of the 64-bit binary format, by their three fields. A biased exponent below 2047
is never an infinity, so the type has no other values. All arithmetic is exact on natural numbers
and rounds once at the end, to the nearest number and to an even significand in the middle; a result
beyond the largest number is `none`.
-/

namespace BlockBot.Decimal

/-- A finite number: its sign, its biased exponent and the 52 bits after the point. -/
structure Binary64 where
  negative : Bool
  exponent : Fin 2047
  fraction : Fin (Nat.pow 2 52)
  deriving DecidableEq, Repr, Inhabited

/-- A quotient rounded to the nearest natural number, to the even one in the middle. -/
def roundHalfEven (num den : Nat) : Nat :=
  let q := num / den
  let r := num % den
  if 2 * r < den then q else if den < 2 * r then q + 1 else q + q % 2

/-- A quotient rounded to the nearest natural number, upwards in the middle. -/
def roundHalfUp (num den : Nat) : Nat :=
  (2 * num + den) / (2 * den)

namespace Binary64

/-- The magnitude is `significand * 2 ^ scale`. -/
def significand (x : Binary64) : Nat :=
  if x.exponent.val = 0 then x.fraction.val else Nat.pow 2 52 + x.fraction.val

/-- The magnitude is `significand * 2 ^ scale`. -/
def scale (x : Binary64) : Int :=
  if x.exponent.val = 0 then -1074 else (x.exponent.val : Int) - 1075

/-- Zero with a sign. -/
def zero (negative : Bool) : Binary64 :=
  ⟨negative, 0, 0⟩

/-- Both zeros. -/
def isZero (x : Binary64) : Bool :=
  x.significand == 0

/-- The magnitude as a numerator and a positive denominator. -/
def ratio (x : Binary64) : Nat × Nat :=
  if x.scale < 0 then (x.significand, Nat.pow 2 (-x.scale).toNat)
  else (x.significand * Nat.pow 2 x.scale.toNat, 1)

/-- A quotient in units of `2 ^ q`, again as a quotient. -/
def inUnits (num den : Nat) (q : Int) : Nat × Nat :=
  if q < 0 then (num * Nat.pow 2 (-q).toNat, den) else (num, den * Nat.pow 2 q.toNat)

/-- The number `m * 2 ^ q`, where `m` is at most `2 ^ 53` and is below `2 ^ 52` only at the least
scale. -/
def pack (negative : Bool) (m : Nat) (q : Int) : Option Binary64 :=
  let e : Int := if m < Nat.pow 2 52 then 0 else if m < Nat.pow 2 53 then q + 1075 else q + 1076
  if h : e.toNat < 2047 then some ⟨negative, ⟨e.toNat, h⟩, Fin.ofNat (Nat.pow 2 52) m⟩ else none

/-- The number nearest to a quotient, with the given sign; `none` if that is beyond the largest
number. -/
def ofRatio (negative : Bool) (num den : Nat) : Option Binary64 :=
  if num = 0 then some (zero negative)
  else
    let q : Int := max (-1074) ((num.log2 : Int) - den.log2 - 53)
    let (n, d) := inUnits num den q
    if d * Nat.pow 2 53 ≤ n then pack negative (roundHalfEven n (d * 2)) (q + 1)
    else pack negative (roundHalfEven n d) q

/-- The number nearest to a natural number. -/
def ofNat (n : Nat) : Option Binary64 :=
  ofRatio false n 1

/-- The rounded product. -/
def mul (x y : Binary64) : Option Binary64 :=
  ofRatio (x.negative != y.negative) (x.ratio.1 * y.ratio.1) (x.ratio.2 * y.ratio.2)

/-- The rounded quotient; the divisor is not zero. -/
def div (x y : Binary64) : Option Binary64 :=
  ofRatio (x.negative != y.negative) (x.ratio.1 * y.ratio.2) (x.ratio.2 * y.ratio.1)

/-- The magnitude rounded to a natural number, upwards in the middle. -/
def roundToNat (x : Binary64) : Nat :=
  roundHalfUp x.ratio.1 x.ratio.2

/-- The largest decimal exponent of a finite number. -/
def maxTen : Nat := 308

/-- The number nearest to `digits * 10 ^ e`. Exponents that leave no doubt are settled before any
power is taken. -/
def ofDecimal (negative : Bool) (digits : Nat) (e : Int) : Option Binary64 :=
  let size : Int := (Nat.toDigits 10 digits).length
  if digits = 0 then some (zero negative)
  else if size + e > 310 then none
  else if size + e < -330 then some (zero negative)
  else if e < 0 then ofRatio negative digits (Nat.pow 10 (-e).toNat)
  else ofRatio negative (digits * Nat.pow 10 e.toNat) 1

end Binary64

end BlockBot.Decimal
