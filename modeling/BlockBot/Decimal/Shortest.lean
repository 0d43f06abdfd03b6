import BlockBot.Decimal.Binary64

/-!
# The fewest digits that read back

A finite number is written with the fewest decimal digits that still round to it. The numbers that
round to it form an interval, whose ends belong to it exactly when the significand is even. The
decimal grids are tried from the coarsest to the finest; on the first grid with a point inside, the
nearest point wins, and a format decides between two points that are equally near.
-/

namespace BlockBot.Decimal

/-- What to do with two equally near decimals. -/
inductive Tie where
  | toEven
  | upwards
  deriving DecidableEq, Repr

/-- An interval around a positive value, all four numbers over one denominator. -/
structure Window where
  value : Nat
  low : Nat
  high : Nat
  den : Nat
  closed : Bool
  deriving Repr

/-- The numbers that round to `x`. Below a power of two the next number is half as far as above
it. -/
def Window.of (x : Binary64) : Window :=
  let m := x.significand
  let near : Nat := if x.fraction.val = 0 && decide (1 < x.exponent.val) then 1 else 2
  let q := x.scale - 2
  let up := if q < 0 then 1 else Nat.pow 2 q.toNat
  let den := if q < 0 then Nat.pow 2 (-q).toNat else 1
  ⟨4 * m * up, (4 * m - near) * up, (4 * m + 2) * up, den, m % 2 == 0⟩

/-- Whether the decimal `c`, counted in units of `unit`, lies in the window stretched by `up`. -/
def Window.holds (w : Window) (up unit c : Nat) : Bool :=
  if w.closed then decide (w.low * up ≤ c * unit) && decide (c * unit ≤ w.high * up)
  else decide (w.low * up < c * unit) && decide (c * unit < w.high * up)

/-- The chosen point of the grid of multiples of `10 ^ e`, if the window has one. -/
def Window.pick (w : Window) (tie : Tie) (e : Int) : Option Nat :=
  let up := if e < 0 then Nat.pow 10 (-e).toNat else 1
  let unit := if e < 0 then w.den else w.den * Nat.pow 10 e.toNat
  let v := w.value * up
  let c := v / unit
  let below := w.holds up unit c
  let above := w.holds up unit (c + 1)
  let r := v - c * unit
  if below && above then
    if 2 * r < unit then some c
    else if unit < 2 * r then some (c + 1)
    else match tie with
      | .toEven => some (c + c % 2)
      | .upwards => some (c + 1)
  else if below then some c
  else if above then some (c + 1)
  else none

/-- The exponent of the leading decimal digit of a positive quotient. -/
def leadingExponent (num den : Nat) : Int :=
  if den ≤ num then ((Nat.toDigits 10 (num / den)).length : Int) - 1
  else -((Nat.toDigits 10 ((den + num - 1) / num - 1)).length : Int)

/-- Tries `n` grids, each ten times finer than the one before. -/
def Window.search (w : Window) (tie : Tie) : Nat → Int → Nat × Int
  | 0, e => (w.value * (if e < 0 then Nat.pow 10 (-e).toNat else 1) / w.den, e)
  | n + 1, e =>
    match w.pick tie e with
    | some c => (c, e)
    | none => w.search tie n (e - 1)

/-- Moves trailing zeros of the digits into the exponent; `fuel` bounds their number. -/
def stripZeros : Nat → Nat × Int → Nat × Int
  | 0, p => p
  | fuel + 1, (c, e) => if c ≠ 0 && c % 10 == 0 then stripZeros fuel (c / 10, e + 1) else (c, e)

/-- The digits and the exponent of the shortest decimal for the magnitude of a number. -/
def shortest (tie : Tie) (x : Binary64) : Nat × Int :=
  if x.isZero then (0, 0)
  else
    let w := Window.of x
    stripZeros 18 (w.search tie 17 (leadingExponent w.value w.den))

end BlockBot.Decimal
