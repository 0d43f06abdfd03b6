import BlockBot.Decimal.Binary64

/-!
# Drawing

A draw takes words from a stream, in order, and makes a choice from them. Nothing is assumed about
the stream: it may be any function from positions to words. Every draw of a number takes at least
one word, even if there is only one choice.
-/

namespace BlockBot.Sample

open BlockBot.Decimal

/-- A choice made from a stream of words, with the position reached in the stream. -/
abbrev Draw := ReaderT (Nat → UInt32) (StateM Nat)

namespace Draw

variable {α : Type}

/-- The next word. -/
def word : Draw Nat := fun words position =>
  ((words position).toNat, position + 1)

/-- The next two words as one number, the low one first. -/
def longWord : Draw Nat := do
  let low ← word
  let high ← word
  return low + high * Nat.pow 2 32

/-- A number below `n`, from draws below `2 ^ bits`. The draw is scaled to the range; if its low
part leaves the carry in doubt, a second draw decides. -/
def belowFrom (bits : Nat) (draw : Draw Nat) (n : Nat) : Draw Nat := do
  let product := (← draw) * n
  let high := product / Nat.pow 2 bits
  let low := product % Nat.pow 2 bits
  if Nat.pow 2 bits - n < low then
    let more := (← draw) * n / Nat.pow 2 bits
    return if Nat.pow 2 bits ≤ low + more then high + 1 else high
  else return high

/-- A number below `n`, which is at most `2 ^ 32`. -/
def below (n : Nat) : Draw Nat :=
  belowFrom 32 word n

/-- A number from `low` to `high`, both included. Long words are drawn only if `high` is beyond a
word. -/
def between (low high : Nat) : Draw Nat := do
  let n := high - low + 1
  return low + (← if high < Nat.pow 2 32 then below n else belowFrom 64 longWord n)

/-- A member of a list that starts with `first`. -/
def oneOf (first : α) (rest : List α) : Draw α := do
  let i ← below (rest.length + 1)
  return ((first :: rest)[i]?).getD first

/-- The bound for a chance of so many tenths: a long word below it is a hit. -/
def chanceBound (tenths : Nat) : Nat :=
  match Binary64.ofDecimal false tenths (-1) with
  | some p => p.ratio.1 * Nat.pow 2 64 / p.ratio.2
  | none => Nat.pow 2 64

/-- A hit with a chance of so many tenths. -/
def chance (tenths : Nat) : Draw Bool := do
  return (← longWord) < chanceBound tenths

/-- Draws a number of times. -/
def times (draw : Draw α) : Nat → Draw (List α)
  | 0 => return []
  | n + 1 => do
    let x ← draw
    let xs ← times draw n
    return x :: xs

end Draw

end BlockBot.Sample
