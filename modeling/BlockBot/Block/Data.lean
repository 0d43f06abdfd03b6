import BlockBot.Json.Value
import BlockBot.Decimal.Numeral
import BlockBot.Text.Blank

/-!
# Fields of a block's data

Editors are not strict about the fields of a block, so they are read forgivingly: a field that is
missing or has the wrong shape gives `none`, and the caller has a default. Blank texts count as
missing where a text is wanted, and texts from forms are accepted where a number or a truth value is
wanted.
-/

namespace BlockBot.Json.Fields

open BlockBot.Decimal BlockBot.Text

/-- Any value. -/
def value? (data : Fields) (key : String) : Option Value :=
  Entries.get? key data

/-- A text that is not blank. -/
def text? (data : Fields) (key : String) : Option String :=
  match data.value? key with
  | some (.string s) => if isBlankText s then none else some s
  | _ => none

/-- A text, a number or a truth value, as a text. -/
def scalar? (data : Fields) (key : String) : Option String :=
  match data.value? key with
  | some (.string s) => some s
  | some (.number n) => some n.text
  | some (.bool b) => some (if b then "true" else "false")
  | _ => none

/-- The count that a number stands for. -/
def countOf? : Number → Option Nat
  | .whole n => if 0 ≤ n.val then some n.val.toNat else none
  | .real x => (Numeral.finite x).count?

/-- A count: a number, or a text that holds a numeral. -/
def count? (data : Fields) (key : String) : Option Nat :=
  match data.value? key with
  | some (.number n) => countOf? n
  | some (.string s) => (Numeral.read? (trim s)).bind Numeral.count?
  | _ => none

/-- A truth value, or a text that spells one. -/
def flag? (data : Fields) (key : String) : Option Bool :=
  match data.value? key with
  | some (.bool b) => some b
  | some (.string s) =>
    if trim s = "true" then some true else if trim s = "false" then some false else none
  | _ => none

end BlockBot.Json.Fields
