import BlockBot.Decimal.Numeral

/-!
# Arguments of a command

Options have a long name and may have a short one of one letter. An option with a value takes it
from the same argument (`--name=value`, `-nvalue`, `-n=value`) or from the next one, which then must
not look like an option; a single hyphen does not. Short options without value may be joined. After
`--` everything is positional. A command line that breaks these rules has no parse.
-/

namespace BlockBot.Command

/-- How often an option may occur and whether it has a value. -/
inductive Arity where
  | flag
  | single
  | repeated
  deriving DecidableEq, Repr

/-- The names of an option. -/
structure OptionSpec where
  long : String
  short : Option Char := none
  arity : Arity
  deriving DecidableEq, Repr

/-- A command line that was understood. -/
structure Parsed where
  /-- Long names with values, in order; a flag has an empty value. -/
  options : List (String × String) := []
  positional : List String := []
  deriving DecidableEq, Repr

namespace Parsed

/-- One more option. -/
def addOption (p : Parsed) (spec : OptionSpec) (value : String) : Parsed :=
  { p with options := p.options ++ [(spec.long, value)] }

/-- More positional arguments. -/
def addPositional (p : Parsed) (arguments : List String) : Parsed :=
  { p with positional := p.positional ++ arguments }

/-- Whether an option occurs. -/
def has (p : Parsed) (long : String) : Bool :=
  (p.options.lookup long).isSome

/-- The value of an option. -/
def value? (p : Parsed) (long : String) : Option String :=
  p.options.lookup long

/-- All values of an option. -/
def values (p : Parsed) (long : String) : List String :=
  (p.options.filter (·.1 = long)).map (·.2)

end Parsed

/-- Whether an argument cannot be the value of the option before it. -/
def looksLikeOption (argument : String) : Bool :=
  match argument.toList with
  | '-' :: _ :: _ => true
  | _ => false

/-- What an argument still needs after it was looked at. -/
inductive Pending where
  | done (parsed : Parsed)
  /-- The next argument is the value of this option. -/
  | wants (spec : OptionSpec) (parsed : Parsed)

/-- Reads the letters of joined short options. -/
def readShort (specs : List OptionSpec) (p : Parsed) : List Char → Option Pending
  | [] => some (.done p)
  | c :: cs =>
    match specs.find? fun spec => spec.short == some c with
    | none => none
    | some spec =>
      match spec.arity with
      | .flag => readShort specs (p.addOption spec "") cs
      | _ =>
        match cs with
        | [] => some (.wants spec p)
        | '=' :: value => some (.done (p.addOption spec (String.ofList value)))
        | value => some (.done (p.addOption spec (String.ofList value)))

/-- Reads a long option, after its two hyphens. -/
def readLong (specs : List OptionSpec) (p : Parsed) (cs : List Char) : Option Pending :=
  let name := String.ofList (cs.takeWhile (· != '='))
  let value : Option String := match cs.dropWhile (· != '=') with
    | [] => none
    | _ :: value => some (String.ofList value)
  match specs.find? fun spec => spec.long == name with
  | none => none
  | some spec =>
    match spec.arity, value with
    | .flag, none => some (.done (p.addOption spec ""))
    | .flag, some _ => none
    | _, some value => some (.done (p.addOption spec value))
    | _, none => some (.wants spec p)

/-- Reads arguments; `wanted` is the option whose value comes next. -/
def readArguments (specs : List OptionSpec) :
    Option OptionSpec → Parsed → List String → Option Parsed
  | some _, _, [] => none
  | none, p, [] => some p
  | some spec, p, a :: as =>
    if looksLikeOption a then none else readArguments specs none (p.addOption spec a) as
  | none, p, a :: as =>
    let step (pending : Option Pending) : Option Parsed :=
      match pending with
      | none => none
      | some (.done p) => readArguments specs none p as
      | some (.wants spec p) => readArguments specs (some spec) p as
    match a.toList with
    | ['-', '-'] => some (p.addPositional as)
    | '-' :: '-' :: cs => step (readLong specs p cs)
    | '-' :: c :: cs => step (readShort specs p (c :: cs))
    | _ => readArguments specs none (p.addPositional [a]) as

/-- Whether every option that may occur once does so at most once. -/
def eachOnce (specs : List OptionSpec) (p : Parsed) : Bool :=
  specs.all fun spec => spec.arity == .repeated || (p.values spec.long).length ≤ 1

/-- Understands a command line with at most so many positional arguments. -/
def parse? (specs : List OptionSpec) (maxPositional : Nat) (arguments : List String) :
    Option Parsed := do
  let p ← readArguments specs none {} arguments
  if eachOnce specs p && p.positional.length ≤ maxPositional then some p else none

/-! ## Values -/

/-- A natural number below a bound, in digits, with an optional plus sign. -/
def nat? (bound : Nat) (s : String) : Option Nat :=
  let cs := match s.toList with
    | '+' :: cs => cs
    | cs => cs
  if cs.isEmpty || !cs.all Decimal.isDigit then none
  else
    let n := Decimal.appendDigits 0 cs
    if n < bound then some n else none

/-- A natural number below a bound that is read as an integer of 64 bits, so that zero may have a
minus sign. -/
def smallNat? (bound : Nat) (s : String) : Option Nat :=
  match s.toList with
  | '-' :: cs =>
    (nat? (Nat.pow 2 63) (String.ofList ('0' :: cs))).bind fun n =>
      if n = 0 && !cs.isEmpty then some 0 else none
  | _ => nat? (min bound (Nat.pow 2 63)) s

/-- The value of an option, read by `read`; none if it does not occur, and a failure if it cannot be
read. -/
def valueOf? {α : Type} (p : Parsed) (long : String) (read : String → Option α) :
    Option (Option α) :=
  match p.value? long with
  | none => some none
  | some s => (read s).map some

end BlockBot.Command
