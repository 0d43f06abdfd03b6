import BlockBot.Json.Reader

/-!
# Reading values of a known type

Readers that know which type comes next and fail at the first value of another type. A value that
has to be shown in the failure is read first, up to its end; lists and objects are not. Records may
be written as objects or as lists of their fields.
-/

namespace BlockBot.Json

variable {α : Type}

/-- Fails because of the value that comes next; `expected` names the type that was wanted. -/
def failType (size : Nat) (expected : String) (s : List Char) : Except Failure α := do
  match s with
  | [] => failHere (.unfinished .value) []
  | c :: r =>
    if c = 'n' then
      let r ← readWord ['u', 'l', 'l'] r
      failHere (.mismatch .null expected) r
    else if c = 't' then
      let r ← readWord ['r', 'u', 'e'] r
      failHere (.mismatch (.bool true) expected) r
    else if c = 'f' then
      let r ← readWord ['a', 'l', 's', 'e'] r
      failHere (.mismatch (.bool false) expected) r
    else if c = '-' then
      let (n, r) ← readNumber true r
      failHere (.mismatch (.number n) expected) r
    else if Decimal.isDigit c then
      let (n, r) ← readNumber false (c :: r)
      failHere (.mismatch (.number n) expected) r
    else if c = '"' then
      let (t, r) ← readText size r
      failHere (.mismatch (.text t) expected) r
    else if c = '[' then failHere (.mismatch .list expected) (c :: r)
    else if c = '\x7b' then failHere (.mismatch .object expected) (c :: r)
    else failNext .expectedValue (c :: r)

/-- Reads a text. -/
def readString (size : Nat) : Reader String := fun s =>
  match skipSpace s with
  | '"' :: r => readText size r
  | s => failType size "a string" s

/-- A type of natural numbers below a bound. -/
structure NatType where
  name : String
  bound : Nat
  deriving DecidableEq, Repr

/-- Sizes and depths. -/
def NatType.size : NatType := ⟨"usize", Nat.pow 2 64⟩

/-- Port numbers. -/
def NatType.port : NatType := ⟨"u16", Nat.pow 2 16⟩

/-- The natural number that a number spells, which has to be whole and in range. -/
def NatType.check (type : NatType) (n : Number) (s : List Char) :
    Except Failure (Nat × List Char) :=
  match n with
  | .real x => failHere (.mismatch (.number (.real x)) type.name) s
  | .whole w =>
    if 0 ≤ w.val ∧ w.val < type.bound then .ok (w.val.toNat, s)
    else failHere (.outOfRange w.val type.name) s

/-- Reads a natural number. -/
def readNat (size : Nat) (type : NatType) : Reader Nat := fun s =>
  match skipSpace s with
  | [] => failHere (.unfinished .value) []
  | c :: r => do
    if c = '-' then
      let (n, r) ← readNumber true r
      type.check n r
    else if Decimal.isDigit c then
      let (n, r) ← readNumber false (c :: r)
      type.check n r
    else failType size type.name (c :: r)

/-- Reads `null` or what another reader reads. -/
def readNullable (reader : Reader α) : Reader (Option α) := fun s =>
  match skipSpace s with
  | 'n' :: r => do
    let r ← readWord ['u', 'l', 'l'] r
    return (none, r)
  | s => do
    let (x, r) ← reader s
    return (some x, r)

/-- Reads a list of things; `levels` is the number of lists and objects that may still be opened. -/
def readList (size levels : Nat) (item : Nat → Reader α) : Reader (List α) := fun s =>
  match skipSpace s with
  | '[' :: r =>
    match levels with
    | 0 => failNext .tooDeep ('[' :: r)
    | levels + 1 => readItems size (item levels) r
  | s => failType size "a sequence" s

/-- Reads an object whose values are all of one type, in the order of the text. -/
def readTable (size levels : Nat) (value : Nat → Reader α) : Reader (List (String × α)) := fun s =>
  match skipSpace s with
  | '\x7b' :: r =>
    match levels with
    | 0 => failNext .tooDeep ('\x7b' :: r)
    | levels + 1 => readPairs size (value levels) r
  | s => failType size "a map" s

/-- Reads an object of any values, in canonical form. -/
def readFields (size levels : Nat) : Reader Fields := fun s => do
  let (members, r) ← readTable size levels (readValue size) s
  return (Value.canonicalMembers members, r)

/-- The two ways to write a record. -/
inductive RecordForm where
  | list
  | object
  deriving DecidableEq, Repr

/-- Opens a record, written as a list or as an object; `levels` is the number of levels that may
still be opened. -/
def openRecord (size : Nat) (expected : String) (levels : Nat) : Reader RecordForm := fun s =>
  match skipSpace s with
  | '[' :: r => if levels = 0 then failNext .tooDeep ('[' :: r) else .ok (.list, r)
  | '\x7b' :: r => if levels = 0 then failNext .tooDeep ('\x7b' :: r) else .ok (.object, r)
  | s => failType size expected s

/-- Reads the next field of a record written as a list, if there is one more item. -/
def readNext (first : Bool) (reader : Reader α) : Reader (Option α) := fun s => do
  match ← nextItem first s with
  | none => return (none, s)
  | some s =>
    let (x, s) ← reader s
    return (some x, s)

/-- Reads the colon and the value of a member whose key was not seen before. -/
def readOnce (name : String) (earlier : Option α) (reader : Reader α) : Reader α := fun s => do
  match earlier with
  | some _ => failHere (.duplicateField name) ((closeObject s).toOption.getD (skipSpace s))
  | none =>
    let s ← readColon s
    reader s

/-- Skips the colon and the value of a member that has no meaning. -/
def skipUnknown (size : Nat) (s : List Char) : Except Failure (List Char) := do
  let s ← readColon s
  skipValue size size s

end BlockBot.Json
