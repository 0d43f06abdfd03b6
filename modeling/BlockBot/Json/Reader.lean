import BlockBot.Json.Container

/-!
# Reading documents

`readValue` reads any value and checks all of it. Lists and objects may be nested only so deep; the
number of levels that may still be opened is an argument. `skipValue` reads to the end of a value
and checks its grammar alone, at any depth. `readAll` reads a whole text, after which only blanks
may follow.
-/

namespace BlockBot.Json

variable {α : Type}

/-- Lists and objects may be nested this deep. -/
def maxNesting : Nat := 127

/-- Reads a word of the format, after its first letter. -/
def readConstant (word : List Char) (value : α) : Reader α := fun s => do
  let s ← readWord word s
  return (value, s)

/-- Reads any value; `levels` is the number of lists and objects that may still be opened. -/
def readValue (size : Nat) : Nat → Reader Value
  | levels, s =>
    match skipSpace s with
    | [] => failHere (.unfinished .value) []
    | c :: r =>
      if c = 'n' then readConstant ['u', 'l', 'l'] .null r
      else if c = 't' then readConstant ['r', 'u', 'e'] (.bool true) r
      else if c = 'f' then readConstant ['a', 'l', 's', 'e'] (.bool false) r
      else if c = '-' then do
        let (n, r) ← readNumber true r
        return (.number n, r)
      else if Decimal.isDigit c then do
        let (n, r) ← readNumber false (c :: r)
        return (.number n, r)
      else if c = '"' then do
        let (t, r) ← readText size r
        return (.string t, r)
      else if c = '[' then
        match levels with
        | 0 => failNext .tooDeep (c :: r)
        | levels + 1 => do
          let (items, r) ← readItems size (readValue size levels) r
          return (.array items, r)
      else if c = '\x7b' then
        match levels with
        | 0 => failNext .tooDeep (c :: r)
        | levels + 1 => do
          let (members, r) ← readPairs size (readValue size levels) r
          return (.object members, r)
      else failNext .expectedValue (c :: r)

/-- Skips any value; `levels` is above the number of lists and objects that will be opened. -/
def skipValue (size : Nat) : Nat → List Char → Except Failure (List Char)
  | levels, s =>
    match skipSpace s with
    | [] => failHere (.unfinished .value) []
    | c :: r =>
      if c = 'n' then readWord ['u', 'l', 'l'] r
      else if c = 't' then readWord ['r', 'u', 'e'] r
      else if c = 'f' then readWord ['a', 'l', 's', 'e'] r
      else if c = '-' then skipNumber r
      else if Decimal.isDigit c then skipNumber (c :: r)
      else if c = '"' then skipText size r
      else if c = '[' then
        match levels with
        | 0 => failNext .tooDeep (c :: r)
        | levels + 1 => skipItems size (skipValue size levels) r
      else if c = '\x7b' then
        match levels with
        | 0 => failNext .tooDeep (c :: r)
        | levels + 1 => skipMembers size (skipValue size levels) r
      else failNext .expectedValue (c :: r)

/-- A failure with its place in the whole text. -/
def Failure.locate (text : List Char) (e : Failure) : ReadError :=
  ⟨e.fault, some (e.place text)⟩

/-- Nothing but blanks may follow a document. -/
def expectEnd (s : List Char) : Except Failure Unit :=
  match skipSpace s with
  | [] => .ok ()
  | s => failNext .trailingText s

/-- A bound on the rounds of every loop over a text. -/
def sizeOfText (text : List Char) : Nat :=
  text.length + 1

/-- Reads a whole text. -/
def readAll (reader : Nat → Reader α) (text : String) : Except ReadError α :=
  let cs := text.toList
  let result : Except Failure α := do
    let (x, s) ← reader (sizeOfText cs) cs
    expectEnd s
    return x
  result.mapError (·.locate cs)

/-- Reads a whole text as a value in canonical form. -/
def Value.read (text : String) : Except ReadError Value :=
  (readAll (fun size => readValue size maxNesting) text).map Value.canonical

end BlockBot.Json
