import BlockBot.Json.Scan

/-!
# Reading lists and objects

The punctuation of lists and objects, and loops over their contents that leave the reading of one
item or one value to a reader they are given. A loop takes a number of rounds, `size`, that is above
the number of characters left: each round reads at least one of them.
-/

namespace BlockBot.Json

variable {α σ : Type}

/-! ## Lists -/

/-- Looks for the next item of a list: the characters from it on, or `none` before the closing
bracket. -/
def nextItem (first : Bool) (s : List Char) : Except Failure (Option (List Char)) :=
  match skipSpace s with
  | [] => failHere (.unfinished .list) []
  | ']' :: _ => .ok none
  | c :: s =>
    if first then .ok (some (c :: s))
    else if c = ',' then
      match skipSpace s with
      | [] => failHere (.unfinished .value) []
      | ']' :: s => failNext .trailingComma (']' :: s)
      | s => .ok (some s)
    else failNext .expectedListComma (c :: s)

/-- Reads the closing bracket of a list that has no more items to offer. -/
def closeList (s : List Char) : Except Failure (List Char) :=
  match skipSpace s with
  | [] => failHere (.unfinished .list) []
  | ']' :: s => .ok s
  | ',' :: s =>
    match skipSpace s with
    | ']' :: s => failNext .trailingComma (']' :: s)
    | s => failNext .trailingText s
  | s => failNext .trailingText s

/-- Reads items up to the closing bracket. -/
def readItemsLoop (item : Reader α) : Nat → Bool → Reader (List α)
  | 0, _, _ => failHere (.unfinished .list) []
  | n + 1, first, s => do
    match ← nextItem first s with
    | none =>
      let s ← closeList s
      return ([], s)
    | some s =>
      let (x, s) ← item s
      let (xs, s) ← readItemsLoop item n false s
      return (x :: xs, s)

/-- Reads the items of a list, after its opening bracket. -/
def readItems (size : Nat) (item : Reader α) : Reader (List α) :=
  readItemsLoop item size true

/-! ## Objects -/

/-- Looks for the next key of an object: the characters after its opening quote, or `none` before
the closing brace. -/
def nextKey (first : Bool) (s : List Char) : Except Failure (Option (List Char)) :=
  match skipSpace s with
  | [] => failHere (.unfinished .object) []
  | '\x7d' :: _ => .ok none
  | c :: s =>
    if first then
      if c = '"' then .ok (some s) else failNext .expectedKey (c :: s)
    else if c = ',' then
      match skipSpace s with
      | [] => failHere (.unfinished .value) []
      | '"' :: s => .ok (some s)
      | '\x7d' :: s => failNext .trailingComma ('\x7d' :: s)
      | s => failNext .expectedKey s
    else failNext .expectedObjectComma (c :: s)

/-- Reads the closing brace of an object. -/
def closeObject (s : List Char) : Except Failure (List Char) :=
  match skipSpace s with
  | [] => failHere (.unfinished .object) []
  | '\x7d' :: s => .ok s
  | ',' :: s => failNext .trailingComma (',' :: s)
  | s => failNext .trailingText s

/-- Reads the colon after a key. -/
def readColon (s : List Char) : Except Failure (List Char) :=
  match skipSpace s with
  | [] => failHere (.unfinished .object) []
  | ':' :: s => .ok s
  | s => failNext .expectedColon s

/-- Reads members up to the closing brace. `member` gets what was gathered so far and a key, and
reads the colon and the value. -/
def readMembersLoop (size : Nat) (member : σ → String → Reader σ) : Nat → Bool → σ → Reader σ
  | 0, _, _, _ => failHere (.unfinished .object) []
  | n + 1, first, acc, s => do
    match ← nextKey first s with
    | none =>
      let s ← closeObject s
      return (acc, s)
    | some s =>
      let (key, s) ← readText size s
      let (acc, s) ← member acc key s
      readMembersLoop size member n false acc s

/-- Reads the members of an object, after its opening brace. -/
def readMembers (size : Nat) (member : σ → String → Reader σ) (start : σ) : Reader σ :=
  readMembersLoop size member size true start

/-- Reads pairs up to the closing brace, each value by the same reader. -/
def readPairsLoop (size : Nat) (value : Reader α) : Nat → Bool → Reader (List (String × α))
  | 0, _, _ => failHere (.unfinished .object) []
  | n + 1, first, s => do
    match ← nextKey first s with
    | none =>
      let s ← closeObject s
      return ([], s)
    | some s =>
      let (key, s) ← readText size s
      let s ← readColon s
      let (v, s) ← value s
      let (ps, s) ← readPairsLoop size value n false s
      return ((key, v) :: ps, s)

/-- Reads the pairs of an object, after its opening brace, in the order of the text. -/
def readPairs (size : Nat) (value : Reader α) : Reader (List (String × α)) :=
  readPairsLoop size value size true

/-! ## Skipping -/

/-- Skips what follows an item of a list. -/
def skipItemsLoop (skip : List Char → Except Failure (List Char)) :
    Nat → List Char → Except Failure (List Char)
  | 0, _ => failHere (.unfinished .list) []
  | n + 1, s =>
    match skipSpace s with
    | [] => failHere (.unfinished .list) []
    | ']' :: s => .ok s
    | ',' :: s => do
      let s ← skip s
      skipItemsLoop skip n s
    | s => failNext .expectedListComma s

/-- Skips a list, after its opening bracket. -/
def skipItems (size : Nat) (skip : List Char → Except Failure (List Char)) (s : List Char) :
    Except Failure (List Char) :=
  match skipSpace s with
  | [] => failHere (.unfinished .list) []
  | ']' :: s => .ok s
  | s => do
    let s ← skip s
    skipItemsLoop skip size s

/-- Skips a key, its colon and its value. -/
def skipMember (size : Nat) (skip : List Char → Except Failure (List Char)) (s : List Char) :
    Except Failure (List Char) :=
  match skipSpace s with
  | [] => failHere (.unfinished .object) []
  | '"' :: s => do
    let s ← skipText size s
    let s ← readColon s
    skip s
  | s => failNext .expectedKey s

/-- Skips what follows a member of an object. -/
def skipMembersLoop (size : Nat) (skip : List Char → Except Failure (List Char)) :
    Nat → List Char → Except Failure (List Char)
  | 0, _ => failHere (.unfinished .object) []
  | n + 1, s =>
    match skipSpace s with
    | [] => failHere (.unfinished .object) []
    | '\x7d' :: s => .ok s
    | ',' :: s => do
      let s ← skipMember size skip s
      skipMembersLoop size skip n s
    | s => failNext .expectedObjectComma s

/-- Skips an object, after its opening brace. -/
def skipMembers (size : Nat) (skip : List Char → Except Failure (List Char)) (s : List Char) :
    Except Failure (List Char) :=
  match skipSpace s with
  | [] => failHere (.unfinished .object) []
  | '\x7d' :: s => .ok s
  | s => do
    let s ← skipMember size skip s
    skipMembersLoop size skip size s

end BlockBot.Json
