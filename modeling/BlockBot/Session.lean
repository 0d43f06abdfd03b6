import BlockBot.Options
import BlockBot.Notice
import BlockBot.Error

/-!
# Sessions

The state of one compilation: which imports were asked for, which value each variable was last
given, how deep the current block is nested, and what was worth telling. A session starts from
options that do not change.
-/

namespace BlockBot

open BlockBot.Json

/-- The state of a compilation. -/
structure Session where
  options : Options
  /-- The imports asked for, each once, the last one first. -/
  imports : List Import := []
  /-- The last literal value of every variable that was set. -/
  remembered : Entries Value := []
  /-- The number of bodies that are open. -/
  depth : Nat := 0
  /-- What was worth telling, the last notice first. -/
  notices : List Notice := []
  deriving Repr

namespace Session

/-- The session at the start. -/
def new (options : Options) : Session :=
  { options }

/-- One level of indentation. -/
def unit (s : Session) : String :=
  s.options.unit

/-- Adds a notice. -/
def note (s : Session) (n : Notice) : Session :=
  { s with notices := n :: s.notices }

/-- Asks for an import. -/
def register (s : Session) (i : Import) : Session :=
  if s.imports.contains i then s else { s with imports := i :: s.imports }.note (.registered i)

/-- Remembers the value of a variable. -/
def record (s : Session) (name : String) (value : Value) : Session :=
  { s with remembered := Entries.insert name value s.remembered }

/-- The last value of a variable. -/
def lastValue? (s : Session) (name : String) : Option Value :=
  Entries.get? name s.remembered

/-- Opens the body of a block; there is a limit to how many are open at a time. -/
def enter (s : Session) (label : String) : Except CompileError Session :=
  if s.options.maxDepth ≤ s.depth then .error (.cyclic label s.depth)
  else .ok { s with depth := s.depth + 1 }

/-- Closes the body opened last. -/
def leave (s : Session) : Session :=
  { s with depth := s.depth - 1 }

/-- The import statements so far, in the order of the program. -/
def statements (s : Session) : List String :=
  Import.statements s.imports

end Session

/-- A step of a compilation: its result or a failure, and the session after it in both cases. -/
abbrev Emit (α : Type) := Session → Except CompileError α × Session

end BlockBot
