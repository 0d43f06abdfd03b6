import BlockBot.Document

/-!
# Calls from a host program

A host program calls the compiler as a function with dynamic arguments: the text of a bot and,
optionally, the text of options. Each may be given by its position or by its name.
-/

namespace BlockBot

open BlockBot.Json

/-- The arguments of a call. -/
structure Call where
  positional : List Value := []
  named : List (String × Value) := []
  deriving Repr

/-- Why a call failed. -/
inductive CallError where
  /-- The arguments do not fit the parameters. -/
  | badArguments
  | failed (error : CompileError)
  deriving DecidableEq, Repr

namespace Call

/-- The names of the two parameters. -/
def parameters : List String := ["blocks_json", "options_json"]

/-- The arguments by parameter: first those by position, then those by name, none twice and none
without a parameter. -/
def bind? (c : Call) : Option (List (String × Value)) :=
  let pairs := parameters.zip c.positional ++ c.named
  let names := pairs.map (·.1)
  if c.positional.length ≤ parameters.length && names.all (parameters.contains ·) &&
    decide names.Nodup then
    some pairs
  else none

/-- The text of the bot. -/
def document? (arguments : List (String × Value)) : Option String :=
  match Entries.get? "blocks_json" arguments with
  | some (.string s) => some s
  | _ => none

/-- The text of the options, if there is one. -/
def options? (arguments : List (String × Value)) : Option (Option String) :=
  match Entries.get? "options_json" arguments with
  | none => some none
  | some .null => some none
  | some (.string s) => some (some s)
  | _ => none

/-- Reads the options and compiles the bot. -/
def compile (document : String) (options : Option String) : Except CompileError String := do
  let options ← match options with
    | none => pure {}
    | some text => (Options.read text).mapError .unreadable
  compileText options document

/-- Runs a call. -/
def run (c : Call) : Except CallError String :=
  match c.bind? with
  | none => .error .badArguments
  | some arguments =>
    match document? arguments, options? arguments with
    | some document, some options => (compile document options).mapError .failed
    | _, _ => .error .badArguments

end Call

end BlockBot
