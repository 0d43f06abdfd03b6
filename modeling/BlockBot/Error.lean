import BlockBot.Json.Fault

/-!
# Failures of a compilation

A bot fails to compile for three reasons: it cannot be read, it is nested too deeply (which includes
every cycle), or it comes from a foreign form that cannot be converted. Everything else that is odd
about a bot is skipped.
-/

namespace BlockBot

open BlockBot.Json

/-- Why a compilation failed. -/
inductive CompileError where
  /-- The nesting is too deep or does not end at the block with an id or label. -/
  | cyclic (block : String) (depth : Nat)
  | unreadable (error : ReadError)
  /-- A foreign form that cannot be converted, with the reason. -/
  | invalidSource (reason : String)
  deriving DecidableEq, Repr

/-- The wording of a failure. -/
def CompileError.message : CompileError → String
  | .cyclic block depth =>
    "Cyclic graph detected at block '" ++ block ++ "' (nesting depth " ++ natText depth ++ ")"
  | .unreadable error => "Failed to parse block graph JSON: " ++ error.message
  | .invalidSource reason => "Invalid custom data: " ++ reason

end BlockBot
