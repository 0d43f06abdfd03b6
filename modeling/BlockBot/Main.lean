import BlockBot.Command.Compile
import BlockBot.Command.Generate

/-!
# The executable

The compiler and, under the name `generate`, the generator of sample bots, on the real input, files
and output.
-/

namespace BlockBot

open BlockBot.Command

/-- The error of a file operation. -/
def fileError : IO.Error → FileError
  | .noFileOrDirectory _ _ _ => .notFound
  | .inappropriateType _ code details =>
    if code = 20 then .notAFolder else if code = 21 then .isFolder else .other details
  | .resourceExhausted _ code details => if code = 28 then .noSpace else .other details
  | .invalidArgument _ code details => if code = 36 then .nameTooLong else .other details
  | e => .other (toString e)

/-- Reads a stream to its end. -/
partial def readToEnd (stream : IO.FS.Stream) (text : String) : IO String := do
  let line ← stream.getLine
  if line.isEmpty then return text else readToEnd stream (text ++ line)

/-- Runs a file operation. -/
def attempt {α : Type} (operation : IO α) : IO (Except FileError α) := do
  try
    return .ok (← operation)
  catch e => return .error (fileError e)

/-- The abilities of a real process. -/
def processHost : Host IO where
  readInput := do readToEnd (← IO.getStdin) ""
  readFile path := attempt (IO.FS.readFile path)
  writeFile path text := attempt (IO.FS.writeFile path text)
  print := IO.print
  report := IO.eprint

end BlockBot

/-- Runs a command and returns its exit status. -/
def main (arguments : List String) : IO UInt32 := do
  let status ← match arguments with
    | "generate" :: arguments => do
      let entropy ← IO.rand 0 (Nat.pow 2 64 - 1)
      BlockBot.Command.generateCommand BlockBot.processHost entropy arguments
    | arguments => BlockBot.Command.compileCommand BlockBot.processHost arguments
  return UInt32.ofNat status
