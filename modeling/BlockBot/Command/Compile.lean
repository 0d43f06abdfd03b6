import BlockBot.Command.Host
import BlockBot.Command.Arguments
import BlockBot.Document

/-!
# The compiler as a command

Reads a bot from a file or from the input, options from a file and from the command line, and writes
the program to a file or prints it. The exit status is 0 for a program, 1 for a failure with a
message, and 2 for a command line that cannot be understood.
-/

namespace BlockBot.Command

open BlockBot.Json

/-- What the command line of the compiler says. -/
structure CompileArguments where
  input : Option String := none
  output : Option String := none
  config : Option String := none
  indent : Option Nat := none
  port : Option Nat := none
  aliases : List String := []
  verbose : Bool := false
  deriving DecidableEq, Repr

/-- The options of the command line. -/
def compileSpecs : List OptionSpec :=
  [⟨"output", some 'o', .single⟩, ⟨"config", some 'c', .single⟩, ⟨"indent", none, .single⟩,
   ⟨"port", none, .single⟩, ⟨"alias", none, .repeated⟩, ⟨"verbose", some 'v', .flag⟩]

/-- Understands the command line of the compiler. -/
def CompileArguments.parse? (arguments : List String) : Option CompileArguments := do
  let p ← Command.parse? compileSpecs 1 arguments
  let indent ← valueOf? p "indent" (nat? (Nat.pow 2 64))
  let port ← valueOf? p "port" (smallNat? (Nat.pow 2 16))
  return {
    input := p.positional.head?
    output := p.value? "output"
    config := p.value? "config"
    indent
    port
    aliases := p.values "alias"
    verbose := p.has "verbose" }

/-- Adds an alias of the form `NAME=EVENT`. -/
def addAlias (options : Options) (text : String) : Except String Options :=
  let name := text.toList.takeWhile (· != '=')
  match text.toList.dropWhile (· != '=') with
  | [] => .error ("Alias '" ++ text ++ "' must look like NAME=EVENT")
  | _ :: target =>
    let event := String.ofList target
    match (ofTag? event : Option Trigger) with
    | none => .error ("Alias '" ++ text ++ "' targets unknown event '" ++ event ++ "'")
    | some _ => .ok (options.withEventAlias (String.ofList name) event)

/-- The options that the command line sets on top of others. -/
def CompileArguments.apply (a : CompileArguments) (options : Options) : Except String Options :=
  let options := match a.indent with
    | some width => options.withIndentWidth width
    | none => options
  let options := match a.port with
    | some port => options.withPort port
    | none => options
  a.aliases.foldlM addAlias options

/-- A character of a notice; what follows a line feed is moved to the right. -/
def hangingChar (c : Char) : List Char :=
  if c = '\n' then ['\n', ' ', ' ', ' ', ' '] else [c]

/-- The text of a notice, which starts with its level and leaves the start of every further line
blank. -/
def noticeText (n : Notice) : String :=
  "[" ++ n.level.name ++ "] " ++ String.ofList (n.message.toList.flatMap hangingChar) ++ "\n"

section

variable {m : Type → Type} [Monad m]

/-- A failure with its message if there is one. -/
def orFail {ε α : Type} (message : ε → String) (result : Except ε α) : ExceptT String m α :=
  match result with
  | .ok x => pure x
  | .error e => throw (message e)

/-- Reads the text of the bot. -/
def readBot (host : Host m) (input : Option String) : ExceptT String m String := do
  match input with
  | none => host.readInput
  | some path =>
    if path = "-" then host.readInput
    else
      orFail (fun e => "Failed to read blocks file '" ++ path ++ "': " ++ e.message)
        (← host.readFile path)

/-- Reads the options file. -/
def readOptions (host : Host m) (config : Option String) : ExceptT String m Options := do
  match config with
  | none => return {}
  | some path =>
    let text ←
      orFail (fun e => "Failed to read options file '" ++ path ++ "': " ++ e.message)
        (← host.readFile path)
    orFail (fun e => "Invalid options file: " ++ CompileError.message (.unreadable e))
      (Options.read text)

/-- Reports the notices that are asked for. -/
def reportNotices (host : Host m) (verbose : Bool) : List Notice → m Unit
  | [] => pure ()
  | n :: ns => do
    if verbose || n.level = .warn then host.report (noticeText n)
    reportNotices host verbose ns

/-- Writes the program to a file, or prints it. -/
def deliver (host : Host m) (output : Option String) (program : String) :
    ExceptT String m Unit := do
  match output with
  | none => host.print program
  | some path =>
    orFail (fun e => "Failed to write program to '" ++ path ++ "': " ++ e.message)
      (← host.writeFile path program)
    host.report ("Wrote generated program to '" ++ path ++ "'\n")

/-- Does what the command line says. -/
def runCompile (host : Host m) (a : CompileArguments) : ExceptT String m Unit := do
  let text ← readBot host a.input
  let options ← readOptions host a.config
  let options ← orFail id (a.apply options)
  let (result, notices) := compileTextNoting options text
  ExceptT.lift (reportNotices host a.verbose notices)
  let program ← orFail (fun e => "Compilation failed: " ++ e.message) result
  deliver host a.output program

/-- The command; its result is the exit status. -/
def compileCommand (host : Host m) (arguments : List String) : m Nat := do
  match CompileArguments.parse? arguments with
  | none =>
    host.report
      "usage: [-o FILE] [-c FILE] [--indent N] [--port N] [--alias NAME=EVENT] [-v] [INPUT]\n"
    return 2
  | some a =>
    match ← (runCompile host a).run with
    | .ok _ => return 0
    | .error message =>
      host.report ("\nError: " ++ message ++ "\n")
      return 1

end

end BlockBot.Command
