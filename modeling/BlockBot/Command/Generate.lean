import BlockBot.Command.Host
import BlockBot.Command.Arguments
import BlockBot.Sample.Blocks
import BlockBot.Sample.Keystream
import BlockBot.Block.Written
import BlockBot.Graph.Written

/-!
# The generator of sample bots as a command

Draws a bot from a seed and writes it to a file, nested or flat. The exit status is 0 for a file, 1
for a failure with a message, and 2 for a command line that cannot be understood.
-/

namespace BlockBot.Command

open BlockBot.Json BlockBot.Sample

/-- What the command line of the generator says. -/
structure GenerateArguments where
  output : String
  shape : Shape
  flat : Bool
  seed : Option Nat
  deriving DecidableEq, Repr

/-- The options of the command line. -/
def generateSpecs : List OptionSpec :=
  [⟨"output", some 'o', .single⟩, ⟨"handlers", none, .single⟩, ⟨"max-actions", none, .single⟩,
   ⟨"max-depth", none, .single⟩, ⟨"flat", none, .flag⟩, ⟨"seed", none, .single⟩]

/-- Understands the command line of the generator. -/
def GenerateArguments.parse? (arguments : List String) : Option GenerateArguments := do
  let p ← Command.parse? generateSpecs 0 arguments
  let number := nat? (Nat.pow 2 64)
  let handlers ← valueOf? p "handlers" number
  let maxActions ← valueOf? p "max-actions" number
  let maxDepth ← valueOf? p "max-depth" number
  let seed ← valueOf? p "seed" number
  return {
    output := (p.value? "output").getD "generated_blocks.json"
    shape := ⟨handlers.getD 5, maxActions.getD 4, maxDepth.getD 3⟩
    flat := p.has "flat"
    seed }

/-- The text of a bot, nested or flat. -/
def botText (flat : Bool) (blocks : List Block) : String :=
  if flat then (Graph.flatten blocks).toValue.pretty
  else (Value.array (Block.toValues blocks)).pretty

section

variable {m : Type → Type} [Monad m]

/-- Does what the command line says; `entropy` is the seed if none is given. -/
def runGenerate (host : Host m) (entropy : Nat) (a : GenerateArguments) :
    ExceptT String m Unit := do
  if a.shape.maxActions = 0 then throw "--max-actions must be at least 1"
  host.print ("Generating " ++ natText a.shape.handlers ++ " handlers (up to "
    ++ natText a.shape.maxActions ++ " actions, depth " ++ natText a.shape.maxDepth ++ ")...\n")
  let seed := UInt64.ofNat (a.seed.getD entropy)
  let blocks := botOf a.shape (keystream (Key.ofSeed seed))
  match ← host.writeFile a.output (botText a.flat blocks) with
  | .error e => throw e.details
  | .ok _ => host.print ("Successfully generated and saved blocks to '" ++ a.output ++ "'\n")

/-- The command; its result is the exit status. -/
def generateCommand (host : Host m) (entropy : Nat) (arguments : List String) : m Nat := do
  match GenerateArguments.parse? arguments with
  | none =>
    host.report
      "usage: [-o FILE] [--handlers N] [--max-actions N] [--max-depth N] [--flat] [--seed N]\n"
    return 2
  | some a =>
    match ← (runGenerate host entropy a).run with
    | .ok _ => return 0
    | .error message =>
      host.report ("Error: " ++ message ++ "\n")
      return 1

end

end BlockBot.Command
