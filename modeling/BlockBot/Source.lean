import BlockBot.Document

/-!
# Foreign sources

Editors with a document form of their own convert it into root blocks. Scripts are such a form:
lines with a verb and an argument, one block each.
-/

namespace BlockBot

open BlockBot.Json

/-- A form of bots that can be converted into root blocks, or fails with a reason. -/
class Source (α : Type) where
  toBlocks : α → Except String (List Block)

instance : Source (List Block) where
  toBlocks := .ok

/-- Converts and compiles a foreign source; all notices in their order. -/
def compileSourceNoting {α : Type} [Source α] (options : Options) (source : α) :
    Except CompileError String × List Notice :=
  match Source.toBlocks source with
  | .error reason => (.error (.invalidSource reason), [])
  | .ok blocks => compileNoting options blocks

/-- A line of a script. -/
structure ScriptLine where
  verb : String
  argument : String
  deriving DecidableEq, Repr

/-- A bot told line by line. -/
structure Script where
  lines : List ScriptLine
  deriving DecidableEq, Repr

/-- The block of a line: `on` waits for an event, `say` replies with a text. -/
def ScriptLine.toBlock (l : ScriptLine) : Except String Block :=
  if l.verb = "on" then .ok (Block.withText { kind := .event } "eventType" l.argument)
  else if l.verb = "say" then
    .ok ((Block.withText { kind := .reply } "replyType" "text").withText "content" l.argument)
  else .error ("unknown verb '" ++ l.verb ++ "'")

instance : Source Script where
  toBlocks script := script.lines.mapM ScriptLine.toBlock

end BlockBot
