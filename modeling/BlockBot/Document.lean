import BlockBot.Program
import BlockBot.Block.Written
import BlockBot.Graph.Written
import BlockBot.Graph.Resolve

/-!
# Documents

A bot is stored as a list of nested blocks or as a graph. A text is read as a value first, which
checks all of it; then the two forms are tried in this order. Only then may more text turn out to
follow.
-/

namespace BlockBot

open BlockBot.Json

/-- A stored bot. -/
inductive Document where
  | tree (blocks : List Block)
  | graph (g : Graph)
  deriving Repr

namespace Document

/-- The bot that a value describes. -/
def ofValue? (v : Value) : Option Document :=
  match Block.listOfValue? v with
  | some blocks => some (.tree blocks)
  | none => (Graph.ofValue? v).map .graph

/-- Reads a whole text as a bot. -/
def read (text : String) : Except ReadError Document :=
  let cs := text.toList
  match readValue (sizeOfText cs) maxNesting cs with
  | .error e => .error (e.locate cs)
  | .ok (v, rest) =>
    match ofValue? v with
    | none => .error ⟨.noAlternative "BlockDocument", none⟩
    | some d =>
      match expectEnd rest with
      | .error e => .error (e.locate cs)
      | .ok _ => .ok d

end Document

/-- Compiles a graph; all notices in their order. -/
def compileGraphNoting (options : Options) (g : Graph) : Except CompileError String × List Notice :=
  match g.resolveNoting options.maxDepth with
  | (.error e, notices) => (.error e, notices)
  | (.ok blocks, notices) =>
    let (result, more) := compileNoting options blocks
    (result, notices ++ more)

/-- Compiles a graph into the text of a program. -/
def compileGraph (options : Options) (g : Graph) : Except CompileError String :=
  (compileGraphNoting options g).1

/-- Compiles a stored bot; all notices in their order. -/
def Document.compileNoting (options : Options) : Document → Except CompileError String × List Notice
  | .tree blocks => BlockBot.compileNoting options blocks
  | .graph g => compileGraphNoting options g

/-- Compiles the text of a stored bot; all notices in their order. -/
def compileTextNoting (options : Options) (text : String) :
    Except CompileError String × List Notice :=
  match Document.read text with
  | .error e => (.error (.unreadable e), [])
  | .ok d => d.compileNoting options

/-- Compiles the text of a stored bot into the text of a program. -/
def compileText (options : Options) (text : String) : Except CompileError String :=
  (compileTextNoting options text).1

end BlockBot
