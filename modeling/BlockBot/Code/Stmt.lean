import BlockBot.Json.Value
import BlockBot.Text.Layout

/-!
# Statements of a program

The code of a handler as a tree. A statement of one line stands for itself; the others have a body,
which is written one level deeper and is never left empty. A branch always has an alternative that
does nothing, a guard has none.
-/

namespace BlockBot.Code

open BlockBot.Json BlockBot.Text

/-- A statement. -/
inductive Stmt where
  | line (text : String)
  | guard (condition : String) (body : List Stmt)
  | branch (condition : String) (body : List Stmt)
  | loop (count : Nat) (body : List Stmt)
  deriving Repr, Inhabited

/-- The first line of a conditional statement. -/
def ifHeader (condition : String) : String :=
  "if " ++ condition ++ ":"

/-- The first line of a loop. -/
def loopHeader (count : Nat) : String :=
  "for _ in range(" ++ natText count ++ "):"

/-- The first line of an alternative. -/
def elseHeader : String := "else:"

namespace Stmt

mutual

/-- The lines of a statement. -/
def lines (unit : String) : Stmt → List String
  | .line text => [text]
  | .guard condition stmts => ifHeader condition :: body unit (linesOfAll unit stmts)
  | .branch condition stmts =>
    ifHeader condition :: body unit (linesOfAll unit stmts) ++ elseHeader :: body unit [placeholder]
  | .loop count stmts => loopHeader count :: body unit (linesOfAll unit stmts)

/-- The lines of several statements. -/
def linesOfAll (unit : String) : List Stmt → List String
  | [] => []
  | s :: ss => s.lines unit ++ linesOfAll unit ss

end

end Stmt

/-- A text of lines, each with its line feed. -/
def textOfLines (lines : List String) : String :=
  String.join (lines.map (· ++ "\n"))

end BlockBot.Code
