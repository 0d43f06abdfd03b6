/-!
# Indented lines

Lines of a program are kept without their line ends. `indent` moves lines one unit deeper, `body`
does the same for the lines under a header and never returns nothing, and `reindent` rescales a text
that was written with four spaces per level. `rescale` is the general way to do the latter, line by
line; a unit of four spaces needs no work.
-/

namespace BlockBot.Text

/-- The statement that stands where a body would be empty. -/
def placeholder : String := "pass"

/-- Moves every line one unit deeper; an empty line stays empty. -/
def indent (unit : String) (lines : List String) : List String :=
  lines.map fun line => if line.isEmpty then line else unit ++ line

/-- The lines under a header: one unit deeper, and a placeholder if there are none. -/
def body (unit : String) (lines : List String) : List String :=
  if lines.isEmpty then indent unit [placeholder] else indent unit lines

/-- Cuts a text just after each line feed; `line` is the line being read, last character first. -/
def linesAux (line : List Char) : List Char → List (List Char)
  | [] => if line.isEmpty then [] else [line.reverse]
  | c :: cs => if c = '\n' then (c :: line).reverse :: linesAux [] cs else linesAux (c :: line) cs

/-- The lines of a text, each with its line feed; the last one may lack it. -/
def linesOf (cs : List Char) : List (List Char) :=
  linesAux [] cs

/-- Four spaces make one level of a template. -/
def templateWidth : Nat := 4

/-- One line of a template with each group of four leading spaces replaced by a unit; spaces left
over are lost. -/
def rescaleLine (unit line : List Char) : List Char :=
  let levels := (line.takeWhile (· == ' ')).length / templateWidth
  (List.replicate levels unit).flatten ++ line.dropWhile (· == ' ')

/-- Rescales every line of a template. -/
def rescale (unit template : String) : String :=
  String.ofList ((linesOf template.toList).flatMap (rescaleLine unit.toList))

/-- A template in the given unit. -/
def reindent (unit template : String) : String :=
  if unit = "    " then template else rescale unit template

end BlockBot.Text
