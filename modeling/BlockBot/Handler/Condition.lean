import BlockBot.Session
import BlockBot.Block.Data
import BlockBot.Code.Literal

/-!
# Conditions

Expressions that guard a handler or a branch. A text trigger compares the message with a pattern; a
postback trigger compares the payload. A branch has a structured predicate, or an expression of the
author's own, which is taken as it is.
-/

namespace BlockBot

open BlockBot.Json BlockBot.Text

/-- A text as a literal. -/
abbrev textLiteral (s : String) : String := quote s

/-! ## Guards of handlers -/

/-- The guard of a handler for texts that match a pattern. Without regard to case both sides are put
into lower case. -/
def patternGuard (pattern : String) (mode : MatchMode) (caseSensitive : Bool) : String :=
  let p := textLiteral pattern
  match mode, caseSensitive with
  | .contains, true => p ++ " in message"
  | .contains, false => p ++ ".lower() in message.lower()"
  | .exact, true => "message == " ++ p
  | .exact, false => "message.lower() == " ++ p ++ ".lower()"
  | .startsWith, true => "message.startswith(" ++ p ++ ")"
  | .startsWith, false => "message.lower().startswith(" ++ p ++ ".lower())"
  | .endsWith, true => "message.endswith(" ++ p ++ ")"
  | .endsWith, false => "message.lower().endswith(" ++ p ++ ".lower())"
  | .regex, true => "re.search(" ++ p ++ ", message)"
  | .regex, false => "re.search(" ++ p ++ ", message, re.IGNORECASE)"

/-- Asks for what a pattern needs. -/
def registerPattern (mode : MatchMode) (s : Session) : Session :=
  match mode with
  | .regex => s.register .regex
  | _ => s

/-- The guard of a handler for one payload. -/
def postbackGuard (payload : String) : String :=
  "postback_data == " ++ textLiteral payload

/-! ## Conditions of branches -/

/-- A comparison of a subject with a text. -/
structure Predicate where
  subject : Subject
  operator : String
  value : String
  deriving DecidableEq, Repr

namespace Predicate

/-- An operator with single spaces between its words; the joined spellings of `not in` are
undone. -/
def normalOperator (operator : String) : String :=
  let t := trim operator
  if t = "notIn" || t = "not_in" then "not in" else " ".intercalate (words t)

/-- A predicate from its parts, where a missing or unknown subject is the message, a missing
operator is equality and a missing value is the empty text. -/
def ofParts (subject operator value : Option String) : Predicate where
  subject := (subject.bind ofTag?).getD .message
  operator := normalOperator (operator.getD "==")
  value := value.getD ""

/-- The predicate of a block: in an object of its own, or in fields of the block. -/
def ofData? (data : Fields) : Option Predicate :=
  match data.value? "condition" with
  | some (.object nested) =>
    let nested : Fields := nested
    some (ofParts ((nested.text? "type").or (nested.text? "conditionType"))
      (nested.text? "operator") (nested.scalar? "value"))
  | _ =>
    (data.text? "conditionType").map fun subject =>
      ofParts (some subject) (data.text? "operator")
        ((data.scalar? "conditionValue").or (data.scalar? "value"))

/-- The expression for the subject. A variable is its own name, as it stands in the value. -/
def subjectText (p : Predicate) : String :=
  match p.subject with
  | .message => "message"
  | .userId => "user_id"
  | .rawVariable => if isBlankText p.value then textLiteral p.value else trim p.value

/-- The expression for a predicate; membership has the text on the left. -/
def render (p : Predicate) : String :=
  if p.operator = "in" || p.operator = "not in" then
    textLiteral p.value ++ " " ++ p.operator ++ " " ++ p.subjectText
  else p.subjectText ++ " " ++ p.operator ++ " " ++ textLiteral p.value

end Predicate

/-- The condition of a branch. An expression of the author's own wins over fields whose subject is
not known. -/
def branchCondition (data : Fields) : String :=
  let known := ((data.text? "conditionType").bind (ofTag? : String → Option Subject)).isSome
  match (if known then none else data.text? "condition") with
  | some raw => raw
  | none =>
    match Predicate.ofData? data with
    | some p => p.render
    | none => "True"

end BlockBot
