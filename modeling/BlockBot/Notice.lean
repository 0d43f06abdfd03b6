import BlockBot.Json.Value
import BlockBot.Code.Import

/-!
# Notices

What is worth telling about a run that goes on: references that lead nowhere, blocks that are left
out, and the progress of the work. Notices never change the program that is written.
-/

namespace BlockBot

open BlockBot.Json

/-- How important a notice is. -/
inductive Level where
  | debug
  | info
  | warn
  deriving DecidableEq, Repr

/-- How a level is shown. -/
def Level.name : Level → String
  | .debug => "DEBUG"
  | .info => "INFO"
  | .warn => "WARN"

/-- An event of a run. Blocks appear by their id or label. -/
inductive Notice where
  | missingRoot (id : String)
  | repeatedReference (id : String)
  | missingChild (id child : String)
  | unknownTrigger (label : String)
  | unknownRootKind (label kind : String)
  | outsideHandler (label : String)
  | nestedEvent (label : String)
  | unknownKind (label kind : String)
  | unknownReply (label : String)
  | unknownSetting (label : String)
  | unknownControl (label : String)
  | registered (item : Import)
  | routed (roots handlers : Nat)
  | emitting (function : String) (actions : Nat)
  | collected (imports : Nat)
  deriving DecidableEq, Repr

namespace Notice

/-- The importance of a notice. -/
def level : Notice → Level
  | .missingRoot _ | .repeatedReference _ | .missingChild _ _ => .warn
  | .routed _ _ => .info
  | _ => .debug

/-- A text between single quotes. -/
def quoted (s : String) : String :=
  "'" ++ s ++ "'"

/-- The wording of a notice. -/
def message : Notice → String
  | .missingRoot id => "Root block " ++ quoted id ++ " not found in graph, skipping"
  | .repeatedReference id =>
    "Block " ++ quoted id ++ " is referenced more than once, skipping the repeat"
  | .missingChild id child =>
    "Block " ++ quoted id ++ " references missing child " ++ quoted child ++ ", skipping"
  | .unknownTrigger label => "Skipping event block " ++ quoted label ++ " with unknown event type"
  | .unknownRootKind label kind =>
    "Skipping root block " ++ quoted label ++ " of unknown kind " ++ quoted kind
  | .outsideHandler label => "Dropping block " ++ quoted label ++ " outside of any event handler"
  | .nestedEvent label => "Skipping nested event block " ++ quoted label
  | .unknownKind label kind =>
    "Skipping block " ++ quoted label ++ " of unknown kind " ++ quoted kind
  | .unknownReply label => "Skipping reply block " ++ quoted label ++ " with unknown reply type"
  | .unknownSetting label =>
    "Skipping setting block " ++ quoted label ++ " with unknown setting type"
  | .unknownControl label =>
    "Skipping control block " ++ quoted label ++ " with unknown control type"
  | .registered item => "Registered import " ++ quoted item.statement
  | .routed roots handlers =>
    "Compiling " ++ natText roots ++ " root blocks into " ++ natText handlers ++ " event handlers"
  | .emitting function actions =>
    "Emitting handler " ++ quoted function ++ " with " ++ natText actions ++ " actions"
  | .collected imports => "Collected " ++ natText imports ++ " unique imports"

/-- A line of a log. -/
def line (n : Notice) : String :=
  n.level.name ++ " " ++ n.message

end Notice

end BlockBot
