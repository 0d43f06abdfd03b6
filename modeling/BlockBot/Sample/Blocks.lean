import BlockBot.Sample.Draw
import BlockBot.Block.Basic
import BlockBot.Block.Tag

/-!
# Sample bots

Random bots to try the compiler on. Every block that is drawn has a known kind and sub-type, so
nothing of it is left out of the program. Branches and loops are nested at most to a given depth.
-/

namespace BlockBot.Sample

open BlockBot.Json Draw

/-- How large a sample is. -/
structure Shape where
  handlers : Nat := 5
  maxActions : Nat := 4
  maxDepth : Nat := 3
  deriving DecidableEq, Repr

/-- Draws an event block. -/
def event : Draw Block := do
  let trigger ← oneOf Trigger.messageText Tagged.all.tail
  let b := Block.withText { kind := .event } "eventType" trigger.tag
  match trigger with
  | .messageText =>
    let mode ← oneOf MatchMode.contains Tagged.all.tail
    let pattern ← oneOf "hello" ["price", "help", "^order\\s+\\d+$", "bye"]
    let caseSensitive ← chance 5
    return ((b.withText "pattern" pattern).withText "matchMode" mode.tag).withData "caseSensitive"
      (.bool caseSensitive)
  | .postback =>
    let n ← between 1 99
    return b.withText "postbackData" ("action=" ++ natText n)
  | _ => return b

/-- The contents of a flexible message. -/
def flexSample : Value :=
  .object [
    ("body", .object [
      ("contents", .array [.object [("text", .string "Generated"), ("type", .string "text")]]),
      ("layout", .string "vertical"),
      ("type", .string "box")]),
    ("type", .string "bubble")]

/-- Draws a reply. -/
def reply : Draw Block := do
  let kind ← oneOf ReplyKind.text Tagged.all.tail
  let b := Block.withText { kind := .reply } "replyType" kind.tag
  match kind with
  | .text =>
    let n ← between 1 999
    return b.withText "content" ("Reply #" ++ natText n)
  | .image => return b.withText "originalContentUrl" "https://example.com/full.jpg"
  | .flex => return b.withData "flexContent" flexSample
  | .sticker =>
    let n ← between 1988 2026
    return (b.withText "packageId" "446").withText "stickerId" (natText n)

/-- Draws a setting. -/
def setting : Draw Block := do
  let kind ← oneOf SettingKind.setVariable Tagged.all.tail
  let name ← oneOf "score" ["stage", "nickname"]
  let b := (Block.withText { kind := .setting } "settingType" kind.tag).withText "variableName" name
  match kind with
  | .setVariable =>
    let n ← between 0 99
    return b.withData "value" (.nat n)
  | _ => return b

/-- Draws a reply or a setting. -/
def leaf : Draw Block := do
  if ← chance 7 then reply else setting

/-- Draws a control block whose body consists of draws of `inner`. -/
def control (maxActions : Nat) (inner : Draw Block) : Draw Block := do
  let kind ← oneOf ControlKind.branch Tagged.all.tail
  let b := Block.withText { kind := .control } "controlType" kind.tag
  match kind with
  | .wait =>
    let n ← between 100 5000
    return b.withData "waitTime" (.nat n)
  | .branch =>
    let subject ← oneOf "message" ["userId"]
    let operator ← oneOf "==" ["!=", "in", "not in"]
    let count ← between 0 maxActions
    let children ← times inner count
    return (((b.withText "conditionType" subject).withText "operator" operator).withText
      "conditionValue" "yes").withChildren children
  | .loop =>
    let n ← between 1 10
    let count ← between 0 maxActions
    let children ← times inner count
    return (b.withData "loopCount" (.nat n)).withChildren children

/-- Draws an action with at most `depth` levels of branches and loops. -/
def action (maxActions : Nat) : (depth : Nat) → Draw Block
  | 0 => leaf
  | depth + 1 => do
    if ← chance 3 then control maxActions (action maxActions depth) else leaf

/-- Draws an event block and its actions. -/
def handler (shape : Shape) : Draw (List Block) := do
  let e ← event
  let count ← between 1 shape.maxActions
  let actions ← times (action shape.maxActions shape.maxDepth) count
  return e :: actions

/-- Draws a bot. -/
def bot (shape : Shape) : Draw (List Block) := do
  let handlers ← times (handler shape) shape.handlers
  return handlers.flatten

/-- The bot that a stream of words gives, from its start. -/
def botOf (shape : Shape) (words : Nat → UInt32) : List Block :=
  ((bot shape).run words |>.run 0).1

end BlockBot.Sample
