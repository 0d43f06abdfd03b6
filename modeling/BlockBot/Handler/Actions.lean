import BlockBot.Handler.Condition
import BlockBot.Block.Basic
import BlockBot.Code.Stmt

/-!
# Statements for blocks

Each block of a handler becomes at most one statement, in the order of the blocks. Replies and
settings are single lines; branches and loops have their children as body. Blocks of unknown kind or
sub-type, and events below the root, are left out together with their children.
-/

namespace BlockBot

open BlockBot.Json BlockBot.Code

/-! ## Replies -/

/-- The contents of a flexible message, in the form in which the editor stored them: a text is
decoded when the program runs. -/
def flexContents : Option Value → String
  | none => "\x7b\x7d"
  | some (.string raw) => "json.loads(" ++ textLiteral raw ++ ")"
  | some other => literal other

/-- The message object of a reply. -/
def replyMessage (kind : ReplyKind) (data : Fields) (options : Options) : String :=
  match kind with
  | .text =>
    "TextSendMessage(text=" ++ textLiteral ((data.text? "content").getD options.defaultText) ++ ")"
  | .image =>
    let placeholder := options.placeholderImageUrl
    "ImageSendMessage(original_content_url="
      ++ textLiteral ((data.text? "originalContentUrl").getD placeholder)
      ++ ", preview_image_url="
      ++ textLiteral ((data.text? "previewImageUrl").getD placeholder) ++ ")"
  | .flex =>
    "FlexSendMessage(alt_text=" ++ textLiteral ((data.text? "altText").getD "Flex Message")
      ++ ", contents=" ++ flexContents (data.value? "flexContent") ++ ")"
  | .sticker =>
    "StickerSendMessage(package_id=" ++ textLiteral ((data.scalar? "packageId").getD "1")
      ++ ", sticker_id=" ++ textLiteral ((data.scalar? "stickerId").getD "1") ++ ")"

/-- The import that a reply needs. -/
def ReplyKind.import? : ReplyKind → Option Import
  | .text => none
  | .image => some .imageMessage
  | .flex => some .flexMessage
  | .sticker => some .stickerMessage

/-- The sub-type of a reply. -/
def replyKind? (data : Fields) : Option ReplyKind :=
  (data.text? "replyType").bind ofTag?

/-- The statement of a reply. -/
def emitReply (label : String) (data : Fields) (s : Session) : List Stmt × Session :=
  match replyKind? data with
  | none => ([], s.note (.unknownReply label))
  | some kind =>
    let s := match kind.import? with
      | some i => s.register i
      | none => s
    ([.line ("reply_messages.append(" ++ replyMessage kind data s.options ++ ")")], s)

/-! ## Settings -/

/-- The sub-type of a setting. -/
def settingKind? (data : Fields) : Option SettingKind :=
  (data.text? "settingType").bind ofTag?

/-- The name of a setting's variable. -/
def variableName (data : Fields) : String :=
  (data.text? "variableName").getD "variable"

/-- A value unless it is `null`. -/
def nonNull? (v : Option Value) : Option Value :=
  v.filter fun v => !v.isNull

/-- Whether a variable is set to the message itself. -/
def takesMessage (data : Fields) : Bool :=
  data.text? "valueSource" == some "message"

/-- The value that a variable is set to. -/
def assignedValue (data : Fields) : Value :=
  (data.value? "value").getD .null

/-- The line that sets a variable. -/
def setLine (data : Fields) : String :=
  "variables[" ++ textLiteral (variableName data) ++ "] = "
    ++ (if takesMessage data then "message" else literal (assignedValue data))

/-- The value for a variable that was never set: the block's own default, or else the value it was
last given. -/
def fallback? (data : Fields) (s : Session) : Option Value :=
  (nonNull? (data.value? "defaultValue")).or (nonNull? (s.lastValue? (variableName data)))

/-- The line that reads a variable. -/
def getLine (data : Fields) (fallback : Option Value) : String :=
  let name := variableName data
  ident name ++ " = variables.get(" ++ textLiteral name
    ++ (match fallback with
      | some v => ", " ++ literal v
      | none => "") ++ ")"

/-- The line that stands for saved data. -/
def saveLine (data : Fields) : String :=
  "pass  # saveUserData(" ++ textLiteral ((data.text? "dataKey").getD (variableName data))
    ++ "): persistence is handled by the host"

/-- The statement of a setting. -/
def emitSetting (label : String) (data : Fields) (s : Session) : List Stmt × Session :=
  match settingKind? data with
  | none => ([], s.note (.unknownSetting label))
  | some .setVariable =>
    ([.line (setLine data)],
      if takesMessage data then s else s.record (variableName data) (assignedValue data))
  | some .getVariable => ([.line (getLine data (fallback? data s))], s)
  | some .saveUserData => ([.line (saveLine data)], s)

/-! ## Control -/

/-- The sub-type of a control block. -/
def controlKind? (data : Fields) : Option ControlKind :=
  (data.text? "controlType").bind ofTag?

/-- How often a loop runs. -/
def loopCount (data : Fields) : Nat :=
  (data.count? "loopCount").getD 5

/-- The line that waits. -/
def waitLine (data : Fields) : String :=
  "time.sleep(" ++ Decimal.seconds ((data.count? "waitTime").getD 1000) ++ ")"

/-- Emits the body of a block, one level deeper. The level is left again also after a failure. -/
def emitBody (label : String) (inner : Emit (List Stmt)) : Emit (List Stmt) := fun s =>
  match s.enter label with
  | .error e => (.error e, s)
  | .ok s =>
    let (result, s) := inner s
    (result, s.leave)

mutual

/-- Emits a block. -/
def emitBlock : Block → Emit (List Stmt)
  | ⟨id, kind, data, children⟩, s =>
    let label := (Block.mk id kind data children).label
    match kind with
    | .reply =>
      let (stmts, s) := emitReply label data s
      (.ok stmts, s)
    | .setting =>
      let (stmts, s) := emitSetting label data s
      (.ok stmts, s)
    | .event => (.ok [], s.note (.nestedEvent label))
    | .unknown name => (.ok [], s.note (.unknownKind label name))
    | .control =>
      match controlKind? data with
      | none => (.ok [], s.note (.unknownControl label))
      | some .wait => (.ok [.line (waitLine data)], s.register .time)
      | some .branch =>
        let (result, s) := emitBody label (emitBlocks children) s
        (result.map fun stmts => [.branch (branchCondition data) stmts], s)
      | some .loop =>
        let (result, s) := emitBody label (emitBlocks children) s
        (result.map fun stmts => [.loop (loopCount data) stmts], s)

/-- Emits blocks in their order, up to the first failure. -/
def emitBlocks : List Block → Emit (List Stmt)
  | [], s => (.ok [], s)
  | b :: bs, s =>
    match emitBlock b s with
    | (.error e, s) => (.error e, s)
    | (.ok first, s) =>
      match emitBlocks bs s with
      | (.error e, s) => (.error e, s)
      | (.ok rest, s) => (.ok (first ++ rest), s)

end

end BlockBot
