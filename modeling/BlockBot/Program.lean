import BlockBot.Handler.Basic
import BlockBot.Handler.Actions

/-!
# Programs

A program is a fixed beginning, the imports that its handlers ask for, one section per handler, and
a fixed end. The fixed parts are written with four spaces per level and rescaled to the unit of the
options. Sections are joined as text and never looked at again.
-/

namespace BlockBot

open BlockBot.Json BlockBot.Code BlockBot.Text

/-! ## Fixed parts -/

/-- The beginning: the webhook, the check of signatures, the registry of handlers and the reply to
an event. -/
def preamble : String :=
  textOfLines
  ["# Generated by botgen. Do not edit by hand.",
   "import os",
   "import json",
   "",
   "from flask import Flask, request, abort",
   "from linebot import LineBotApi, WebhookParser",
   "from linebot.exceptions import InvalidSignatureError",
   "from linebot.models import TextSendMessage",
   "",
   "app = Flask(__name__)",
   "line_bot_api = LineBotApi(os.environ.get(\"LINE_CHANNEL_ACCESS_TOKEN\", \"\"))",
   "parser = WebhookParser(os.environ.get(\"LINE_CHANNEL_SECRET\", \"\"))",
   "",
   "user_variables = \x7b\x7d",
   "HANDLERS = \x7b\x7d",
   "",
   "",
   "def on(trigger):",
   "    def register(func):",
   "        HANDLERS.setdefault(trigger, []).append(func)",
   "        return func",
   "    return register",
   "",
   "",
   "def trigger_of(event):",
   "    if event.type == \"message\":",
   "        return \"message.\" + event.message.type",
   "    return event.type",
   "",
   "",
   "def message_text(event):",
   "    return getattr(getattr(event, \"message\", None), \"text\", None) or \"\"",
   "",
   "",
   "def sender_id(event):",
   "    return getattr(getattr(event, \"source\", None), \"user_id\", None) or \"\"",
   "",
   "",
   "def postback_payload(event):",
   "    return getattr(getattr(event, \"postback\", None), \"data\", None) or \"\"",
   "",
   "",
   "@app.route(\"/callback\", methods=[\"POST\"])",
   "def callback():",
   "    signature = request.headers.get(\"X-Line-Signature\", \"\")",
   "    body = request.get_data(as_text=True)",
   "    try:",
   "        events = parser.parse(body, signature)",
   "    except InvalidSignatureError:",
   "        abort(400)",
   "    for event in events:",
   "        reply_messages = []",
   "        for handle in HANDLERS.get(trigger_of(event), []):",
   "            handle(event, reply_messages)",
   "        reply_token = getattr(event, \"reply_token\", None)",
   "        if reply_messages and reply_token:",
   "            line_bot_api.reply_message(reply_token, reply_messages[:5])",
   "    return \"OK\""]

/-- The line above the imports. -/
def importsHeader : String := "# Imports required by the blocks below"

/-- The end: the server, on a port from the environment or the given one. -/
def epilogue (port : Nat) : String :=
  textOfLines
  ["if __name__ == \"__main__\":",
   "    port = int(os.environ.get(\"PORT\", " ++ natText port ++ "))",
   "    app.run(host=\"0.0.0.0\", port=port)"]

/-! ## Sections -/

/-- What every handler does first. -/
def prologue : List Stmt :=
  [.line "message = message_text(event)",
   .line "user_id = sender_id(event)",
   .line "postback_data = postback_payload(event)",
   .line "variables = user_variables.setdefault(user_id, \x7b\x7d)"]

/-- The statements of a handler's function, for the statements of its actions. -/
def Handler.stmts (h : Handler) (actions : List Stmt) : List Stmt :=
  prologue ++ (match h.guard with
    | some condition => [.guard condition actions]
    | none => actions)

/-- The lines above the body of a handler's function. -/
def Handler.headLines (h : Handler) : List String :=
  ["# Event handler " ++ natText h.index ++ ": " ++ h.trigger.tag,
   "@on(\"" ++ h.trigger.tag ++ "\")",
   "def " ++ h.functionName ++ "(event, reply_messages):"]

/-- The lines of a handler's section. -/
def Handler.lines (h : Handler) (unit : String) (actions : List Stmt) : List String :=
  h.headLines ++ indent unit (Stmt.linesOfAll unit (h.stmts actions))

/-- The text of a handler's section. -/
def Handler.sectionText (h : Handler) (unit : String) (actions : List Stmt) : String :=
  textOfLines (h.lines unit actions)

/-- Emits the statements of each handler's actions, up to the first failure. -/
def emitHandlers : List Handler → Emit (List (Handler × List Stmt))
  | [], s => (.ok [], s)
  | h :: hs, s =>
    match emitBlocks h.actions (s.note (.emitting h.functionName h.actions.length)) with
    | (.error e, s) => (.error e, s)
    | (.ok stmts, s) =>
      match emitHandlers hs s with
      | (.error e, s) => (.error e, s)
      | (.ok rest, s) => (.ok ((h, stmts) :: rest), s)

/-! ## Compilation -/

/-- The text of a program with given imports and sections. -/
def assemble (options : Options) (statements sections : List String) : String :=
  reindent options.unit preamble
    ++ "\n\n" ++ textOfLines (importsHeader :: statements)
    ++ String.join (sections.map ("\n\n" ++ ·))
    ++ "\n\n" ++ reindent options.unit (epilogue options.port)

/-- The emitted handlers of a list of root blocks. -/
def emitProgram (blocks : List Block) : Emit (List (Handler × List Stmt)) := fun s =>
  let (handlers, s) := route blocks s
  emitHandlers handlers (s.note (.routed blocks.length handlers.length))

/-- The sections of emitted handlers. -/
def sectionsOf (options : Options) (handlers : List (Handler × List Stmt)) : List String :=
  handlers.map fun p => p.1.sectionText options.unit p.2

/-- Compiles a list of root blocks; all notices in their order. -/
def compileNoting (options : Options) (blocks : List Block) :
    Except CompileError String × List Notice :=
  match emitProgram blocks (.new options) with
  | (.error e, s) => (.error e, s.notices.reverse)
  | (.ok handlers, s) =>
    (.ok (assemble options s.statements (sectionsOf options handlers)),
      (s.note (.collected s.imports.length)).notices.reverse)

/-- Compiles a list of root blocks into the text of a program. -/
def compile (options : Options) (blocks : List Block) : Except CompileError String :=
  (compileNoting options blocks).1

end BlockBot
