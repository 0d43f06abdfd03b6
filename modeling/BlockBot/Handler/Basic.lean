import BlockBot.Handler.Condition
import BlockBot.Block.Basic

/-!
# Handlers

A handler answers one trigger. Root blocks are dealt out in their order: an event block with a known
trigger opens a handler, an event block without one closes it, and the other blocks go to the
handler that is open. Blocks without an open handler are dropped.
-/

namespace BlockBot

open BlockBot.Json

/-- What is done on a trigger. -/
structure Handler where
  /-- The position among the handlers, counting from one. -/
  index : Nat
  trigger : Trigger
  /-- A condition on the whole handler. -/
  guard : Option String
  actions : List Block
  deriving Repr

namespace Handler

/-- The name of the handler's function. -/
def functionName (h : Handler) : String :=
  "handle_" ++ h.trigger.ident ++ "_" ++ natText h.index

/-- The handler with one more action. -/
def addAction (h : Handler) (b : Block) : Handler :=
  { h with actions := h.actions ++ [b] }

/-- The pattern of a text trigger with the way to compare. -/
def pattern? (data : Fields) : Option (String × MatchMode × Bool) :=
  (data.text? "pattern").map fun pattern =>
    (pattern, ((data.text? "matchMode").bind ofTag?).getD .contains,
      (data.flag? "caseSensitive").getD false)

/-- The payload of a postback trigger. -/
def payload? (data : Fields) : Option String :=
  (data.text? "postbackData").or (data.text? "data")

/-- The guard that an event block asks for. -/
def guardOf (trigger : Trigger) (data : Fields) (s : Session) : Option String × Session :=
  match trigger with
  | .messageText =>
    match pattern? data with
    | some (pattern, mode, caseSensitive) =>
      (some (patternGuard pattern mode caseSensitive), registerPattern mode s)
    | none => (none, s)
  | .postback => ((payload? data).map postbackGuard, s)
  | _ => (none, s)

end Handler

/-- The handlers so far, the last one first, and whether the last one is open. -/
structure Routing where
  handlers : List Handler := []
  isOpen : Bool := false
  session : Session
  deriving Repr

namespace Routing

/-- The trigger of an event block. -/
def triggerOf? (options : Options) (b : Block) : Option Trigger :=
  (b.data.text? "eventType").bind options.trigger?

/-- Opens a handler. -/
def openHandler (r : Routing) (trigger : Trigger) (data : Fields) : Routing :=
  let (guard, session) := Handler.guardOf trigger data r.session
  { handlers := ⟨r.handlers.length + 1, trigger, guard, []⟩ :: r.handlers, isOpen := true, session }

/-- Adds a block to the open handler, or drops it. -/
def addAction (r : Routing) (b : Block) : Routing :=
  match r.handlers, r.isOpen with
  | h :: hs, true => { r with handlers := h.addAction b :: hs }
  | _, _ => { r with session := r.session.note (.outsideHandler b.label) }

/-- Deals out one root block. -/
def add (r : Routing) (b : Block) : Routing :=
  match b.kind with
  | .event =>
    match triggerOf? r.session.options b with
    | some trigger => r.openHandler trigger b.data
    | none => { r with isOpen := false, session := r.session.note (.unknownTrigger b.label) }
  | .unknown kind => { r with session := r.session.note (.unknownRootKind b.label kind) }
  | _ => r.addAction b

end Routing

/-- The handlers of a list of root blocks, in their order. -/
def route (blocks : List Block) (s : Session) : List Handler × Session :=
  let r := blocks.foldl Routing.add { session := s }
  (r.handlers.reverse, r.session)

end BlockBot
