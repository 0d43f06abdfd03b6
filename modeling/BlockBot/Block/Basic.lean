import BlockBot.Json.Value

/-!
# Blocks

A bot is drawn as a tree of blocks. Each block has a kind, an open table of data and, if it is a
control block, a body of further blocks. An id is optional and serves messages only. A kind that is
not known is kept by its name.
-/

namespace BlockBot

open BlockBot.Json

/-- What a block is for. -/
inductive Kind where
  | event
  | reply
  | control
  | setting
  | unknown (name : String)
  deriving DecidableEq, Repr, Inhabited

/-- How a kind is stored. -/
def Kind.name : Kind → String
  | .event => "event"
  | .reply => "reply"
  | .control => "control"
  | .setting => "setting"
  | .unknown name => name

/-- The kind with one of the four known names. -/
def Kind.known? (name : String) : Option Kind :=
  if name = "event" then some .event
  else if name = "reply" then some .reply
  else if name = "control" then some .control
  else if name = "setting" then some .setting
  else none

/-- The kind with a given name; a name that is not known is a kind of its own. -/
def Kind.ofName (name : String) : Kind :=
  (Kind.known? name).getD (.unknown name)

/-- A block with its body. -/
structure Block where
  id : Option String := none
  kind : Kind
  data : Fields := []
  children : List Block := []
  deriving Repr, Inhabited

namespace Block

/-- The block with another id. -/
def withId (b : Block) (id : String) : Block :=
  { b with id := some id }

/-- The block with a value in its data. -/
def withData (b : Block) (key : String) (value : Value) : Block :=
  { b with data := Entries.insert key value b.data }

/-- The block with a text in its data. -/
def withText (b : Block) (key : String) (text : String) : Block :=
  b.withData key (.string text)

/-- The block with another body. -/
def withChildren (b : Block) (children : List Block) : Block :=
  { b with children }

/-- The name of a block in messages. -/
def label (b : Block) : String :=
  b.id.getD "<unnamed>"

mutual

/-- The blocks of a tree, each before its body. -/
def preorder : Block → List Block
  | ⟨id, kind, data, children⟩ => ⟨id, kind, data, children⟩ :: preorderAll children

/-- The blocks of several trees, one tree after the other. -/
def preorderAll : List Block → List Block
  | [] => []
  | b :: bs => b.preorder ++ preorderAll bs

end

mutual

/-- The number of blocks of a tree. -/
def size : Block → Nat
  | ⟨_, _, _, children⟩ => sizeAll children + 1

/-- The number of blocks of several trees. -/
def sizeAll : List Block → Nat
  | [] => 0
  | b :: bs => b.size + sizeAll bs

end

end Block

end BlockBot
