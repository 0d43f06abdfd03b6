import BlockBot.Block.Basic

/-!
# Graphs of blocks

The flat form of a bot: an arena of nodes that name their children by id. Several nodes may share an
id; the last of them is meant by it. `flatten` writes a tree in this form, with fresh ids in the
order of its blocks.
-/

namespace BlockBot

open BlockBot.Json

/-- A block whose body is a list of ids. -/
structure Node where
  id : String
  kind : Kind
  data : Fields := []
  children : List String := []
  deriving Repr, Inhabited

/-- An arena of nodes and the ids of the root nodes. Without root ids, every node that no node names
is a root. -/
structure Graph where
  roots : List String := []
  nodes : List Node := []
  deriving Repr, Inhabited

namespace Graph

/-- The index of the last node with an id, counting from `i`. -/
def lastIndex? (id : String) (i : Nat) : List Node → Option Nat
  | [] => none
  | n :: ns =>
    match lastIndex? id (i + 1) ns with
    | some j => some j
    | none => if n.id = id then some i else none

/-- The node that an id names. -/
def index? (g : Graph) (id : String) : Option Nat :=
  lastIndex? id 0 g.nodes

/-- Whether some node has a child of that name. -/
def isChildId (g : Graph) (id : String) : Bool :=
  g.nodes.any fun n => n.children.contains id

/-! ## Flattening -/

/-- The id of the block at a position, counting from zero. -/
def freshId (position : Nat) : String :=
  "b" ++ natText (position + 1)

/-- The ids of neighbouring trees, the first of which starts at a position. -/
def freshIds (position : Nat) : List Block → List String
  | [] => []
  | b :: bs => freshId position :: freshIds (position + b.size) bs

mutual

/-- The nodes of a tree that starts at a position. -/
def nodesOf (position : Nat) : Block → List Node
  | ⟨_, kind, data, children⟩ =>
    ⟨freshId position, kind, data, freshIds (position + 1) children⟩ ::
      nodesOfAll (position + 1) children

/-- The nodes of neighbouring trees, the first of which starts at a position. -/
def nodesOfAll (position : Nat) : List Block → List Node
  | [] => []
  | b :: bs => nodesOf position b ++ nodesOfAll (position + b.size) bs

end

/-- The flat form of a list of trees. -/
def flatten (blocks : List Block) : Graph :=
  ⟨freshIds 0 blocks, nodesOfAll 0 blocks⟩

end Graph

end BlockBot
