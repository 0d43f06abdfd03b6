import BlockBot.Graph.Basic
import BlockBot.Notice
import BlockBot.Error

/-!
# Resolving graphs

A graph is resolved into trees by a walk from its roots, depth first and in the order of the
references. Every node is placed at most once: a later reference to it is skipped, and so is a
reference to no node. A reference back to a node on the current path, or a path that grows beyond
the limit, ends the walk with a failure.

The walk keeps the nodes on the current path and all nodes reached so far. The number of levels that
may still be opened decreases along the path, so the walk ends for every graph and every limit.
-/

namespace BlockBot

/-- The state of a walk through a graph. -/
structure Walk where
  /-- The indices on the current path, the last one first. -/
  path : List Nat := []
  /-- The indices that were placed, the last one first. -/
  reached : List Nat := []
  /-- What was worth telling, the last notice first. -/
  notices : List Notice := []
  deriving Repr

namespace Walk

/-- Adds a notice. -/
def note (w : Walk) (n : Notice) : Walk :=
  { w with notices := n :: w.notices }

/-- Starts with the body of a node. -/
def enter (w : Walk) (i : Nat) : Walk :=
  { w with path := i :: w.path, reached := i :: w.reached }

/-- Ends the body of a node. -/
def leave (w : Walk) (i : Nat) : Walk :=
  { w with path := w.path.erase i }

end Walk

/-- A step of a walk: its result or a failure, and the state after it in both cases. -/
abbrev Step (α : Type) := Walk → Except CompileError α × Walk

namespace Graph

/-- Places the children of a node, in order. -/
def placeChildren (g : Graph) (place : Nat → Step (Option Block)) (parent : String) :
    List String → Step (List Block)
  | [], w => (.ok [], w)
  | id :: ids, w =>
    match g.index? id with
    | none => placeChildren g place parent ids (w.note (.missingChild parent id))
    | some i =>
      match place i w with
      | (.error e, w) => (.error e, w)
      | (.ok child, w) =>
        match placeChildren g place parent ids w with
        | (.error e, w) => (.error e, w)
        | (.ok bs, w) => (.ok (child.toList ++ bs), w)

/-- Places a node with its body, unless it was placed before; `levels` more levels may be opened. -/
def placeWithin (g : Graph) : Nat → Nat → Step (Option Block)
  | levels, i, w =>
    match g.nodes[i]? with
    | none => (.ok none, w)
    | some node =>
      match levels with
      | 0 => (.error (.cyclic node.id w.path.length), w)
      | levels + 1 =>
        if w.path.contains i then (.error (.cyclic node.id w.path.length), w)
        else if w.reached.contains i then (.ok none, w.note (.repeatedReference node.id))
        else
          match placeChildren g (g.placeWithin levels) node.id node.children (w.enter i) with
          | (.error e, w) => (.error e, w)
          | (.ok children, w) =>
            (.ok (some ⟨some node.id, node.kind, node.data, children⟩), w.leave i)

/-- Places a node where a path may have at most `limit` nodes above its end. -/
def place (g : Graph) (limit i : Nat) : Step (Option Block) := fun w =>
  g.placeWithin (limit + 1 - w.path.length) i w

/-- Places several nodes, in order, and keeps those that were not placed before. -/
def placeAll (g : Graph) (limit : Nat) : List Nat → Step (List Block)
  | [], w => (.ok [], w)
  | i :: is, w =>
    match g.place limit i w with
    | (.error e, w) => (.error e, w)
    | (.ok b, w) =>
      match placeAll g limit is w with
      | (.error e, w) => (.error e, w)
      | (.ok bs, w) => (.ok (b.toList ++ bs), w)

/-- Walks through the nodes that were not reached, for the failures they may hold. -/
def checkRest (g : Graph) (limit : Nat) : List Nat → Step Unit
  | [], w => (.ok (), w)
  | i :: is, w =>
    if w.reached.contains i then checkRest g limit is w
    else
      match g.place limit i w with
      | (.error e, w) => (.error e, w)
      | (.ok _, w) => checkRest g limit is w

/-- The indices of the nodes that no node names. -/
def inferredRoots (g : Graph) : List Nat :=
  (List.range g.nodes.length).filter fun i =>
    match g.nodes[i]? with
    | some n => !g.isChildId n.id
    | none => false

/-- The indices of the root nodes. -/
def rootIndices (g : Graph) : List Nat :=
  if g.roots.isEmpty then g.inferredRoots else g.roots.filterMap g.index?

/-- The root ids that name no node, the last one first. -/
def missingRoots (g : Graph) : List Notice :=
  ((g.roots.filter fun id => (g.index? id).isNone).map .missingRoot).reverse

/-- Resolves a graph whose paths may have at most `limit` nodes above their ends. -/
def resolveStep (g : Graph) (limit : Nat) : Step (List Block) := fun w =>
  match g.placeAll limit g.rootIndices w with
  | (.error e, w) => (.error e, w)
  | (.ok bs, w) =>
    if g.roots.isEmpty then
      match g.checkRest limit (List.range g.nodes.length) w with
      | (.error e, w) => (.error e, w)
      | (.ok _, w) => (.ok bs, w)
    else (.ok bs, w)

/-- The trees of a graph, or why there are none, with all notices in their order. -/
def resolveNoting (g : Graph) (limit : Nat) : Except CompileError (List Block) × List Notice :=
  let (result, w) := g.resolveStep limit { notices := g.missingRoots }
  (result, w.notices.reverse)

/-- The trees of a graph, or why there are none. -/
def resolve (g : Graph) (limit : Nat) : Except CompileError (List Block) :=
  (g.resolveNoting limit).1

/-- The deepest nesting if nothing else is said. -/
def defaultLimit : Nat := 256

end Graph

end BlockBot
