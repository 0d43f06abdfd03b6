import BlockBot.Graph.Basic
import BlockBot.Block.Draft
import BlockBot.Json.Printer

/-!
# Written graphs

Graphs as values of a document, and back. Writing leaves nothing out. A node needs an id and a kind,
and a graph needs its nodes.
-/

namespace BlockBot

open BlockBot.Json

/-! ## Writing -/

/-- A list of texts as a value. -/
def textsValue (texts : List String) : Value :=
  .array (texts.map .string)

/-- A node as a value. -/
def Node.toValue (n : Node) : Value :=
  .object [("id", .string n.id), ("kind", .string n.kind.name), ("data", .object n.data),
    ("children", textsValue n.children)]

/-- A graph as a value. -/
def Graph.toValue (g : Graph) : Value :=
  .object [("roots", textsValue g.roots), ("blocks", .array (g.nodes.map Node.toValue))]

/-- The compact text of a graph. -/
def Graph.text (g : Graph) : String :=
  g.toValue.compact

/-! ## Nodes -/

namespace Node

/-- A node from its fields; the id and the kind are required. -/
def ofDraft (form : RecordForm) (d : Draft String (List String)) : Except Fault Node :=
  match d.id, d.kind with
  | some id, some kind => .ok ⟨id, kind, d.data.getD [], d.children.getD []⟩
  | none, _ =>
    match form with
    | .object => .error (.missingField "id")
    | .list => .error (.tooShort 0 "BlockNode" 4)
  | some _, none =>
    match form with
    | .object => .error (.missingField "kind")
    | .list => .error (.tooShort 1 "BlockNode" 4)

/-- The fields among members, in addition to those met before. -/
def draftOfMembers? :
    List (String × Value) → Draft String (List String) → Option (Draft String (List String))
  | [], d => some d
  | (key, v) :: ms, d => do
    let d ← d.addMember requiredText? key v fun _ => texts? v
    draftOfMembers? ms d

/-- The node that a value describes. -/
def ofValue? : Value → Option Node
  | .object members => (draftOfMembers? members {}).bind fun d => (ofDraft .object d).toOption
  | .array [id, kind] => do
    return ⟨← requiredText? id, ← Kind.ofValue? kind, [], []⟩
  | .array [id, kind, data] => do
    return ⟨← requiredText? id, ← Kind.ofValue? kind, ← fields? data, []⟩
  | .array [id, kind, data, children] => do
    return ⟨← requiredText? id, ← Kind.ofValue? kind, ← fields? data, ← texts? children⟩
  | _ => none

/-- The list of nodes that a value describes. -/
def listOfValue? : Value → Option (List Node)
  | .array items => items.mapM ofValue?
  | _ => none

/-- Reads a node; `levels` more lists and objects may be opened. -/
def reader (size levels : Nat) : Reader Node := fun s => do
  let (form, s) ← openRecord size "struct BlockNode" levels s
  let inner := levels - 1
  let (d, s) ← Draft.read size inner (readString size)
    (readOptionalList (readTexts size inner)) form s
  match ofDraft form d with
  | .ok n => return (n, s)
  | .error fault => failHere fault s

end Node

/-! ## Graphs -/

namespace Graph

/-- The fields of a graph that were met so far. -/
structure Draft where
  roots : Option (List String) := none
  nodes : Option (List Node) := none

/-- A graph from its fields; the nodes are required. -/
def ofDraft (form : RecordForm) (d : Draft) : Except Fault Graph :=
  match d.nodes with
  | some nodes => .ok ⟨d.roots.getD [], nodes⟩
  | none =>
    match form with
    | .object => .error (.missingField "blocks")
    | .list => .error (.tooShort 1 "BlockGraph" 2)

/-- Adds a member of an object. -/
def Draft.addMember (d : Draft) (key : String) (v : Value) : Option Draft :=
  if key = "roots" then
    match d.roots with
    | some _ => none
    | none => (texts? v).map fun roots => { d with roots := some roots }
  else if key = "blocks" then
    match d.nodes with
    | some _ => none
    | none => (Node.listOfValue? v).map fun nodes => { d with nodes := some nodes }
  else some d

/-- The fields among members, in addition to those met before. -/
def draftOfMembers? : List (String × Value) → Draft → Option Draft
  | [], d => some d
  | (key, v) :: ms, d => do
    let d ← d.addMember key v
    draftOfMembers? ms d

/-- The graph that a value describes. -/
def ofValue? : Value → Option Graph
  | .object members => (draftOfMembers? members {}).bind fun d => (ofDraft .object d).toOption
  | .array [roots, nodes] => do
    return ⟨← texts? roots, ← Node.listOfValue? nodes⟩
  | _ => none

/-- Reads a list of nodes. -/
def nodesReader (size levels : Nat) : Reader (List Node) :=
  Json.readList size levels fun levels => Node.reader size levels

/-- Reads the rest of a member after its key. -/
def Draft.readMember (size levels : Nat) (d : Draft) (key : String) : Reader Draft := fun s => do
  if key = "roots" then
    let (roots, s) ← readOnce "roots" d.roots (readOptionalList (readTexts size levels)) s
    return ({ d with roots := some roots }, s)
  else if key = "blocks" then
    let (nodes, s) ← readOnce "blocks" d.nodes (nodesReader size levels) s
    return ({ d with nodes := some nodes }, s)
  else
    let s ← skipUnknown size s
    return (d, s)

/-- Reads the fields in their order, as many as there are. -/
def Draft.readRow (size levels : Nat) : Reader Draft := fun s => do
  let (roots, s) ← readNext true (readOptionalList (readTexts size levels)) s
  let (nodes, s) ← readNext false (nodesReader size levels) s
  let s ← closeList s
  return (⟨roots, nodes⟩, s)

/-- Reads the fields of a graph that was opened. -/
def Draft.read (size levels : Nat) : RecordForm → Reader Draft
  | .list => Draft.readRow size levels
  | .object => readMembers size (Draft.readMember size levels) {}

/-- Reads a graph; `levels` more lists and objects may be opened. -/
def reader (size levels : Nat) : Reader Graph := fun s => do
  let (form, s) ← openRecord size "struct BlockGraph" levels s
  let (d, s) ← Draft.read size (levels - 1) form s
  match ofDraft form d with
  | .ok g => return (g, s)
  | .error fault => failHere fault s

/-- Reads a whole text as a graph. -/
def read (text : String) : Except ReadError Graph :=
  readAll (fun size => reader size maxNesting) text

end Graph

end BlockBot
