import BlockBot.Block.Draft
import BlockBot.Json.Printer

/-!
# Written blocks

Blocks as values of a document, and back. Writing leaves out an id that is missing and a body that
is empty. Reading is done in two ways, from a value and from the text; the second stops at the first
fault, and it passes over members that have no meaning without checking more than their grammar.
-/

namespace BlockBot

open BlockBot.Json

namespace Block

/-! ## Writing -/

mutual

/-- A block as a value. -/
def toValue : Block → Value
  | ⟨id, kind, data, children⟩ =>
    .object ((id.map fun id => ("id", Value.string id)).toList
      ++ [("kind", .string kind.name), ("data", .object data)]
      ++ (if children.isEmpty then [] else [("children", .array (toValues children))]))

/-- Blocks as values. -/
def toValues : List Block → List Value
  | [] => []
  | b :: bs => b.toValue :: toValues bs

end

/-- The compact text of a list of blocks. -/
def listText (blocks : List Block) : String :=
  (Value.array (toValues blocks)).compact

/-! ## Reading values -/

/-- A block from its fields; only the kind is required. -/
def ofDraft (form : RecordForm) (d : Draft (Option String) (List Block)) : Except Fault Block :=
  match d.kind with
  | some kind => .ok ⟨d.id.getD none, kind, d.data.getD [], d.children.getD []⟩
  | none =>
    match form with
    | .object => .error (.missingField "kind")
    | .list => .error (.tooShort 1 "Block" 4)

mutual

/-- The block that a value describes. -/
def ofValue? : Value → Option Block
  | .object members => (draftOfMembers? members {}).bind fun d => (ofDraft .object d).toOption
  | .array [id, kind] => do
    return ⟨← optionalText? id, ← Kind.ofValue? kind, [], []⟩
  | .array [id, kind, data] => do
    return ⟨← optionalText? id, ← Kind.ofValue? kind, ← fields? data, []⟩
  | .array [id, kind, data, children] => do
    return ⟨← optionalText? id, ← Kind.ofValue? kind, ← fields? data, ← bodyOfValue? children⟩
  | _ => none

/-- The fields among members, in addition to those met before. -/
def draftOfMembers? : List (String × Value) → Draft (Option String) (List Block) →
    Option (Draft (Option String) (List Block))
  | [], d => some d
  | (key, v) :: ms, d => do
    let d ← d.addMember optionalText? key v fun _ => bodyOfValue? v
    draftOfMembers? ms d

/-- The body that a value describes; `null` is an empty body. -/
def bodyOfValue? : Value → Option (List Block)
  | .null => some []
  | .array items => ofItems? items
  | _ => none

/-- The blocks that a list of values describes. -/
def ofItems? : List Value → Option (List Block)
  | [] => some []
  | v :: vs => do
    return (← ofValue? v) :: (← ofItems? vs)

end

/-- The list of blocks that a value describes. -/
def listOfValue? : Value → Option (List Block)
  | .array items => ofItems? items
  | _ => none

/-! ## Reading texts -/

mutual

/-- Reads a block; `levels` more lists and objects may be opened. -/
def reader (size : Nat) : Nat → Reader Block
  | 0, s => do
    let (_, s) ← openRecord size "struct Block" 0 s
    failHere .tooDeep s
  | levels + 1, s => do
    let (form, s) ← openRecord size "struct Block" (levels + 1) s
    let readBody := readOptionalList (listReader size levels)
    let (d, s) ← Draft.read size levels (readNullable (readString size)) readBody form s
    match ofDraft form d with
    | .ok b => return (b, s)
    | .error fault => failHere fault s

/-- Reads a list of blocks. -/
def listReader (size : Nat) : Nat → Reader (List Block)
  | 0, s => readList size 0 (fun _ s => failHere .tooDeep s) s
  | levels + 1, s => readList size (levels + 1) (fun _ => reader size levels) s

end

/-- Reads a whole text as a list of blocks. -/
def readList (text : String) : Except ReadError (List Block) :=
  readAll (fun size => listReader size maxNesting) text

end Block

end BlockBot
