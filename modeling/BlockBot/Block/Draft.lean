import BlockBot.Block.Basic
import BlockBot.Json.Typed

/-!
# Half-read blocks

Blocks and nodes of a graph are written with the same four fields; they differ in the type of the id
and of the body. A `Draft` holds the fields that were met so far. It is filled from the text
directly, or from a value that was read before. A field may be written once; the kind may be called
`type`; other members are passed over.
-/

namespace BlockBot

open BlockBot.Json

/-- The fields of a block, with an id in `ι` and a body in `κ`. -/
structure Draft (ι κ : Type) where
  id : Option ι := none
  kind : Option Kind := none
  data : Option Fields := none
  children : Option κ := none

/-- The names of the fields. -/
inductive BlockField where
  | id
  | kind
  | data
  | children
  deriving DecidableEq, Repr

/-- The field that a key names. -/
def BlockField.ofKey? (key : String) : Option BlockField :=
  if key = "id" then some .id
  else if key = "kind" || key = "type" then some .kind
  else if key = "data" then some .data
  else if key = "children" then some .children
  else none

/-! ## Single fields of a value -/

/-- A kind: a text, or an object with one known name and no value for it. -/
def Kind.ofValue? : Value → Option Kind
  | .string s => some (Kind.ofName s)
  | .object [(name, .null)] => Kind.known? name
  | _ => none

/-- An optional text. -/
def optionalText? : Value → Option (Option String)
  | .null => some none
  | .string s => some (some s)
  | _ => none

/-- A text. -/
def requiredText? : Value → Option String
  | .string s => some s
  | _ => none

/-- A table of data, empty if it is `null`. -/
def fields? : Value → Option Fields
  | .null => some []
  | .object members => some (Value.canonicalMembers members)
  | _ => none

/-- A list of texts, empty if it is `null`. -/
def texts? : Value → Option (List String)
  | .null => some []
  | .array items => items.mapM requiredText?
  | _ => none

/-! ## Reading fields from the text -/

/-- Reads a kind. Its value is read as a whole before it is judged. -/
def readKind (size levels : Nat) : Reader Kind := fun s => do
  let (v, s) ← readValue size levels s
  match Kind.ofValue? v with
  | some kind => return (kind, s)
  | none => failHere (.noAlternative "BlockKind") s

/-- Reads a table of data, empty if it is `null`. -/
def readData (size levels : Nat) : Reader Fields := fun s => do
  let (data, s) ← readNullable (readFields size levels) s
  return (data.getD [], s)

/-- Reads a list, empty if it is `null`. -/
def readOptionalList {α : Type} (reader : Reader (List α)) : Reader (List α) := fun s => do
  let (xs, s) ← readNullable reader s
  return (xs.getD [], s)

/-- Reads a list of texts. -/
def readTexts (size levels : Nat) : Reader (List String) :=
  readList size levels fun _ => readString size

namespace Draft

variable {ι κ : Type}

/-- Reads the rest of a member after its key. -/
def readMember (size levels : Nat) (readId : Reader ι) (readChildren : Reader κ) (d : Draft ι κ)
    (key : String) :
    Reader (Draft ι κ) := fun s => do
  match BlockField.ofKey? key with
  | some .id =>
    let (id, s) ← readOnce "id" d.id readId s
    return ({ d with id := some id }, s)
  | some .kind =>
    let (kind, s) ← readOnce "kind" d.kind (readKind size levels) s
    return ({ d with kind := some kind }, s)
  | some .data =>
    let (data, s) ← readOnce "data" d.data (readData size levels) s
    return ({ d with data := some data }, s)
  | some .children =>
    let (children, s) ← readOnce "children" d.children readChildren s
    return ({ d with children := some children }, s)
  | none =>
    let s ← skipUnknown size s
    return (d, s)

/-- Reads the fields in their order, as many as there are. -/
def readRow (size levels : Nat) (readId : Reader ι) (readChildren : Reader κ) :
    Reader (Draft ι κ) := fun s => do
  let (id, s) ← readNext true readId s
  let (kind, s) ← readNext false (readKind size levels) s
  let (data, s) ← readNext false (readData size levels) s
  let (children, s) ← readNext false readChildren s
  let s ← closeList s
  return (⟨id, kind, data, children⟩, s)

/-- Reads the fields of a record that was opened. -/
def read (size levels : Nat) (readId : Reader ι) (readChildren : Reader κ) :
    RecordForm → Reader (Draft ι κ)
  | .list => readRow size levels readId readChildren
  | .object => readMembers size (readMember size levels readId readChildren) {}

/-! ## Fields of a value -/

/-- Puts a field where there was none. -/
def setOnce {α : Type} (earlier new : Option α) (put : α → Draft ι κ) : Option (Draft ι κ) :=
  match earlier with
  | some _ => none
  | none => new.map put

/-- Adds a member of an object; `children` is its value as a body. -/
def addMember (id? : Value → Option ι) (d : Draft ι κ) (key : String) (v : Value)
    (children : Unit → Option κ) :
    Option (Draft ι κ) :=
  match BlockField.ofKey? key with
  | some .id => setOnce d.id (id? v) fun id => { d with id := some id }
  | some .kind => setOnce d.kind (Kind.ofValue? v) fun kind => { d with kind := some kind }
  | some .data => setOnce d.data (fields? v) fun data => { d with data := some data }
  | some .children =>
    setOnce d.children (children ()) fun children => { d with children := some children }
  | none => some d

end Draft

end BlockBot
