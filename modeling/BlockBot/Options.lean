import BlockBot.Block.Tag
import BlockBot.Json.Typed

/-!
# Options of the compiler

Everything that can be set about a compilation. Every option has a default, so a document with
options only names what it changes. An alias maps a foreign event name to the tag of a trigger; it
is asked only for names that are no tags themselves, and only once.
-/

namespace BlockBot

open BlockBot.Json

/-- The options of a compilation. -/
structure Options where
  /-- Spaces per level of indentation; zero counts as one. -/
  indentWidth : Nat := 4
  /-- The deepest nesting of a program. -/
  maxDepth : Nat := 256
  /-- The text of a reply without content. -/
  defaultText : String := "Hello!"
  /-- The address of an image that is missing. -/
  placeholderImageUrl : String := "https://example.com/image.png"
  /-- The port that the program listens on if its environment names none. -/
  port : Nat := 5000
  /-- Foreign event names. -/
  eventAliases : Entries String := []
  deriving DecidableEq, Repr

namespace Options

/-- One level of indentation. -/
def unit (o : Options) : String :=
  String.ofList (List.replicate (max o.indentWidth 1) ' ')

/-- The trigger that a name stands for, directly or by an alias. -/
def trigger? (o : Options) (name : String) : Option Trigger :=
  match (ofTag? name : Option Trigger) with
  | some t => some t
  | none => (Entries.get? name o.eventAliases).bind ofTag?

/-! ## Setting single options -/

/-- Other options with this width of indentation. -/
def withIndentWidth (o : Options) (width : Nat) : Options :=
  { o with indentWidth := width }

/-- Other options with this depth of nesting. -/
def withMaxDepth (o : Options) (depth : Nat) : Options :=
  { o with maxDepth := depth }

/-- Other options with this default text. -/
def withDefaultText (o : Options) (text : String) : Options :=
  { o with defaultText := text }

/-- Other options with this placeholder address. -/
def withPlaceholderImageUrl (o : Options) (url : String) : Options :=
  { o with placeholderImageUrl := url }

/-- Other options with this port. -/
def withPort (o : Options) (port : Nat) : Options :=
  { o with port }

/-- Other options with one more alias; an alias to no trigger is left out. -/
def withEventAlias (o : Options) (name tag : String) : Options :=
  match (ofTag? tag : Option Trigger) with
  | some _ => { o with eventAliases := Entries.insert name tag o.eventAliases }
  | none => o

/-! ## Reading -/

/-- The options that were met so far. -/
structure Draft where
  indentWidth : Option Nat := none
  maxDepth : Option Nat := none
  defaultText : Option String := none
  placeholderImageUrl : Option String := none
  port : Option Nat := none
  eventAliases : Option (Entries String) := none

/-- The options with defaults where nothing was met. -/
def ofDraft (d : Draft) : Options :=
  let o : Options := {}
  { indentWidth := d.indentWidth.getD o.indentWidth
    maxDepth := d.maxDepth.getD o.maxDepth
    defaultText := d.defaultText.getD o.defaultText
    placeholderImageUrl := d.placeholderImageUrl.getD o.placeholderImageUrl
    port := d.port.getD o.port
    eventAliases := d.eventAliases.getD o.eventAliases }

/-- Reads a table of aliases; of several aliases for one name the last counts. -/
def readAliases (size levels : Nat) : Reader (Entries String) := fun s => do
  let (pairs, s) ← readTable size levels (fun _ => readString size) s
  return (Entries.ofPairs pairs, s)

/-- Reads the rest of a member after its key. -/
def Draft.readMember (size levels : Nat) (d : Draft) (key : String) : Reader Draft := fun s => do
  if key = "indentWidth" then
    let (n, s) ← readOnce key d.indentWidth (readNat size .size) s
    return ({ d with indentWidth := some n }, s)
  else if key = "maxDepth" then
    let (n, s) ← readOnce key d.maxDepth (readNat size .size) s
    return ({ d with maxDepth := some n }, s)
  else if key = "defaultText" then
    let (t, s) ← readOnce key d.defaultText (readString size) s
    return ({ d with defaultText := some t }, s)
  else if key = "placeholderImageUrl" then
    let (t, s) ← readOnce key d.placeholderImageUrl (readString size) s
    return ({ d with placeholderImageUrl := some t }, s)
  else if key = "port" then
    let (n, s) ← readOnce key d.port (readNat size .port) s
    return ({ d with port := some n }, s)
  else if key = "eventAliases" then
    let (es, s) ← readOnce key d.eventAliases (readAliases size levels) s
    return ({ d with eventAliases := some es }, s)
  else
    let s ← skipUnknown size s
    return (d, s)

/-- Reads the options in their order, as many as there are. -/
def Draft.readRow (size levels : Nat) : Reader Draft := fun s => do
  let (indentWidth, s) ← readNext true (readNat size .size) s
  let (maxDepth, s) ← readNext false (readNat size .size) s
  let (defaultText, s) ← readNext false (readString size) s
  let (placeholderImageUrl, s) ← readNext false (readString size) s
  let (port, s) ← readNext false (readNat size .port) s
  let (eventAliases, s) ← readNext false (readAliases size levels) s
  let s ← closeList s
  return (⟨indentWidth, maxDepth, defaultText, placeholderImageUrl, port, eventAliases⟩, s)

/-- Reads options; `levels` more lists and objects may be opened. -/
def reader (size levels : Nat) : Reader Options := fun s => do
  let (form, s) ← openRecord size "struct CompilerOptions" levels s
  let (d, s) ←
    match form with
    | .list => Draft.readRow size (levels - 1) s
    | .object => readMembers size (Draft.readMember size (levels - 1)) {} s
  return (ofDraft d, s)

/-- Reads a whole text as options. -/
def read (text : String) : Except ReadError Options :=
  readAll (fun size => reader size maxNesting) text

end Options

end BlockBot
