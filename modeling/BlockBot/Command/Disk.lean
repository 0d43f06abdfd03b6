/-!
# Disks and paths

A disk in memory holds folders, files and a few devices; each entry stands at the end of a list of
names that starts at the top. A path is followed name by name. Every name but the last has to lead
to a folder, `.` stays where it is, and `..` goes one folder up, where the top is above itself.
Repeated slashes count as one. A slash at the end asks for a folder, so that nothing can be read or
written there.
-/

namespace BlockBot.Command

/-! ## Failures -/

/-- Why a file could not be read or written. -/
inductive FileError where
  | notFound
  | notAFolder
  | isFolder
  | noSpace
  | nameTooLong
  | other (message : String)
  deriving DecidableEq, Repr

/-- The number, the kind and the wording of a failure. -/
structure FileError.Account where
  code : String
  kind : String
  wording : String
  deriving DecidableEq, Repr

/-- The account of a failure that has a number. -/
def FileError.account? : FileError → Option FileError.Account
  | .notFound => some ⟨"2", "NotFound", "No such file or directory"⟩
  | .notAFolder => some ⟨"20", "NotADirectory", "Not a directory"⟩
  | .isFolder => some ⟨"21", "IsADirectory", "Is a directory"⟩
  | .noSpace => some ⟨"28", "StorageFull", "No space left on device"⟩
  | .nameTooLong => some ⟨"36", "InvalidFilename", "File name too long"⟩
  | .other _ => none

/-- The wording of a failure without a number. -/
def FileError.remark : FileError → String
  | .other message => message
  | _ => ""

/-- The wording for people. -/
def FileError.message (e : FileError) : String :=
  match e.account? with
  | some a => a.wording ++ " (os error " ++ a.code ++ ")"
  | none => e.remark

/-- The wording with all details. -/
def FileError.details (e : FileError) : String :=
  match e.account? with
  | some a =>
    "Os \x7b code: " ++ a.code ++ ", kind: " ++ a.kind ++ ", message: \"" ++ a.wording ++ "\" \x7d"
  | none => e.remark

/-! ## Paths -/

/-- A path with its slashes taken away. -/
structure Path where
  /-- Whether the path starts at the top. -/
  absolute : Bool
  names : List String
  /-- Whether the path ends with a slash. -/
  closed : Bool
  deriving DecidableEq, Repr

/-- The most bytes of a name. -/
def maxName : Nat := 255

/-- The most bytes of a path. -/
def maxPath : Nat := 4095

namespace Path

/-- Cuts a path at its slashes; `part` is the part being read, last character first. -/
def split (part : List Char) : List Char → List String
  | [] => [String.ofList part.reverse]
  | c :: cs => if c = '/' then String.ofList part.reverse :: split [] cs else split (c :: part) cs

/-- The names of a path. -/
def namesOf (text : String) : List String :=
  (split [] text.toList).filter fun name => !name.isEmpty

/-- Reads a path. The empty path leads nowhere. -/
def read (text : String) : Except FileError Path :=
  if text.isEmpty then .error .notFound
  else if maxPath < text.utf8ByteSize then .error .nameTooLong
  else .ok ⟨text.toList.head? == some '/', namesOf text, text.toList.getLast? == some '/'⟩

/-- Whether a name stands for an entry and not for a step. -/
def isPlain (name : String) : Bool :=
  name != "." && name != ".."

/-- Whether the path asks for a new folder rather than a file. -/
def asksForFolder (p : Path) : Bool :=
  p.closed && p.names.getLast?.any isPlain

end Path

/-! ## Disks -/

/-- Entries that are not stored. -/
inductive Device where
  /-- Takes everything and holds nothing. -/
  | null
  /-- Takes nothing. -/
  | full
  /-- The input of a command. -/
  | input
  /-- What a command prints. -/
  | output
  /-- What a command reports. -/
  | messages
  deriving DecidableEq, Repr

/-- What stands at the end of a list of names. -/
inductive Entry where
  | folder
  | file (text : String)
  | device (d : Device)
  deriving DecidableEq, Repr

/-- Entries by the names on the way to them. -/
structure Disk where
  entries : List (List String × Entry) := []
  deriving DecidableEq, Repr

namespace Disk

/-- The entry at a place; the top is always a folder. -/
def entry? (d : Disk) (place : List String) : Option Entry :=
  if place.isEmpty then some .folder else d.entries.lookup place

/-- Puts an entry at a place. -/
def put (d : Disk) (place : List String) (e : Entry) : Disk :=
  if (d.entries.lookup place).isSome then
    ⟨d.entries.map fun p => if p.1 = place then (place, e) else p⟩
  else ⟨d.entries ++ [(place, e)]⟩

/-- Puts a file at the end of names below a place, with the folders on the way to it. -/
def putFile (d : Disk) (place : List String) (text : String) : List String → Disk
  | [] => d
  | [name] => d.put (place ++ [name]) (.file text)
  | name :: names => (d.put (place ++ [name]) .folder).putFile (place ++ [name]) text names

/-- The place of a name as seen from another place, which has to be a folder. -/
def enter (d : Disk) (place : List String) (name : String) : Except FileError (List String) :=
  match d.entry? place with
  | none => .error .notFound
  | some .folder =>
    if name = "." then .ok place
    else if name = ".." then .ok place.dropLast
    else if maxName < name.utf8ByteSize then .error .nameTooLong
    else .ok (place ++ [name])
  | some _ => .error .notAFolder

/-- The place at the end of several names. -/
def walk (d : Disk) : List String → List String → Except FileError (List String)
  | place, [] => .ok place
  | place, name :: names => do
    let place ← d.enter place name
    d.walk place names

/-- The place from which a path starts. -/
def start (home : List String) (p : Path) : List String :=
  if p.absolute then [] else home

/-- The entry to read at the end of a path. -/
def readable (d : Disk) (home : List String) (path : String) : Except FileError Entry := do
  let p ← Path.read path
  let place ← d.walk (start home p) p.names
  match d.entry? place with
  | none => .error .notFound
  | some .folder => .error .isFolder
  | some e => if p.closed then .error .notAFolder else .ok e

/-- The place to write to at the end of a path; there may be no entry yet. -/
def writable (d : Disk) (home : List String) (path : String) : Except FileError (List String) := do
  let p ← Path.read path
  if p.asksForFolder then
    let place ← d.walk (start home p) p.names.dropLast
    let _ ← d.enter place "."
    .error .isFolder
  else
    let place ← d.walk (start home p) p.names
    match d.entry? place with
    | some .folder => .error .isFolder
    | _ => .ok place

end Disk

end BlockBot.Command
