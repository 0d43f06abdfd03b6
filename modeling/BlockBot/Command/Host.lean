import BlockBot.Command.Disk

/-!
# The surroundings of a command

A command reads its input, reads and writes files, and prints. `Host` lists these abilities for any
monad, so that the same command can run on a real system and in the scene in memory that is defined
here.
-/

namespace BlockBot.Command

/-- What a command can do. -/
structure Host (m : Type → Type) where
  readInput : m String
  readFile : String → m (Except FileError String)
  writeFile : String → String → m (Except FileError Unit)
  print : String → m Unit
  report : String → m Unit

/-! ## A scene in memory -/

/-- A disk with a home folder on it, the input that a command has not read yet, and what it
printed. -/
structure Scene where
  disk : Disk
  home : List String
  input : String := ""
  output : String := ""
  messages : String := ""
  deriving DecidableEq, Repr

namespace Scene

/-- The folders at the top of every disk. -/
def topFolders : List String :=
  ["bin", "boot", "dev", "etc", "home", "lib", "media", "mnt", "opt", "proc", "root", "run",
   "sbin", "srv", "sys", "tmp", "usr", "var"]

/-- The devices of every disk, by their names in `dev`. -/
def devices : List (String × Device) :=
  [("null", .null), ("full", .full), ("stdin", .input), ("stdout", .output), ("stderr", .messages)]

/-- The home folder of a command. -/
def homeFolder : List String := ["tmp", "home"]

/-- A disk with an empty home folder. -/
def emptyDisk : Disk where
  entries := topFolders.map (fun name => ([name], .folder))
    ++ devices.map (fun p => (["dev", p.1], .device p.2)) ++ [(homeFolder, .folder)]

/-- A scene with files in its home folder. -/
def ofFiles (files : List (String × String)) (input : String) : Scene where
  disk := files.foldl (fun d p => d.putFile homeFolder p.2 (Path.namesOf p.1)) emptyDisk
  home := homeFolder
  input

/-- The name and the text of an entry, if it is a file below the home folder. -/
def file? (s : Scene) : List String × Entry → Option (String × String)
  | (place, .file text) =>
    if s.home.isPrefixOf place then some ("/".intercalate (place.drop s.home.length), text)
    else none
  | _ => none

/-- The files below the home folder. -/
def files (s : Scene) : List (String × String) :=
  s.disk.entries.filterMap s.file?

/-- Reads all that is left of the input. -/
def takeInput (s : Scene) : String × Scene :=
  (s.input, { s with input := "" })

/-- Prints a text. -/
def print (s : Scene) (text : String) : Scene :=
  { s with output := s.output ++ text }

/-- Reports a text. -/
def report (s : Scene) (text : String) : Scene :=
  { s with messages := s.messages ++ text }

/-- Reads at the end of a path. -/
def read (s : Scene) (path : String) : Except FileError String × Scene :=
  match s.disk.readable s.home path with
  | .error e => (.error e, s)
  | .ok (.file text) => (.ok text, s)
  | .ok (.device .input) => let (text, s) := s.takeInput; (.ok text, s)
  | .ok _ => (.ok "", s)

/-- Writes at the end of a path. -/
def write (s : Scene) (path text : String) : Except FileError Unit × Scene :=
  match s.disk.writable s.home path with
  | .error e => (.error e, s)
  | .ok place =>
    match s.disk.entry? place with
    | some (.device .full) => (.error .noSpace, s)
    | some (.device .output) => (.ok (), s.print text)
    | some (.device .messages) => (.ok (), s.report text)
    | some (.device _) => (.ok (), s)
    | _ => (.ok (), { s with disk := s.disk.put place (.file text) })

/-- The abilities of a command in a scene. -/
def host : Host (StateM Scene) where
  readInput := takeInput
  readFile := fun path s => s.read path
  writeFile := fun path text s => s.write path text
  print := fun text s => ((), s.print text)
  report := fun text s => ((), s.report text)

end Scene

end BlockBot.Command
