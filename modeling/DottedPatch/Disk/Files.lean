import DottedPatch.Disk.Basic
import DottedPatch.Disk.FilePath

namespace DottedPatch

inductive Node
  | text (content : String)
  | binary
  | directory
  deriving DecidableEq, Repr

structure Files where
  /-- How the root is called in absolute paths. -/
  rootName : String := ""
  nodes : List (List String × Node) := []
  deriving DecidableEq, Repr

namespace Files

inductive Place
  | inside (names : List String)
  | outside
  deriving DecidableEq, Repr

def node? (fs : Files) (names : List String) : Option Node :=
  if names = [] then some .directory else (fs.nodes.find? (·.1 = names)).map Prod.snd

def put (names : List String) (node : Node) (fs : Files) : Files :=
  { fs with nodes := fs.nodes.filter (·.1 ≠ names) ++ [(names, node)] }

def longestName : Nat := 255

def isDirectory (fs : Files) : Place → Bool
  | .outside => true
  | .inside names => fs.node? names = some .directory

def step (fs : Files) (place : Place) (name : String) : Except FileFault Place :=
  if !fs.isDirectory place then .error .notDirectory
  else if name = "." then .ok place
  else
    match place with
    | .outside => if name = ".." then .ok .outside else .error .notFound
    | .inside names =>
      if name = ".." then .ok (if names = [] then .outside else .inside names.dropLast)
      else if longestName < name.utf8ByteSize then .error .nameTooLong
      else
        match fs.node? (names ++ [name]) with
        | some _ => .ok (.inside (names ++ [name]))
        | none => .error .notFound

def walk (fs : Files) (place : Place) (names : List String) : Except FileFault Place :=
  names.foldlM fs.step place

def belowRoot? (fs : Files) (path : String) : Option String :=
  if fs.rootName = "" then none
  else if path = fs.rootName then some ""
  else Text.stripLead? (fs.rootName ++ "/") path

def start (fs : Files) (path : String) : Except FileFault (Place × List String) :=
  if path.toList.contains '\x00' then .error .invalidPath
  else if path = "" then .error .notFound
  else
    match fs.belowRoot? path with
    | some rest => .ok (.inside [], FilePath.steps rest)
    | none =>
      .ok (if Text.startsWith "/" path then .outside else .inside [], FilePath.steps path)

def read (fs : Files) (path : String) : Except FileFault String := do
  let (place, names) ← fs.start path
  match ← fs.walk place names with
  | .outside => throw .isDirectory
  | .inside names =>
    match fs.node? names with
    | some (.text content) => return content
    | some .binary => throw .invalidText
    | some .directory => throw .isDirectory
    | none => throw .notFound

/-- Only the last name of a path may be new, and it may not ask for a directory. -/
def write (fs : Files) (path text : String) : Except FileFault Files := do
  let (place, names) ← fs.start path
  match names.getLast? with
  | none => throw .isDirectory
  | some last =>
    let parents := if FilePath.endsInSlash path then names.dropLast.dropLast else names.dropLast
    let place ← fs.walk place parents
    if !fs.isDirectory place then throw .notDirectory
    if last = "." ∨ last = ".." then throw .isDirectory
    match place with
    | .outside => throw .notFound
    | .inside names =>
      if longestName < last.utf8ByteSize then throw .nameTooLong
      match fs.node? (names ++ [last]) with
      | some .directory => throw .isDirectory
      | _ => return fs.put (names ++ [last]) (.text text)

def makeStep (state : Files × Place) (name : String) : Except FileFault (Files × Place) := do
  let (fs, place) := state
  match fs.step place name, place with
  | .ok next, _ => return (fs, next)
  | .error .notFound, .inside names =>
    return (fs.put (names ++ [name]) .directory, .inside (names ++ [name]))
  | .error fault, _ => throw fault

def makeDirectories (fs : Files) (path : String) : Except FileFault Files := do
  let (place, names) ← fs.start path
  let (fs, place) ← names.foldlM makeStep (fs, place)
  if fs.isDirectory place then return fs else throw .exists

def add (path : String) (node : Node) (fs : Files) : Files :=
  let names := FilePath.steps path
  let directories := (List.range (names.length - 1)).map fun n => names.take (n + 1)
  let fs := directories.foldl
    (fun fs names => if (fs.node? names).isSome then fs else fs.put names .directory) fs
  fs.put names node

end Files

def Files.changing (change : Files → Except FileFault Files) : StateM Files (Except FileFault Unit) :=
  fun fs =>
    match change fs with
    | .ok changed => (.ok (), changed)
    | .error fault => (.error fault, fs)

instance : Disk (StateM Files) where
  read path := fun fs => (fs.read path, fs)
  write path text := Files.changing fun fs => fs.write path text
  makeDirectories path := Files.changing fun fs => fs.makeDirectories path

end DottedPatch
