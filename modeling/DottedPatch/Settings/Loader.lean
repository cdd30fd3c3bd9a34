import DottedPatch.Disk.Basic
import DottedPatch.Disk.FilePath
import DottedPatch.Settings.Layer

namespace DottedPatch.Settings

open Toml

inductive SearchPath
  | platform
  | workingDirectory
  | directory (path : String)
  deriving DecidableEq, Repr

structure Surroundings where
  workingDirectory : Option String := none
  environment : List (String × String) := []

namespace Surroundings

def value? (name : String) (s : Surroundings) : Option String :=
  (s.environment.find? (·.1 = name)).map Prod.snd

def configHome? (s : Surroundings) : Option String :=
  match (s.value? "XDG_CONFIG_HOME").filter (Text.startsWith "/") with
  | some home => some home
  | none => (s.value? "HOME").map fun home => FilePath.under home ".config"

def directory? (s : Surroundings) : SearchPath → Option String
  | .platform => s.configHome?.map fun home => FilePath.under home applicationName
  | .workingDirectory => s.workingDirectory
  | .directory path => some path

end Surroundings

/-- Searched files may be missing; the explicit ones may not, and lie over all searched ones. -/
structure Loader where
  search : List SearchPath := [.platform, .workingDirectory]
  files : List String := []
  environmentMark : Option String := some defaultMark
  strict : Bool := true
  overrides : List (String × Value) := []

namespace Loader

variable {m : Type → Type} [Monad m] [Disk m]

def searchedFile (directory : String) : Command m (Option (String × String)) := do
  let path := FilePath.under directory fileName
  match ← Command.readFile? path with
  | some text =>
    Command.note (.settingsFound path)
    return some (path, text)
  | none => return none

def explicitFile (path : String) : Command m (String × String) := do
  return (path, ← Command.readFile path)

def load (l : Loader) (s : Surroundings) : Command m Settings := do
  let found ← (l.search.filterMap s.directory?).filterMapM searchedFile
  let explicit ← l.files.mapM explicitFile
  let files := found ++ explicit
  Command.note (.settingsGathered files.length)
  Command.ofExcept <| resolve
    { files
      environment := s.environment
      environmentMark := l.environmentMark
      overrides := l.overrides
      strict := l.strict }

end Loader

end DottedPatch.Settings
