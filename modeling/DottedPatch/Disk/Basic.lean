import DottedPatch.Failure
import DottedPatch.Patch.Event

namespace DottedPatch

open Patch (Event)

class Disk (m : Type → Type) where
  read (path : String) : m (Except FileFault String)
  write (path text : String) : m (Except FileFault Unit)
  makeDirectories (path : String) : m (Except FileFault Unit)

abbrev Command (m : Type → Type) := ExceptT Failure (StateT (List Event) m)

namespace Command

variable {m : Type → Type} [Monad m]

def note (e : Event) : Command m Unit := modify fun trail => trail ++ [e]

def noteAll (events : List Event) : Command m Unit := modify fun trail => trail ++ events

def ofExcept {α : Type} (result : Except Failure α) : Command m α :=
  match result with
  | .ok a => pure a
  | .error e => throw e

def outcome {α : Type} (c : Command m α) : m (Except Failure α × List Event) :=
  StateT.run (ExceptT.run c) []

variable [Disk m]

def readFile (path : String) : Command m String := do
  match ← (Disk.read path : m _) with
  | .ok text => return text
  | .error fault => throw (.file path fault)

def writeFile (path text : String) : Command m Unit := do
  match ← (Disk.write path text : m _) with
  | .ok () => return ()
  | .error fault => throw (.file path fault)

def makeDirectories (path : String) : Command m Unit := do
  match ← (Disk.makeDirectories path : m _) with
  | .ok () => return ()
  | .error fault => throw (.file path fault)

def readFile? (path : String) : Command m (Option String) := do
  match ← (Disk.read path : m _) with
  | .ok text => return some text
  | .error .notFound => return none
  | .error fault => throw (.file path fault)

end Command

end DottedPatch
