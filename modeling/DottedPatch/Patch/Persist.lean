import DottedPatch.Disk.Basic
import DottedPatch.Disk.FilePath
import DottedPatch.Patch.Apply

namespace DottedPatch.Patch

open Config

variable {α : Type} [Configuration α] {m : Type → Type} [Monad m] [Disk m]

def makeParent (path : String) : Command m Unit := do
  match (FilePath.parent? path).filter (· ≠ "") with
  | some directory => Command.makeDirectories directory
  | none => return ()

def persist (path : String) (report : Report) (config : α) : Command m (List String) := do
  let content ← Command.readFile? path
  let text ← Command.ofExcept (writeBack (content.getD "") path report config)
  makeParent path
  Command.writeFile path text
  Command.note (.valuesWritten path report.appliedPaths.length)
  let reverted ← Command.ofExcept (reverting report config)
  Command.noteAll (reverted.map (.leafReverts path))
  return reverted

end DottedPatch.Patch
