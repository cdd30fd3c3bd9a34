import DottedPatch.Failure
import DottedPatch.Patch.Report
import DottedPatch.Toml.Edit
import DottedPatch.Toml.Path
import DottedPatch.Toml.Printer
import DottedPatch.Toml.Reader

/-! Writing the applied leaves of a pass into the text of a base file.

TOML has no null. A leaf without a value is removed, so that it reads as its default again. -/

namespace DottedPatch.Patch

open Config Toml

def writeLeaf (t : Table) (d : Document) (path : String) : Document :=
  let keys := pathOf path
  match Table.lookupPath keys t with
  | some v => d.store keys v
  | none => d.remove keys

/-- Only the applied leaves change; the rest of the text stays as it was written. -/
def writeBack {α : Type} [Configuration α] (text file : String) (report : Report) (config : α) :
    Except Failure String := do
  let some d := Document.read? text | throw (.uneditable file)
  let t ← toTable config
  return (report.appliedPaths.foldl (writeLeaf t) d).text

/-- Applied leaves that have no value, though the initial configuration gives them one. -/
def reverting {α : Type} [Configuration α] (report : Report) (config : α) :
    Except Failure (List String) := do
  let patched ← toTable config
  let defaults ← toTable (Configuration.initial : α)
  return report.appliedPaths.filter fun path =>
    (Table.lookupPath (pathOf path) patched).isNone &&
      (Table.lookupPath (pathOf path) defaults).isSome

end DottedPatch.Patch
