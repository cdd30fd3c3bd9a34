import DottedPatch.Failure
import DottedPatch.Toml.Path
import DottedPatch.Toml.Printer

namespace DottedPatch

open Config Toml

def shownValue : Value → String
  | .string s => s
  | v => Item.text (.ofValue v) .none

def shownAt (path : String) (t : Table) : String :=
  ((Table.lookupPath (pathOf path) t).map shownValue).getD "<not set>"

def listValues {α : Type} [Configuration α] (schema : Schema) (config : α) :
    Except Failure (List (String × String)) := do
  let t ← toTable config
  return schema.leaves.map fun (path, _) => (path, shownAt path t)

structure LeafReading where
  value : String
  row : LeafRow
  deriving DecidableEq

namespace LeafReading

def key (r : LeafReading) : String := r.row.path

def text (r : LeafReading) : String :=
  (if r.row.doc = "" then "" else s!"# {r.row.doc}\n") ++ s!"# {r.row.text}\n{r.key} = {r.value}"

end LeafReading

def getValue {α : Type} [Configuration α] (schema : Schema) (casing : Casing) (key : String)
    (config : α) : Except Failure LeafReading := do
  match schema.findLeaf? casing key with
  | none => throw (.keyNotFound key)
  | some (path, leaf) =>
    let t ← toTable config
    return { value := shownAt path t, row := .ofLeaf path leaf }

end DottedPatch
