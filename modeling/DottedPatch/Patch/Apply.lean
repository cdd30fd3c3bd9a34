import DottedPatch.Failure
import DottedPatch.Patch.Pass
import DottedPatch.Patch.WriteBack

namespace DottedPatch.Patch

open Config Toml

variable {α : Type} [Configuration α]

structure Patched (α : Type) where
  config : α
  report : Report

def applyTo? (schema : Schema) (rules : Rules) (lines : List Line) (config : α) :
    Except Failure (Patched α) × List Event :=
  match toTable config with
  | .error failure => (.error failure, [])
  | .ok t =>
    let pass := applyAll schema rules lines t
    let result : Except Failure α := ofTable pass.table
    (result.map fun config => { config, report := pass.report }, pass.events)

end DottedPatch.Patch
