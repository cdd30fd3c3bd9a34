import DottedPatch.Config.UnknownKeys
import DottedPatch.Patch.Apply

namespace DottedPatch.Patch

open Config

structure Session (α : Type) where
  config : α
  /-- What the base file is called in failures. -/
  file : String
  document : Option String := none
  report : Report := {}

inductive Move
  | apply (rules : Rules) (lines : List Line)
  | write
  | reload (strict : Bool)
  | reset

namespace Session

variable {α : Type} [Configuration α]

def text (s : Session α) : String := s.document.getD ""

def write (s : Session α) : Except Failure (Session α) := do
  return { s with document := some (← writeBack s.text s.file s.report s.config) }

def reload (strict : Bool) (s : Session α) : Except Failure (Session α) := do
  return { s with config := ← readBase s.text s.file strict }

def move (schema : Schema) (s : Session α) : Move → Except Failure (Session α) × List Event
  | .apply rules lines =>
    let (result, trail) := applyTo? schema rules lines s.config
    (result.map fun p => { s with config := p.config, report := p.report }, trail)
  | .write => (s.write, [])
  | .reload strict => (s.reload strict, [])
  | .reset => (.ok { s with config := Configuration.initial }, [])

end Session

end DottedPatch.Patch
