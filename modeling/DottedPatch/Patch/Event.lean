import DottedPatch.Patch.Rejection
import DottedPatch.Schema.LeafValue

namespace DottedPatch.Patch

inductive Event
  | sectionLookup (path : String) (found : Bool)
  | leafLookup (path : String) (found : Bool)
  | entrySkipped (entry : String)
  | assigned (path : String) (value : Option LeafValue)
  | applied (line : Nat) (path : String)
  | rejected (line : Nat) (path : String) (reason : Rejection)
  | passFinished (applied rejected : Nat)
  | settingsFound (path : String)
  | settingsGathered (files : Nat)
  | baseLoaded (path : String)
  | valuesWritten (path : String) (leaves : Nat)
  | leafReverts (path leaf : String)
  deriving DecidableEq

inductive Level
  | trace
  | debug
  | info
  | warn
  deriving DecidableEq, Repr

def Level.name : Level → String
  | .trace => "TRACE"
  | .debug => "DEBUG"
  | .info => "INFO"
  | .warn => "WARN"

structure LogRecord where
  level : Level
  message : String
  fields : List (String × String)
  deriving DecidableEq, Repr

def LogRecord.text (r : LogRecord) : String :=
  " ".intercalate (r.level.name :: r.message :: r.fields.map fun (name, value) => name ++ "=" ++ value)

namespace Event

def truth (b : Bool) : String := if b then "true" else "false"

def record : Event → LogRecord
  | .sectionLookup path found => ⟨.trace, "section lookup", [("path", path), ("found", truth found)]⟩
  | .leafLookup path found => ⟨.trace, "leaf lookup", [("path", path), ("found", truth found)]⟩
  | .entrySkipped entry => ⟨.debug, "skipping malformed map entry", [("entry", entry)]⟩
  | .assigned path (some v) => ⟨.trace, "leaf assigned", [("path", path), ("value", v.text)]⟩
  | .assigned path none => ⟨.trace, "leaf unset", [("path", path)]⟩
  | .applied line path => ⟨.debug, "applied", [("line", toString line), ("path", path)]⟩
  | .rejected line path reason =>
    ⟨.warn, "rejected", [("line", toString line), ("path", path), ("reason", reason.text)]⟩
  | .passFinished kept refused =>
    ⟨.info, "patch pass finished", [("applied", toString kept), ("rejected", toString refused)]⟩
  | .settingsFound path => ⟨.debug, "found settings file", [("path", path)]⟩
  | .settingsGathered files => ⟨.debug, "resolving settings", [("files", toString files)]⟩
  | .baseLoaded path => ⟨.debug, "loaded base config", [("path", path)]⟩
  | .valuesWritten path leaves =>
    ⟨.info, "wrote patched values", [("path", path), ("leaves", toString leaves)]⟩
  | .leafReverts path leaf =>
    ⟨.warn, "unset leaf removed from file, reloading gives its default",
      [("path", path), ("leaf", leaf)]⟩

def isWatched : Event → Bool
  | .sectionLookup _ _ | .leafLookup _ _ | .assigned _ _ => true
  | _ => false

def log (lookups : Bool) (trail : List Event) : List LogRecord :=
  (trail.filter fun e => lookups || !e.isWatched).map record

end Event

end DottedPatch.Patch
