import DottedPatch.Action.Basic
import DottedPatch.Gateway.Shape
import DottedPatch.Gateway.Schema
import DottedPatch.Patch.Persist
import DottedPatch.Patch.Session
import DottedPatch.Settings.Loader
import DottedPatch.Settings.Template

namespace DottedPatch

open Config Gateway Patch

variable [Machine] {m : Type → Type} [Monad m] [Disk m]

def loadBase {α : Type} [Configuration α] (path : String) (strict : Bool) : Command m α := do
  let text ← Command.readFile path
  let config ← Command.ofExcept (readBase text path strict)
  Command.note (.baseLoaded path)
  return config

namespace Action

def startingConfig : (base : Option String) → Command m GatewayConfig
  | some path => loadBase path true
  | none => return default

def saved (base : Option String) (write : Bool) (report : Report) (config : GatewayConfig) :
    Command m (Option String × List String) := do
  match base, write with
  | some path, true => return (some path, ← persist path report config)
  | _, _ => return (none, [])

def printed (printConfig : Bool) (config : GatewayConfig) : Command m (Option String) := do
  if printConfig then return some (← Command.ofExcept config.text) else return none

def passed (settings : Settings) (patch : String) (base : Option String) :
    Command m (Patched GatewayConfig) := do
  let config ← startingConfig base
  let lines := readLines (← Command.readFile patch)
  let (result, trail) := applyTo? Gateway.schema settings.rules lines config
  Command.noteAll trail
  Command.ofExcept result

def runApply (settings : Settings) (patch : String) (base : Option String) (write printConfig : Bool) :
    Command m PassAnswer := do
  if write && base.isNone then throw .noBaseFile
  let patched ← passed settings patch base
  let (written, reverted) ← saved base write patched.report patched.config
  let config ← printed printConfig patched.config
  return {
    report := patched.report
    rendered := patched.report.render settings.report.format settings.report.onlyRejected
    config, written, reverted }

def run (settings : Settings) : Action → Command m Answer
  | .apply patch base write printConfig => do
    return .patched (← runApply settings patch base write printConfig)
  | .list base => do
    let config ← startingConfig base
    return .listing (← Command.ofExcept (listValues Gateway.schema config))
  | .get key base => do
    let config ← startingConfig base
    return .reading (← Command.ofExcept (getValue Gateway.schema settings.casing key config))
  | .schema => return .leaves Gateway.schema.rows
  | .template => return .template Settings.template

end Action

end DottedPatch
