import DottedPatch.Action.Run
import DottedPatch.CommandLine.Matches

namespace DottedPatch.CommandLine

open Patch

def isPath (s : String) : Bool := s ≠ ""

def oneOf (names : List String) (s : String) : Bool := names.contains s

def baseOption : OptionSpec := { name := "base", effect := .value isPath }

def tool : ToolSpec where
  shared :=
    [{ name := "settings", effect := .value isPath, repeatable := true },
     { name := "casing", effect := .value (oneOf Casing.names) },
     { name := "map-entries", effect := .value (oneOf EntryPolicy.names) },
     { name := "verbose", short := some 'v', effect := .flag },
     helpOption]
  own := [versionOption]
  subcommands :=
    [{ name := "apply"
       options :=
         [baseOption,
          { name := "write", effect := .flag },
          { name := "format", effect := .value (oneOf ReportFormat.names) },
          { name := "only-rejected", effect := .flag },
          { name := "print-config", effect := .flag }]
       operands := [{ name := "PATCH", isValid := isPath }]
       requires := [("write", "base")] },
     { name := "list", options := [baseOption] },
     { name := "get", options := [baseOption], operands := [{ name := "KEY" }] },
     { name := "schema" },
     { name := "settings-template" }]

structure Invocation where
  action : Action
  settingsFiles : List String := []
  casing : Option String := none
  entries : Option String := none
  format : Option String := none
  onlyRejected : Bool := false
  verbose : Bool := false
  deriving DecidableEq, Repr

namespace Invocation

def actionOf (name : String) (found : Matches) : Action :=
  let base := found.first? "base"
  match name with
  | "apply" =>
    .apply ((found.first? "PATCH").getD "") base (found.has "write") (found.has "print-config")
  | "list" => .list base
  | "get" => .get ((found.first? "KEY").getD "") base
  | "schema" => .schema
  | _ => .template

def read (words : List String) : Parsed Invocation := do
  let (name, found) ← tool.parse words
  return {
    action := actionOf name found
    settingsFiles := (found.values? "settings").getD []
    casing := found.first? "casing"
    entries := found.first? "map-entries"
    format := found.first? "format"
    onlyRejected := found.has "only-rejected"
    verbose := found.has "verbose" }

def override (setting : String) (value : Option String) : List (String × Toml.Value) :=
  value.toList.map fun v => (setting, .string v)

def overrides (i : Invocation) : List (String × Toml.Value) :=
  override "casing" i.casing ++ override "map_entries" i.entries ++
    override "report.format" i.format ++
    (if i.onlyRejected then [("report.only_rejected", .boolean true)] else [])

def loader (i : Invocation) : Settings.Loader :=
  { files := i.settingsFiles, overrides := i.overrides }

def log (i : Invocation) (trail : List Event) : List LogRecord :=
  (Event.log false trail).filter fun r => i.verbose || r.level != .debug

end Invocation

structure Ending where
  code : Nat
  output : String := ""
  errors : String := ""
  log : List LogRecord := []
  deriving DecidableEq, Repr

namespace Ending

def versionText : String := "confpatch 0.1.0\n"

def helpText : String :=
  "Apply dotted-path patches to the gateway configuration.\n\nUsage: confpatch [OPTIONS] <COMMAND>\n"

def ofUsageError : UsageError → Ending
  | .displayHelp => { code := 0, output := helpText }
  | .displayVersion => { code := 0, output := versionText }
  | .displayHelpOnMissing => { code := 2, errors := helpText }
  | _ => { code := 2, errors := "error: invalid command line\n" }

def failureLines : Failure → List String
  | .unknownKeys keys => keys.map fun key => "  " ++ key.text ++ "\n"
  | _ => []

def ofResult : Except Failure Answer → Ending
  | .ok answer => { code := 0, output := answer.text ++ "\n" }
  | .error failure =>
    { code := 1, errors := "error: " ++ failure.text ++ "\n" ++ String.join (failureLines failure) }

end Ending

variable [Gateway.Machine] {m : Type → Type} [Monad m] [Disk m]

def Invocation.run (i : Invocation) (s : Settings.Surroundings) : Command m Answer := do
  i.action.run (← i.loader.load s)

def runTool (words : List String) (s : Settings.Surroundings) : m Ending := do
  match Invocation.read words with
  | .error e => return .ofUsageError e
  | .ok i =>
    let (result, trail) ← (i.run s).outcome
    return { Ending.ofResult result with log := i.log trail }

end DottedPatch.CommandLine
