import DottedPatch.Config.UnknownKeys
import DottedPatch.Settings.Basic
import DottedPatch.Settings.Environment

/-! Layers of settings. Files come first, later ones over earlier ones, then the environment, then
overrides; what no layer sets has its default. -/

namespace DottedPatch.Settings

open Config Toml Patch

structure ReportLayer where
  format : Option ReportFormat := none
  onlyRejected : Option Bool := none
  deriving DecidableEq

structure Layer where
  casing : Option Casing := none
  entries : Option EntryPolicy := none
  traceLookups : Option Bool := none
  report : Option ReportLayer := none
  deriving DecidableEq

abbrev Chosen (names : List String) := { name : String // name ∈ names }

def casingOf (c : Chosen Casing.names) : Casing := (Casing.ofName? c.val).getD .exact

def casingName (c : Casing) : Chosen Casing.names := ⟨c.name, by cases c <;> decide⟩

def entriesOf (c : Chosen EntryPolicy.names) : EntryPolicy :=
  (EntryPolicy.ofName? c.val).getD .rejectLine

def entriesName (p : EntryPolicy) : Chosen EntryPolicy.names := ⟨p.name, by cases p <;> decide⟩

def formatOf (c : Chosen ReportFormat.names) : ReportFormat :=
  (ReportFormat.ofName? c.val).getD .text

def formatName (f : ReportFormat) : Chosen ReportFormat.names := ⟨f.name, by cases f <;> decide⟩

def ReportLayer.shape : Shape := .record "ReportSettingsLayer" <|
  .optional "format" (.choice ReportFormat.names) <|
  .optional "only_rejected" .boolean <|
  .nil

def Layer.shape : Shape := .record "PatchSettingsLayer" <|
  .optional "casing" (.choice Casing.names) <|
  .optional "map_entries" (.choice EntryPolicy.names) <|
  .optional "trace_lookups" .boolean <|
  .optional "report" ReportLayer.shape <|
  .nil

def ReportLayer.toCarrier (l : ReportLayer) : ReportLayer.shape.Carrier :=
  (l.format.map formatName, l.onlyRejected, ())

def ReportLayer.ofCarrier : ReportLayer.shape.Carrier → ReportLayer
  | (format, onlyRejected, _) => ⟨format.map formatOf, onlyRejected⟩

def Layer.toCarrier (l : Layer) : Layer.shape.Carrier :=
  (l.casing.map casingName, l.entries.map entriesName, l.traceLookups,
   l.report.map ReportLayer.toCarrier, ())

def Layer.ofCarrier : Layer.shape.Carrier → Layer
  | (casing, entries, traceLookups, report, _) =>
    ⟨casing.map casingOf, entries.map entriesOf, traceLookups, report.map ReportLayer.ofCarrier⟩

instance : Configuration Layer where
  encode l := Layer.shape.encode l.toCarrier
  decode v := (Layer.shape.decode v).map Layer.ofCarrier
  undeclared v := Layer.shape.undeclared v
  initial := {}

def Layer.complete (l : Layer) : Settings :=
  let report := l.report.getD {}
  { casing := l.casing.getD .exact
    entries := l.entries.getD .rejectLine
    traceLookups := l.traceLookups.getD false
    report :=
      { format := report.format.getD .text
        onlyRejected := report.onlyRejected.getD false } }

structure Sources where
  files : List (String × String) := []
  environment : List (String × String) := []
  environmentMark : Option String := none
  overrides : List (String × Value) := []
  strict : Bool := false

/-- Strictly, a file may set no unknown key. -/
def readFile (strict : Bool) (file text : String) : Except Failure Table := do
  let some t := Table.read? text | throw (.syntaxError file)
  if strict then
    let _ ← (readStrictly (.table t) text file true : Except Failure Layer)
  return t

def mergeFiles (strict : Bool) : (files : List (String × String)) → Table → Except Failure Table
  | [], t => .ok t
  | (file, text) :: files, t => do
    mergeFiles strict files (Table.merge t (← readFile strict file text))

def addOverride (t : Table) (setting : String × Value) : Table :=
  Table.insertPath setting.2 (pathOf setting.1) t

def Sources.table (s : Sources) : Except Failure Table := do
  let t ← mergeFiles s.strict s.files Table.empty
  let t :=
    match s.environmentMark with
    | some mark => Table.merge t (environmentTable mark s.environment)
    | none => t
  return s.overrides.foldl addOverride t

def resolve (s : Sources) : Except Failure Settings := do
  let layer : Layer ← ofTable (← s.table)
  return layer.complete

end DottedPatch.Settings
