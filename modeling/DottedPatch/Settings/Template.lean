import DottedPatch.Settings.Basic
import DottedPatch.Toml.Printer

namespace DottedPatch.Settings

open Toml

structure Explained where
  name : String
  doc : List String
  initial : Value

def defaults : Settings := {}

def explained : List Explained :=
  [⟨"casing",
    ["How path segments are matched against section and leaf names:",
     "\"exact\" or \"ignore-ascii\"."],
    .string defaults.casing.name⟩,
   ⟨"map_entries",
    ["What a map entry without ':' does: \"reject-line\" rejects the whole",
     "line, \"skip-entry\" drops only that entry."],
    .string defaults.entries.name⟩,
   ⟨"trace_lookups",
    ["Emit a trace event for every section and leaf lookup."],
    .boolean defaults.traceLookups⟩]

def explainedReport : List Explained :=
  [⟨"format",
    ["Output format of the per-line report: \"text\" or \"json\"."],
    .string defaults.report.format.name⟩,
   ⟨"only_rejected",
    ["Leave applied lines out of the report."],
    .boolean defaults.report.onlyRejected⟩]

def Explained.text (e : Explained) : String :=
  let value := Item.text (.ofValue e.initial) .none
  String.join (e.doc.map fun line => "# " ++ line ++ "\n") ++
    s!"#\n# Default value: {value}\n#{e.name} = {value}\n"

def sectionText (options : List Explained) : String := "\n".intercalate (options.map Explained.text)

def template : String := sectionText explained ++ "\n[report]\n" ++ sectionText explainedReport

end DottedPatch.Settings
