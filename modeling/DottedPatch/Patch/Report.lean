import DottedPatch.Patch.Rejection
import DottedPatch.Text.Json

namespace DottedPatch.Patch

inductive Status
  | applied (path : String)
  | rejected (resolved : String) (reason : Rejection)
  deriving DecidableEq, Repr

structure Outcome where
  line : Nat
  path : String
  status : Status
  deriving DecidableEq, Repr

namespace Outcome

def appliedPath? (o : Outcome) : Option String :=
  match o.status with
  | .applied path => some path
  | .rejected _ _ => none

def isApplied (o : Outcome) : Bool := o.appliedPath?.isSome

def statusName (o : Outcome) : String := if o.isApplied then "applied" else "rejected"

def detail (o : Outcome) : String :=
  match o.status with
  | .applied path => "set " ++ path
  | .rejected "" reason => reason.text
  | .rejected resolved reason => s!"{reason.text} (resolved '{resolved}')"

def text (o : Outcome) : String := s!"line {o.line}: {o.path} {o.statusName}: {o.detail}"

def kind? (o : Outcome) : Option String :=
  match o.status with
  | .applied _ => none
  | .rejected _ reason => some reason.kind

def json (o : Outcome) : List (String × Text.JsonAtom) :=
  [("line", .number o.line), ("path", .string o.path), ("status", .string o.statusName),
   ("detail", .string o.detail)] ++
    o.kind?.toList.map fun kind => ("kind", .string kind)

end Outcome

inductive ReportFormat
  | text
  | json
  deriving DecidableEq, Repr

namespace ReportFormat

def name : ReportFormat → String
  | .text => "text"
  | .json => "json"

def names : List String := [text.name, json.name]

def ofName? (s : String) : Option ReportFormat := [text, json].find? (·.name = s)

end ReportFormat

structure Report where
  outcomes : List Outcome := []
  deriving DecidableEq, Repr

namespace Report

def appliedCount (r : Report) : Nat := r.outcomes.countP Outcome.isApplied

def rejectedCount (r : Report) : Nat := r.outcomes.countP (!·.isApplied)

def appliedPaths (r : Report) : List String :=
  (r.outcomes.filterMap Outcome.appliedPath?).eraseDups

def isClean (r : Report) : Bool := r.outcomes.all Outcome.isApplied

def shown (onlyRejected : Bool) (r : Report) : List Outcome :=
  r.outcomes.filter fun o => !onlyRejected || !o.isApplied

def text (onlyRejected : Bool) (r : Report) : String :=
  String.join ((r.shown onlyRejected).map fun o => o.text ++ "\n") ++
    s!"{r.appliedCount} applied, {r.rejectedCount} rejected"

def json (onlyRejected : Bool) (r : Report) : String :=
  Text.jsonRecords ((r.shown onlyRejected).map Outcome.json)

def render (format : ReportFormat) (onlyRejected : Bool) (r : Report) : String :=
  match format with
  | .text => r.text onlyRejected
  | .json => r.json onlyRejected

end Report

end DottedPatch.Patch
