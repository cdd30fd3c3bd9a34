import DottedPatch.Patch.Coercion
import DottedPatch.Patch.Event
import DottedPatch.Patch.Report

/-! Applying the lines of a patch to a table, one after the other.

A line is resolved and coerced before the table is touched. The walk to its section makes the
sections that are missing, and may still end at a value that is none. -/

namespace DottedPatch.Patch

open Toml (Table dotted)

structure Rules where
  casing : Casing := .exact
  entries : EntryPolicy := .rejectLine
  deriving DecidableEq, Repr

structure Target where
  parents : List String
  leaf : Leaf

def Target.keys (t : Target) : List String := t.parents ++ [t.leaf.name]

def Target.path (t : Target) : String := dotted (t.parents ++ [t.leaf.name])

structure Refusal where
  resolved : String
  reason : Rejection

/-- Looks up the segments one by one below the sections walked so far, up to the first miss. -/
def resolve (casing : Casing) (walked : List String) :
    (segments : List String) → Section → List Event × Except Refusal Target
  | [], _ => ([], .error ⟨dotted walked, .emptyPath⟩)
  | [segment], s =>
    let leaf? := s.leaf? casing segment
    let event := .leafLookup (dotted (walked ++ [segment])) leaf?.isSome
    match leaf? with
    | some leaf => ([event], .ok ⟨walked, leaf⟩)
    | none => ([event], .error ⟨dotted walked, .unknownSegment segment⟩)
  | segment :: rest, s =>
    let child? := s.child? casing segment
    let event := .sectionLookup (dotted (walked ++ [segment])) child?.isSome
    match child? with
    | some child =>
      let (events, result) := resolve casing (walked ++ [child.name]) rest child
      (event :: events, result)
    | none => ([event], .error ⟨dotted walked, .unknownSegment segment⟩)

def setLeaf (target : Target) (value : Option LeafValue) (t : Table) : Table :=
  match value with
  | some v => Table.insertPath v.toValue target.keys t
  | none => Table.erasePath target.keys t

structure Step where
  table : Table
  outcome : Outcome
  events : List Event

namespace Step

def applied (line : Line) (path : String) (table : Table) (events : List Event) : Step :=
  { table
    outcome := ⟨line.number, line.path, .applied path⟩
    events := events ++ [.applied line.number path] }

def rejected (line : Line) (refusal : Refusal) (table : Table) (events : List Event) : Step :=
  { table
    outcome := ⟨line.number, line.path, .rejected refusal.resolved refusal.reason⟩
    events := events ++ [.rejected line.number line.path refusal.reason] }

end Step

def noSection : Rejection := .coercion "config has no table at this section"

def applyTo (rules : Rules) (line : Line) (target : Target) (t : Table) (events : List Event) : Step :=
  let path := target.path
  let skipped := Coercion.skipped rules.entries target.leaf.kind line.raw
  let events := events ++ skipped.map .entrySkipped
  match coerce rules.entries target.leaf line.raw with
  | .error reason => .rejected line ⟨path, reason⟩ t events
  | .ok value =>
    let walk := Table.walk [] target.parents t
    if walk.arrived then
      .applied line path (setLeaf target value walk.table) (events ++ [.assigned path value])
    else .rejected line ⟨path, noSection⟩ walk.table events

def applyLine (schema : Schema) (rules : Rules) (t : Table) (line : Line) : Step :=
  match resolve rules.casing [] line.segments schema.root with
  | (events, .ok target) => applyTo rules line target t events
  | (events, .error refusal) => .rejected line refusal t events

structure Pass where
  table : Table
  outcomes : List Outcome := []
  events : List Event := []

namespace Pass

def report (p : Pass) : Report := ⟨p.outcomes⟩

end Pass

def applyLines (schema : Schema) (rules : Rules) : (lines : List Line) → Table → Pass
  | [], t => { table := t }
  | line :: lines, t =>
    let step := applyLine schema rules t line
    let rest := applyLines schema rules lines step.table
    { table := rest.table
      outcomes := step.outcome :: rest.outcomes
      events := step.events ++ rest.events }

def applyAll (schema : Schema) (rules : Rules) (lines : List Line) (t : Table) : Pass :=
  let pass := applyLines schema rules lines t
  let finished := .passFinished pass.report.appliedCount pass.report.rejectedCount
  { pass with events := pass.events ++ [finished] }

end DottedPatch.Patch
