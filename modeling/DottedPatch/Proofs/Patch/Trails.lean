import DottedPatch.Proofs.Patch.Frames
import DottedPatch.Proofs.Patch.Targets

namespace DottedPatch

open Toml

namespace Section

mutual

/-- Whether the names in a section come back from a dotted path. -/
def dotFree : Section → Bool
  | ⟨_, _, leaves, children⟩ => leaves.all (fun l => decide (DotFree l.name)) && dotFreeAll children

def dotFreeAll : List Section → Bool
  | [] => true
  | c :: cs => decide (DotFree c.name) && c.dotFree && dotFreeAll cs

end

theorem dotFreeAll_eq_true {cs : List Section} :
    dotFreeAll cs = true ↔ ∀ c ∈ cs, DotFree c.name ∧ c.dotFree = true := by
  induction cs with
  | nil => simp [dotFreeAll]
  | cons c cs ih => simp [dotFreeAll, ih]

theorem Contains.forall_dotFree {s : Section} {names : List String} {l : Leaf} (h : s.Contains names l)
    (hs : s.dotFree = true) : ∀ name ∈ names ++ [l.name], DotFree name := by
  induction h with
  | @here s l hl =>
    obtain ⟨_, _, leaves, children⟩ := s
    rw [Section.dotFree, Bool.and_eq_true, List.all_eq_true] at hs
    simpa using hs.1 l hl
  | @under s c names l hc _ ih =>
    obtain ⟨_, _, leaves, children⟩ := s
    rw [Section.dotFree, Bool.and_eq_true] at hs
    obtain ⟨name, below⟩ := dotFreeAll_eq_true.1 hs.2 c hc
    exact List.forall_mem_cons.2 ⟨name, ih below⟩

end Section

namespace Patch

namespace Event

def isLookup : Event → Bool
  | .sectionLookup _ _ | .leafLookup _ _ => true
  | _ => false

def isLeafLookup : Event → Bool
  | .leafLookup _ _ => true
  | _ => false

def assignment? : Event → Option (String × Option LeafValue)
  | .assigned path value => some (path, value)
  | _ => none

def lookups (trail : List Event) : List Event := trail.filter isLookup

def assignments (trail : List Event) : List (String × Option LeafValue) := trail.filterMap assignment?

theorem lookups_append (first second : List Event) :
    lookups (first ++ second) = lookups first ++ lookups second := List.filter_append ..

theorem assignments_append (first second : List Event) :
    assignments (first ++ second) = assignments first ++ assignments second := List.filterMap_append ..

end Event

def replayOne? (t : Table) : (assignment : String × Option LeafValue) → Option Table
  | (path, value) =>
    let keys := pathOf path
    let walk := Table.walk [] keys.dropLast t
    if walk.arrived then
      some <| match value with
        | some v => Table.insertPath v.toValue keys walk.table
        | none => Table.erasePath keys walk.table
    else none

def replay? (assignments : List (String × Option LeafValue)) (t : Table) : Option Table :=
  assignments.foldlM replayOne? t

/-- The lookups of sections found by their segments, each below the names of those before it. -/
def foundLookups : (above names found : List String) → List Event
  | above, name :: names, segment :: found =>
    .sectionLookup (dotted (above ++ [segment])) true :: foundLookups (above ++ [name]) names found
  | _, _, _ => []

/-- What is looked up for a path of segments below a section: section after section up to the first
that is missed, and once none of them is, the leaf. -/
inductive LookedUp (casing : Casing) (above : List String) (s : Section) :
    (segments : List String) → List Event → Prop
  | missed {found names rest : List String} {segment next : String} {c : Section} :
      s.descend? casing found = some (names, c) → c.child? casing segment = none →
      LookedUp casing above s (found ++ segment :: next :: rest)
        (foundLookups above names found ++
          [.sectionLookup (dotted (above ++ names ++ [segment])) false])
  | arrived {found names : List String} {last : String} {c : Section} :
      s.descend? casing found = some (names, c) →
      LookedUp casing above s (found ++ [last])
        (foundLookups above names found ++
          [.leafLookup (dotted (above ++ names ++ [last])) (c.leaf? casing last).isSome])

theorem replay?_append (first second : List (String × Option LeafValue)) (t : Table) :
    replay? (first ++ second) t = (replay? first t).bind (replay? second) := List.foldlM_append

variable {schema : Schema} {rules : Rules}

section

variable {casing : Casing} {above segments : List String} {s c : Section}

theorem descend?_cons {segment : String} {found names : List String} {last : Section}
    (hc : s.child? casing segment = some c) (h : c.descend? casing found = some (names, last)) :
    s.descend? casing (segment :: found) = some (c.name :: names, last) := by
  simp [Section.descend?, hc, h]

theorem LookedUp.under {segment : String} {trail : List Event} (hc : s.child? casing segment = some c)
    (h : LookedUp casing (above ++ [c.name]) c segments trail) :
    LookedUp casing above s (segment :: segments)
      (.sectionLookup (dotted (above ++ [segment])) true :: trail) := by
  cases h with
  | @missed found names rest missing next last hd hmiss =>
    have missed : LookedUp casing above s (segment :: found ++ missing :: next :: rest) _ :=
      .missed (descend?_cons hc hd) hmiss
    simpa [foundLookups] using missed
  | @arrived found names last leading hd =>
    have arrived : LookedUp casing above s (segment :: found ++ [last]) _ :=
      .arrived (descend?_cons hc hd)
    simpa [foundLookups] using arrived

theorem lookedUp_resolve (h : segments ≠ []) :
    LookedUp casing above s segments (resolve casing above segments s).1 := by
  induction segments generalizing above s with
  | nil => exact absurd rfl h
  | cons segment rest ih =>
    have here : s.descend? casing [] = some ([], s) := rfl
    cases rest with
    | nil =>
      have arrived : LookedUp casing above s ([] ++ [segment]) _ := .arrived here
      rw [List.append_nil] at arrived
      simp only [resolve]
      cases hl : s.leaf? casing segment <;> rw [hl] at arrived <;> exact arrived
    | cons next rest =>
      simp only [resolve]
      cases hc : s.child? casing segment with
      | none =>
        have missed : LookedUp casing above s ([] ++ segment :: next :: rest) _ := .missed here hc
        rwa [List.append_nil] at missed
      | some c => exact (ih (by simp)).under hc

theorem isLookup_foundLookups (above names found : List String) :
    ∀ e ∈ foundLookups above names found, e.isLookup = true := by
  induction names generalizing above found with
  | nil => simp [foundLookups]
  | cons name names ih =>
    cases found with
    | nil => simp [foundLookups]
    | cons segment found => exact List.forall_mem_cons.2 ⟨rfl, ih _ _⟩

theorem LookedUp.isLookup {trail : List Event} (h : LookedUp casing above s segments trail) :
    ∀ e ∈ trail, e.isLookup = true := by
  cases h <;> exact List.forall_mem_append.2 ⟨isLookup_foundLookups _ _ _, by simp [Event.isLookup]⟩

theorem isLookup_resolve (casing : Casing) (above segments : List String) (s : Section) :
    ∀ e ∈ (resolve casing above segments s).1, e.isLookup = true := by
  cases segments with
  | nil => simp [resolve]
  | cons segment rest => exact (lookedUp_resolve (by simp)).isLookup

end

theorem lookups_applyLine (t : Table) (line : Line) :
    Event.lookups (applyLine schema rules t line).events =
      (resolve rules.casing [] line.segments schema.root).1 := by
  obtain ⟨skipped, ending, trail, ends⟩ := trail_applyLine schema rules t line
  have none : Event.lookups (skipped.map .entrySkipped) = [] := by simp [Event.lookups, Event.isLookup]
  have none' : Event.lookups ending = [] := by
    rcases ends with ⟨_, _, _, _, rfl⟩ | ⟨_, _, _, _, rfl⟩ <;> rfl
  rw [trail, Event.lookups_append, Event.lookups_append, none, none', List.append_nil, List.append_nil]
  exact List.filter_eq_self.2 (isLookup_resolve _ _ _ _)

theorem assignment?_of_isLookup {e : Event} (h : e.isLookup = true) : e.assignment? = none := by
  cases e <;> first | rfl | cases h

theorem replayOne?_of_run? {a : Assignment} (names : ∀ key ∈ a.target.keys, DotFree key)
    {t t' : Table} (run : a.write.run? t = some t') : replayOne? t (a.target.path, a.value) = some t' := by
  have keys : pathOf a.target.path = a.target.keys := pathOf_dotted a.target.keys_ne_nil names
  have parents : a.target.keys.dropLast = a.write.parents := List.dropLast_concat
  rcases Table.walk_run? a.write t with ⟨arrived, run'⟩ | ⟨-, -, blocked⟩
  · simp only [replayOne?, keys, parents, arrived, if_true]
    rw [← run, run', ← a.setLeaf_eq_setPath]
    rfl
  · rw [blocked] at run
    cases run

theorem assignments_trail (schema : Schema) (rules : Rules) (t : Table) (line : Line) :
    let step := applyLine schema rules t line
    (∃ a, line.assignment? schema rules = some a ∧ a.write.run? t = some step.table ∧
        step.outcome = ⟨line.number, line.path, .applied a.target.path⟩ ∧
        Event.assignments step.events = [(a.target.path, a.value)]) ∨
      step.table = t ∧ Event.assignments step.events = [] ∧
        ∃ refusal : Refusal,
          step.outcome = ⟨line.number, line.path, .rejected refusal.resolved refusal.reason⟩ := by
  obtain ⟨skipped, ending, trail, ends⟩ := trail_applyLine schema rules t line
  have none : Event.assignments (resolve rules.casing [] line.segments schema.root).1 = [] :=
    List.filterMap_eq_nil_iff.2 fun e he => assignment?_of_isLookup (isLookup_resolve _ _ _ _ e he)
  have none' : Event.assignments (skipped.map .entrySkipped) = [] := by
    simp [Event.assignments, Event.assignment?]
  simp only [trail, Event.assignments_append, none, none', List.nil_append]
  rcases ends with ⟨a, ha, run, outcome, rfl⟩ | ⟨-, same, refusal, outcome, rfl⟩
  · exact .inl ⟨a, ha, run, outcome, rfl⟩
  · exact .inr ⟨same, rfl, refusal, outcome⟩

theorem assignments_applyLine (rules : Rules) (names : schema.root.dotFree = true) (t : Table)
    (line : Line) :
    let step := applyLine schema rules t line
    (Event.assignments step.events).map Prod.fst = step.outcome.appliedPath?.toList ∧
      replay? (Event.assignments step.events) t = some step.table := by
  intro step
  rcases assignments_trail schema rules t line with
    ⟨a, ha, run, outcome, assigned⟩ | ⟨same, none, refusal, outcome⟩
  · have dotFree := (in_of_assignment? ha).contains.forall_dotFree names
    rw [assigned, outcome]
    exact ⟨rfl, (bind_pure _).trans (replayOne?_of_run? dotFree run)⟩
  · rw [none, outcome, show step.table = t from same]
    exact ⟨rfl, rfl⟩

theorem assignments_applyLines (rules : Rules) (names : schema.root.dotFree = true)
    (lines : List Line) (t : Table) :
    let pass := applyLines schema rules lines t
    (Event.assignments pass.events).map Prod.fst = pass.outcomes.filterMap Outcome.appliedPath? ∧
      replay? (Event.assignments pass.events) t = some pass.table := by
  induction lines generalizing t with
  | nil => exact ⟨rfl, rfl⟩
  | cons line lines ih =>
    obtain ⟨paths, replayed⟩ := assignments_applyLine rules names t line
    obtain ⟨rest, replays⟩ := ih (applyLine schema rules t line).table
    constructor
    · simp only [applyLines, Event.assignments_append, List.map_append, paths, rest, List.filterMap_cons]
      cases (applyLine schema rules t line).outcome.appliedPath? <;> rfl
    · simp only [applyLines, Event.assignments_append, replay?_append, replayed, Option.bind_some]
      exact replays

theorem lookups_applyLines (lines : List Line) (t : Table) :
    Event.lookups (applyLines schema rules lines t).events =
      lines.flatMap fun line => (resolve rules.casing [] line.segments schema.root).1 := by
  induction lines generalizing t with
  | nil => rfl
  | cons line lines ih =>
    simp only [applyLines, Event.lookups_append, lookups_applyLine, ih, List.flatMap_cons]

/-- The trail of a pass is complete: its assignments are those of the applied lines, one for each, and
replayed alone they make the table of the pass; its lookups are those of the lines, one line after
the other. Nothing is looked up for a line without a path. -/
theorem trail_complete (schema : Schema) (rules : Rules) (names : schema.root.dotFree = true)
    (lines : List Line) (t : Table) :
    let pass := applyAll schema rules lines t
    (Event.assignments pass.events).map Prod.fst = pass.outcomes.filterMap Outcome.appliedPath? ∧
      replay? (Event.assignments pass.events) t = some pass.table ∧
      Event.lookups pass.events =
        lines.flatMap (fun line => Event.lookups (applyLine schema rules t line).events) ∧
      ∀ line, (line.segments = [] → Event.lookups (applyLine schema rules t line).events = []) ∧
        (line.segments ≠ [] → LookedUp rules.casing [] schema.root line.segments
          (Event.lookups (applyLine schema rules t line).events)) := by
  intro pass
  -- The report at the end is neither an assignment nor a lookup.
  have assignments : Event.assignments pass.events =
      Event.assignments (applyLines schema rules lines t).events :=
    (Event.assignments_append ..).trans (List.append_nil _)
  have lookups : Event.lookups pass.events = Event.lookups (applyLines schema rules lines t).events :=
    (Event.lookups_append ..).trans (List.append_nil _)
  obtain ⟨paths, replayed⟩ := assignments_applyLines rules names lines t
  refine ⟨assignments ▸ paths, assignments ▸ replayed, ?_, fun line => ⟨fun none => ?_, fun some => ?_⟩⟩
  · simp only [lookups, lookups_applyLines, lookups_applyLine]
  · rw [lookups_applyLine, none]
    rfl
  · rw [lookups_applyLine]
    exact lookedUp_resolve some

theorem trail_complete_nested :
    let missing := Line.read 2 "A.D.x=1"
    let lines := [Line.read 1 "A.B.x=1", missing, Line.read 3 "A.C.y=1"]
    let t : Table := [("A", .table [("B", .integer 5)])]
    let pass := applyAll nested {} lines t
    pass.outcomes.filterMap Outcome.appliedPath? = ["A.C.y"] ∧
      pass.table = [("A", .table [("B", .integer 5), ("C", .table [("y", .string "1")])])] ∧
      replay? [("A.C.y", some (.string "1"))] t = some pass.table ∧
      LookedUp .exact [] nested.root missing.segments
        [.sectionLookup "A" true, .sectionLookup "A.D" false] := by
  intro missing lines t pass
  obtain ⟨paths, replayed, -, looked⟩ := trail_complete nested {} (by decide) lines t
  have assigned : Event.assignments pass.events = [("A.C.y", some (.string "1"))] := by decide +kernel
  have lookups : Event.lookups (applyLine nested {} t missing).events =
      [.sectionLookup "A" true, .sectionLookup "A.D" false] := by decide +kernel
  rw [assigned] at paths replayed
  have missed := (looked missing).2 (by decide +kernel)
  rw [lookups] at missed
  exact ⟨paths.symm, by decide +kernel, replayed, missed⟩

/-- No lookup of a section is missed on an empty path, and still no leaf is looked up. -/
theorem not_leafLookup_of_emptyPath :
    let lookups := Event.lookups (applyAll nested {} [Line.read 1 "=5"] []).events
    nested.root.dotFree = true ∧
      ¬((lookups.filter Event.isLeafLookup).length = 1 ↔
        ∀ path, .sectionLookup path false ∉ lookups) := by
  intro lookups
  have none : lookups = [] := by decide +kernel
  refine ⟨by decide, fun exactly => ?_⟩
  rw [none] at exactly
  exact absurd (exactly.2 (by simp)) (by simp)

end Patch

end DottedPatch
