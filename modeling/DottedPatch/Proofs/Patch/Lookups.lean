import DottedPatch.Gateway.Schema
import DottedPatch.Proofs.Patch.Outcomes
import DottedPatch.Proofs.Patch.Trails

namespace DottedPatch

open Toml

namespace Patch

/-- The lookups of a path as an observer is to see them: what is found by the names that lead to it,
its own included, and what is missed by its segment, below the names of what was found before. -/
def promisedLookups (casing : Casing) (walked : List String) :
    (parents : List String) → (last : String) → Section → List Event
  | [], last, s =>
    match s.leaf? casing last with
    | some leaf => [.leafLookup (dotted (walked ++ [leaf.name])) true]
    | none => [.leafLookup (dotted (walked ++ [last])) false]
  | segment :: rest, last, s =>
    match s.child? casing segment with
    | some c =>
      .sectionLookup (dotted (walked ++ [c.name])) true ::
        promisedLookups casing (walked ++ [c.name]) rest last c
    | none => [.sectionLookup (dotted (walked ++ [segment])) false]

def Event.isMiss : Event → Bool
  | .sectionLookup _ found | .leafLookup _ found => !found
  | _ => false

variable {casing : Casing} {s : Section} {parents : List String} {last : String}

/-- The names of the sections that were found stand in the path, and that of the leaf at its end. -/
def Spelt (casing : Casing) (s : Section) (parents : List String) (last : String) : Prop :=
  (s.leading casing parents).1 <+: parents ∧
    ((s.leading casing parents).1.length = parents.length →
      ∀ leaf, (s.leading casing parents).2.leaf? casing last = some leaf → leaf.name = last)

theorem lookups_eq_promised_iff (walked : List String) :
    (resolve casing walked (parents ++ [last]) s).1 = promisedLookups casing walked parents last s ↔
      Spelt casing s parents last := by
  induction parents generalizing walked s with
  | nil =>
    simp only [List.nil_append, resolve, promisedLookups, Spelt, Section.leading]
    cases s.leaf? casing last with
    | none => simp
    | some leaf => simp [dotted_concat_inj, eq_comm]
  | cons segment rest ih =>
    rw [List.cons_append, resolve_cons _ _ (by simp), promisedLookups, Spelt, Section.leading]
    cases s.child? casing segment with
    | none => simp
    | some c =>
      simp only [List.cons.injEq, Event.sectionLookup.injEq, and_true, dotted_concat_inj, ih,
        List.cons_prefix_cons, List.length_cons, Nat.add_right_cancel_iff, Spelt, and_assoc, eq_comm]

theorem mem_lookups_of_isMiss {e : Event} (h : e.isMiss = true) (walked : List String) :
    e ∈ (resolve casing walked (parents ++ [last]) s).1 ↔
      e ∈ promisedLookups casing walked parents last s := by
  induction parents generalizing walked s with
  | nil =>
    simp only [List.nil_append, resolve, promisedLookups]
    cases s.leaf? casing last with
    | none => rfl
    | some leaf =>
      have found (path : String) : e ≠ .leafLookup path true := by
        rintro rfl
        cases h
      simp [found]
  | cons segment rest ih =>
    rw [List.cons_append, resolve_cons _ _ (by simp), promisedLookups]
    cases s.child? casing segment with
    | none => rfl
    | some c =>
      have found (path : String) : e ≠ .sectionLookup path true := by
        rintro rfl
        cases h
      simp [found, ih]

theorem spelt_exact (s : Section) (parents : List String) (last : String) :
    Spelt .exact s parents last := by
  refine ⟨?_, fun _ leaf hl => Section.name_of_leaf? hl⟩
  induction parents generalizing s with
  | nil => exact List.nil_prefix
  | cons segment rest ih =>
    rw [Section.leading]
    cases hc : s.child? .exact segment with
    | none => exact List.nil_prefix
    | some c => exact List.cons_prefix_cons.2 ⟨Section.name_of_child? hc, ih c⟩

theorem leafLookup_of_leaf? {leaf : Leaf}
    (all : (s.leading casing parents).1.length = parents.length)
    (hl : (s.leading casing parents).2.leaf? casing last = some leaf) (walked : List String) :
    (resolve casing walked (parents ++ [last]) s).1.filter Event.isLeafLookup =
      [.leafLookup (dotted (walked ++ (s.leading casing parents).1 ++ [last])) true] := by
  obtain ⟨passed, sections, eq⟩ := resolve_append (List.cons_ne_nil last []) all walked
  have none : passed.filter Event.isLeafLookup = [] := by
    refine List.filter_eq_nil_iff.2 fun e he => ?_
    obtain ⟨_, rfl⟩ := sections e he
    simp [Event.isLeafLookup]
  simp [eq, none, resolve, hl, Event.isLeafLookup]

/-- The lookups of a line show what they are to show exactly if the path is spelt as in the schema as
far as it leads, as it has to be where case counts; a miss always does. An applied line shows its one
lookup of a leaf by the path at which the leaf is assigned exactly if the last segment is the name of
the leaf. -/
theorem lookups_promised_iff (schema : Schema) (rules : Rules) (t : Table) (line : Line) :
    let step := applyLine schema rules t line
    let lookups := Event.lookups step.events
    (line.segments = [] → lookups = []) ∧
    ∀ parents last, line.segments = parents ++ [last] →
      (lookups = promisedLookups rules.casing [] parents last schema.root ↔
        Spelt rules.casing schema.root parents last) ∧
      (rules.casing = .exact →
        lookups = promisedLookups rules.casing [] parents last schema.root) ∧
      (∀ e : Event, e.isMiss = true →
        (e ∈ lookups ↔ e ∈ promisedLookups rules.casing [] parents last schema.root)) ∧
      ∀ path, step.outcome.status = .applied path →
        ∃ shown value, lookups.filter Event.isLeafLookup = [.leafLookup shown true] ∧
          Event.assignments step.events = [(path, value)] ∧
          (shown = path ↔ ∃ leaf,
            (schema.root.leading rules.casing parents).2.leaf? rules.casing last = some leaf ∧
              leaf.name = last) := by
  intro step lookups
  have looked : lookups = (resolve rules.casing [] line.segments schema.root).1 :=
    lookups_applyLine t line
  refine ⟨fun none => by rw [looked, none]; rfl, fun parents last segments => ?_⟩
  rw [looked, segments]
  refine ⟨lookups_eq_promised_iff [], fun exactly => ?_, fun e miss => mem_lookups_of_isMiss miss [],
    fun path applied => ?_⟩
  · rw [lookups_eq_promised_iff, exactly]
    exact spelt_exact ..
  · rcases missed_or_leaf? schema.root rules.casing parents last with missed | ⟨all, leaf, hl⟩
    · obtain ⟨_, -, refused⟩ := status_of_missed (t := t) segments missed
      cases applied.symm.trans refused
    · have leads := resolve_of_leaf? all hl []
      rcases assignments_trail schema rules t line with
        ⟨a, ha, -, outcome, assigned⟩ | ⟨-, -, refusal, outcome⟩
      · have leads' := (assignment?_eq_some_iff.1 ha).1
        rw [segments] at leads'
        have target := Except.ok.inj (leads.symm.trans leads')
        obtain rfl : a.target.path = path :=
          Status.applied.inj ((congrArg Outcome.status outcome).symm.trans applied)
        refine ⟨_, a.value, leafLookup_of_leaf? all hl [], assigned, ?_⟩
        rw [← target, Target.path, List.nil_append, dotted_concat_inj, eq_comm]
        simp [hl]
      · cases (congrArg Outcome.status outcome).symm.trans applied

theorem lookups_promised_iff_folded :
    let line := Line.read 1 "FileConfig.MAXSIZE=7"
    let rules : Rules := { casing := .ignoreAscii }
    let step := applyLine Gateway.schema rules [] line
    line.segments = ["FileConfig"] ++ ["MAXSIZE"] ∧
      step.outcome.status = .applied "FileConfig.maxSize" ∧
      ¬Spelt .ignoreAscii Gateway.schema.root ["FileConfig"] "MAXSIZE" ∧
      ∃ shown value, (Event.lookups step.events).filter Event.isLeafLookup = [.leafLookup shown true] ∧
        Event.assignments step.events = [("FileConfig.maxSize", value)] ∧
        shown ≠ "FileConfig.maxSize" := by
  intro line rules step
  have segments : line.segments = ["FileConfig"] ++ ["MAXSIZE"] := by decide +kernel
  have applied : step.outcome.status = .applied "FileConfig.maxSize" := by decide +kernel
  have differ : Event.lookups step.events ≠
      promisedLookups .ignoreAscii [] ["FileConfig"] "MAXSIZE" Gateway.schema.root := by
    decide +kernel
  obtain ⟨promised, -, -, shows⟩ :=
    (lookups_promised_iff Gateway.schema rules [] line).2 _ _ segments
  obtain ⟨shown, value, looked, assigned, same⟩ := shows _ applied
  have named : ((Gateway.schema.root.leading .ignoreAscii ["FileConfig"]).2.leaf? .ignoreAscii
      "MAXSIZE").map Leaf.name = some "maxSize" := by decide +kernel
  have other : ¬∃ leaf, (Gateway.schema.root.leading .ignoreAscii ["FileConfig"]).2.leaf? .ignoreAscii
      "MAXSIZE" = some leaf ∧ leaf.name = "MAXSIZE" := by
    rintro ⟨leaf, hl, name⟩
    rw [hl, Option.map_some, name] at named
    exact absurd (Option.some.inj named) (by decide)
  exact ⟨segments, applied, mt promised.2 differ, shown, value, looked, assigned, mt same.1 other⟩

/-- Where case is ignored, what is found is shown as it is spelt in the line, although the line is
applied. -/
theorem not_promised_of_folded :
    ¬∀ (schema : Schema) (rules : Rules) (t : Table) (line : Line) (parents : List String)
        (last : String), line.segments = parents ++ [last] →
      Event.lookups (applyLine schema rules t line).events =
        promisedLookups rules.casing [] parents last schema.root := by
  intro promised
  have shown : Event.lookups
      (applyLine Gateway.schema { casing := .ignoreAscii } [] (Line.read 1 "fileconfig.MAXSIZE=7")).events =
        [.sectionLookup "fileconfig" true, .leafLookup "FileConfig.MAXSIZE" true] := by
    decide +kernel
  have named := promised Gateway.schema { casing := .ignoreAscii } []
    (Line.read 1 "fileconfig.MAXSIZE=7") ["fileconfig"] "MAXSIZE" (by decide +kernel)
  rw [shown] at named
  exact absurd named (by decide +kernel)

end Patch

end DottedPatch
