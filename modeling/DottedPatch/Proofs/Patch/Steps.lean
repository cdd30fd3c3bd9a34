import DottedPatch.Patch.Pass
import DottedPatch.Proofs.Toml.Walks
import DottedPatch.Proofs.Toml.Writes

namespace DottedPatch

open Toml

namespace Patch

/-- The leaf that a line names, and the value that it gives to the leaf. -/
structure Assignment where
  target : Target
  value : Option LeafValue

namespace Assignment

def write (a : Assignment) : Table.Write := ⟨a.target.parents, a.target.leaf.name, a.value.map LeafValue.toValue⟩

@[simp] theorem path_write (a : Assignment) : a.write.path = a.target.keys := rfl

@[simp] theorem value_write (a : Assignment) : a.write.value = a.value.map LeafValue.toValue := rfl

theorem ordered_write (a : Assignment) (v : Value) (h : a.write.value = some v) : v.Ordered := by
  obtain ⟨w, _, rfl⟩ := Option.map_eq_some_iff.1 h
  exact w.ordered_toValue

theorem setLeaf_eq_setPath (a : Assignment) (t : Table) :
    setLeaf a.target a.value t = Table.setPath a.write.path a.write.value t := by
  obtain ⟨target, value⟩ := a
  cases value <;> rfl

end Assignment

def Line.assignment? (schema : Schema) (rules : Rules) (line : Line) : Option Assignment :=
  match (resolve rules.casing [] line.segments schema.root).2 with
  | .error _ => none
  | .ok target =>
    match coerce rules.entries target.leaf line.raw with
    | .error _ => none
    | .ok value => some ⟨target, value⟩

variable {schema : Schema} {rules : Rules}

theorem assignment?_eq_some_iff {line : Line} {a : Assignment} :
    line.assignment? schema rules = some a ↔
      (resolve rules.casing [] line.segments schema.root).2 = .ok a.target ∧
        coerce rules.entries a.target.leaf line.raw = .ok a.value := by
  simp only [Line.assignment?]
  constructor
  · intro h
    split at h
    · simp at h
    · rename_i target hr
      split at h
      · simp at h
      · rename_i value hc
        obtain rfl := Option.some.inj h
        exact ⟨hr, hc⟩
  · rintro ⟨hr, hc⟩
    simp only [hr, hc]

/-- What a line does, and the trail it leaves: its lookups, the map entries that it skips, and how it
ended. It is applied where its write goes through; otherwise it is rejected and changes nothing. -/
theorem trail_applyLine (schema : Schema) (rules : Rules) (t : Table) (line : Line) :
    let step := applyLine schema rules t line
    ∃ (skipped : List String) (ending : List Event), step.events =
        (resolve rules.casing [] line.segments schema.root).1 ++ skipped.map .entrySkipped ++ ending ∧
      ((∃ a, line.assignment? schema rules = some a ∧ a.write.run? t = some step.table ∧
          step.outcome = ⟨line.number, line.path, .applied a.target.path⟩ ∧
          ending = [.assigned a.target.path a.value, .applied line.number a.target.path]) ∨
        ((∀ a, line.assignment? schema rules = some a → a.write.run? t = none) ∧ step.table = t ∧
          ∃ refusal : Refusal,
            step.outcome = ⟨line.number, line.path, .rejected refusal.resolved refusal.reason⟩ ∧
            ending = [.rejected line.number line.path refusal.reason])) := by
  simp only [applyLine, Line.assignment?]
  rcases hr : resolve rules.casing [] line.segments schema.root with ⟨events, refusal | target⟩
  · exact ⟨[], [.rejected line.number line.path refusal.reason], by simp [Step.rejected],
      .inr ⟨by simp, rfl, refusal, rfl, rfl⟩⟩
  · simp only [applyTo]
    cases hc : coerce rules.entries target.leaf line.raw with
    | error reason => exact ⟨_, _, rfl, .inr ⟨by simp, rfl, ⟨target.path, reason⟩, rfl, rfl⟩⟩
    | ok value =>
      let a : Assignment := ⟨target, value⟩
      rcases Table.walk_run? a.write t with ⟨arrived, run⟩ | ⟨ended, same, blocked⟩
      · have arrived : (Table.walk [] target.parents t).arrived = true := arrived
        simp only [arrived, if_true]
        rw [← a.setLeaf_eq_setPath] at run
        exact ⟨_, _, List.append_assoc .., .inl ⟨a, rfl, run, rfl, rfl⟩⟩
      · have ended : (Table.walk [] target.parents t).arrived = false := ended
        simp only [ended, Bool.false_eq_true, if_false]
        refine ⟨_, _, rfl, .inr ⟨?_, same, ⟨target.path, noSection⟩, rfl, rfl⟩⟩
        rintro b ⟨rfl⟩
        exact blocked

theorem applyLine_cases (schema : Schema) (rules : Rules) (t : Table) (line : Line) :
    (∃ a t', line.assignment? schema rules = some a ∧ a.write.run? t = some t' ∧
      (applyLine schema rules t line).table = t' ∧
      (applyLine schema rules t line).outcome = ⟨line.number, line.path, .applied a.target.path⟩) ∨
    ((∀ a, line.assignment? schema rules = some a → a.write.run? t = none) ∧
      (applyLine schema rules t line).table = t ∧
      ∃ refusal : Refusal, (applyLine schema rules t line).outcome =
        ⟨line.number, line.path, .rejected refusal.resolved refusal.reason⟩) := by
  obtain ⟨_, _, -, ends⟩ := trail_applyLine schema rules t line
  rcases ends with ⟨a, ha, run, outcome, -⟩ | ⟨blocked, same, refusal, outcome, -⟩
  · exact .inl ⟨a, _, ha, run, rfl, outcome⟩
  · exact .inr ⟨blocked, same, refusal, outcome⟩

theorem applyLine_of_run? {t t' : Table} {line : Line} {a : Assignment}
    (ha : line.assignment? schema rules = some a) (run : a.write.run? t = some t') :
    (applyLine schema rules t line).table = t' ∧
      (applyLine schema rules t line).outcome = ⟨line.number, line.path, .applied a.target.path⟩ := by
  rcases applyLine_cases schema rules t line with
    ⟨b, u, hb, hrun, htable, houtcome⟩ | ⟨hblocked, _⟩
  · obtain rfl := Option.some.inj (ha.symm.trans hb)
    obtain rfl := Option.some.inj (run.symm.trans hrun)
    exact ⟨htable, houtcome⟩
  · simp [hblocked a ha] at run

theorem outcome_applyLine_congr {t u : Table} {line : Line}
    (h : ∀ a, line.assignment? schema rules = some a →
      (a.write.run? t).isSome = (a.write.run? u).isSome) :
    (applyLine schema rules t line).outcome = (applyLine schema rules u line).outcome := by
  simp only [applyLine]
  rcases hr : resolve rules.casing [] line.segments schema.root with ⟨events, refusal | target⟩
  · rfl
  · cases hc : coerce rules.entries target.leaf line.raw with
    | error reason => simp only [applyTo, hc]; rfl
    | ok value =>
      have same := h ⟨target, value⟩ (assignment?_eq_some_iff.2 ⟨by rw [hr], hc⟩)
      rw [← Table.arrived_walk, ← Table.arrived_walk] at same
      have arrived : (Table.walk [] target.parents t).arrived =
          (Table.walk [] target.parents u).arrived := same
      simp only [applyTo, hc, arrived]
      split <;> rfl

theorem table_applyLine (t : Table) (line : Line) :
    (applyLine schema rules t line).table =
      match line.assignment? schema rules with
      | some a => a.write.apply t
      | none => t := by
  rcases applyLine_cases schema rules t line with
    ⟨a, t', ha, hw, ht, _⟩ | ⟨hw, ht, _⟩
  · rw [ht, ha]
    simp [Table.Write.apply, hw]
  · rw [ht]
    cases ha : line.assignment? schema rules with
    | none => rfl
    | some a => simp [Table.Write.apply, hw a ha]

def writes (schema : Schema) (rules : Rules) (lines : List Line) : List Table.Write :=
  lines.filterMap fun line => (line.assignment? schema rules).map Assignment.write

theorem table_applyLines (lines : List Line) (t : Table) :
    (applyLines schema rules lines t).table = Table.Write.applyAll (writes schema rules lines) t := by
  induction lines generalizing t with
  | nil => rfl
  | cons line lines ih =>
    simp only [applyLines, ih, table_applyLine, writes, List.filterMap_cons]
    cases line.assignment? schema rules with
    | none => rfl
    | some a => rfl

theorem ordered_writes (lines : List Line) :
    ∀ w ∈ writes schema rules lines, ∀ v, w.value = some v → v.Ordered := by
  intro w hw
  obtain ⟨line, _, h⟩ := List.mem_filterMap.1 hw
  obtain ⟨a, _, rfl⟩ := Option.map_eq_some_iff.1 h
  exact a.ordered_write

end Patch

end DottedPatch
