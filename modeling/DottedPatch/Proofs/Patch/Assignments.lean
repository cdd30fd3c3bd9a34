import DottedPatch.Proofs.Patch.Histories
import DottedPatch.Proofs.Patch.Storage

namespace DottedPatch.Patch

open Config Toml

variable {schema : Schema} {rules : Rules}

def Line.content (line : Line) : List String × String := (line.segments, line.raw)

/-- The assignments of the lines that name a leaf and hold a value of it. -/
def assignments (schema : Schema) (rules : Rules) (lines : List Line) : List Assignment :=
  lines.filterMap fun line => line.assignment? schema rules

def given? (path : String) (as : List Assignment) : Option (Option LeafValue) :=
  (as.reverse.find? fun a => a.target.path = path).map Assignment.value

theorem given?_append (path : String) (as bs : List Assignment) :
    given? path (as ++ bs) = (given? path bs).or (given? path as) := by
  rw [given?, List.reverse_append, List.find?_append, Option.map_or]
  rfl

theorem given?_cons (path : String) (a : Assignment) (as : List Assignment) :
    given? path (a :: as) = (given? path as).or (if a.target.path = path then some a.value else none) := by
  rw [show a :: as = [a] ++ as from rfl, given?_append]
  by_cases h : a.target.path = path <;> simp [given?, h]

theorem given?_ne_none {path : String} {as : List Assignment} :
    given? path as ≠ none ↔ path ∈ as.map fun a => a.target.path := by
  simp [given?]

theorem assignments_append (lines more : List Line) :
    assignments schema rules (lines ++ more) =
      assignments schema rules lines ++ assignments schema rules more :=
  List.filterMap_append

theorem assignment?_of_content {line line' : Line} (h : line.content = line'.content) :
    line.assignment? schema rules = line'.assignment? schema rules := by
  obtain ⟨hs, hr⟩ := Prod.mk.inj h
  simp only [Line.assignment?, hs, hr]

theorem assignments_of_content {lines lines' : List Line}
    (h : lines.map Line.content = lines'.map Line.content) :
    assignments schema rules lines = assignments schema rules lines' := by
  induction lines generalizing lines' with
  | nil =>
    obtain rfl := List.map_eq_nil_iff.1 h.symm
    rfl
  | cons line lines ih =>
    obtain ⟨line', rest, rfl, hline, hrest⟩ := List.map_eq_cons_iff.1 h.symm
    simp only [assignments, List.filterMap_cons, assignment?_of_content hline.symm]
    rw [show List.filterMap _ lines = List.filterMap _ rest from ih hrest.symm]

theorem status_of_content {line line' : Line} (h : line.content = line'.content) (t : Table) :
    (applyLine schema rules t line).outcome.status = (applyLine schema rules t line').outcome.status := by
  obtain ⟨hs, hr⟩ := Prod.mk.inj h
  simp only [applyLine, hs]
  split
  · simp only [applyTo, hr]
    split
    · rfl
    · split <;> rfl
  · rfl

section

variable {shape : Shape} (hs : schema.Suits shape) (hr : shape.regular)

include hs hr

theorem lookupPath_applyLines {path : String}
    (apart : ∀ target : Target, target.In schema → target.path ≠ path →
      Table.Apart target.keys (pathOf path))
    (lines : List Line) {t : Table} (ht : shape.Fits (.table t)) :
    Table.lookupPath (pathOf path) (applyLines schema rules lines t).table =
      match given? path (assignments schema rules lines) with
      | some v => v.map LeafValue.toValue
      | none => Table.lookupPath (pathOf path) t := by
  induction lines generalizing t with
  | nil => rfl
  | cons line lines ih =>
    cases ha : line.assignment? schema rules with
    | none =>
      simp only [applyLines, (applyLine_unassigned ha).1, assignments, List.filterMap_cons, ha]
      exact ih ht
    | some a =>
      obtain ⟨t', run, fits, htable, -⟩ := applyLine_suited hs hr ht ha
      simp only [applyLines, htable, assignments, List.filterMap_cons, ha, given?_cons]
      have rest := ih fits
      rw [assignments] at rest
      cases hlast : given? path (lines.filterMap fun line => line.assignment? schema rules) with
      | some v =>
        rw [hlast] at rest
        exact rest
      | none =>
        rw [hlast] at rest
        have set := lookupPath_of_assignment hs ha (apart _ (in_of_assignment? ha)) run
        rw [Option.none_or]
        refine Eq.trans rest (set.trans ?_)
        split <;> rfl

theorem applied_applyLines (lines : List Line) {t : Table} (ht : shape.Fits (.table t)) :
    (applyLines schema rules lines t).outcomes.filterMap Outcome.appliedPath? =
      (assignments schema rules lines).map fun a => a.target.path := by
  induction lines generalizing t with
  | nil => rfl
  | cons line lines ih =>
    cases ha : line.assignment? schema rules with
    | none =>
      obtain ⟨htable, houtcome⟩ := applyLine_unassigned (t := t) ha
      simp only [applyLines, List.filterMap_cons, houtcome, htable, assignments, ha]
      exact ih ht
    | some a =>
      obtain ⟨t', -, fits, htable, houtcome⟩ := applyLine_suited hs hr ht ha
      simp only [applyLines, List.filterMap_cons, houtcome, htable, assignments, ha, List.map_cons]
      exact congrArg (a.target.path :: ·) (ih fits)

theorem statuses_applyLines {lines lines' : List Line} (h : lines.map Line.content = lines'.map Line.content)
    {t u : Table} (ht : shape.Fits (.table t)) (hu : shape.Fits (.table u)) :
    (applyLines schema rules lines t).outcomes.map Outcome.status =
      (applyLines schema rules lines' u).outcomes.map Outcome.status := by
  induction lines generalizing lines' t u with
  | nil =>
    obtain rfl := List.map_eq_nil_iff.1 h.symm
    rfl
  | cons line lines ih =>
    obtain ⟨line', rest, rfl, hline, hrest⟩ := List.map_eq_cons_iff.1 h.symm
    simp only [applyLines, List.map_cons, List.cons.injEq]
    refine ⟨?_, ih hrest.symm ?_ ?_⟩
    · rw [outcome_applyLine_of_fits hs hr ht hu]
      exact status_of_content hline.symm u
    · exact fits_applyLines hs hr rules [line] ht
    · exact fits_applyLines hs hr rules [line'] hu

end

end DottedPatch.Patch
