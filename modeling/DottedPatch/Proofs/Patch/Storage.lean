import DottedPatch.Patch.Apply
import DottedPatch.Proofs.Patch.Kinds
import DottedPatch.Proofs.Patch.Targets

namespace DottedPatch

open Config Toml

structure Schema.Suits (schema : Schema) (shape : Shape) : Prop where
  keys : ∀ target : Patch.Target, target.In schema → pathOf target.path = target.keys
  place : ∀ target : Patch.Target, target.In schema →
    ∃ p, shape.at? target.keys = some p ∧ target.leaf.Suits p

namespace Patch

def lastApplied? (path : String) (lines : List Line) (outcomes : List Outcome) : Option Line :=
  ((lines.zip outcomes).reverse.find? fun e => e.2.appliedPath? = some path).map Prod.fst

theorem lastApplied?_cons (path : String) (line : Line) (lines : List Line) (o : Outcome)
    (outcomes : List Outcome) :
    lastApplied? path (line :: lines) (o :: outcomes) =
      (lastApplied? path lines outcomes).or (if o.appliedPath? = some path then some line else none) := by
  simp only [lastApplied?, List.zip_cons_cons, List.reverse_cons, List.find?_append, Option.map_or]
  congr 1
  by_cases h : o.appliedPath? = some path <;> simp [h]

theorem applied_of_lastApplied? {path : String} {lines : List Line} {outcomes : List Outcome}
    {line : Line} (h : lastApplied? path lines outcomes = some line) :
    ∃ o ∈ outcomes, o.appliedPath? = some path := by
  obtain ⟨⟨_, o⟩, he, rfl⟩ := Option.map_eq_some_iff.1 h
  have applied := List.find?_some he
  have listed := List.mem_reverse.1 (List.mem_of_find?_eq_some he)
  exact ⟨o, (List.of_mem_zip listed).2, of_decide_eq_true applied⟩

variable {schema : Schema} {rules : Rules} {shape : Shape}

/-- What is left at a path after lines were applied to a table. -/
def Holds (schema : Schema) (rules : Rules) (path : String) (before after : Table) : Option Line → Prop
  | some line => ∃ a, line.assignment? schema rules = some a ∧ a.target.path = path ∧
      Table.lookupPath (pathOf path) after = a.value.map LeafValue.toValue
  | none => Table.lookupPath (pathOf path) after = Table.lookupPath (pathOf path) before

theorem applyLine_suited (hs : schema.Suits shape) (hr : shape.regular) {t : Table}
    (ht : shape.Fits (.table t)) {line : Line} {a : Assignment}
    (ha : line.assignment? schema rules = some a) :
    ∃ t', a.write.run? t = some t' ∧ shape.Fits (.table t') ∧
      (applyLine schema rules t line).table = t' ∧
      (applyLine schema rules t line).outcome = ⟨line.number, line.path, .applied a.target.path⟩ := by
  obtain ⟨p, hp, suits⟩ := hs.place a.target (in_of_assignment? ha)
  obtain ⟨t', run, fits⟩ :=
    ht.run? hr (w := a.write) hp (suits _ _ _ (assignment?_eq_some_iff.1 ha).2)
  exact ⟨t', run, fits, applyLine_of_run? ha run⟩

theorem applyLine_unassigned {t : Table} {line : Line} (h : line.assignment? schema rules = none) :
    (applyLine schema rules t line).table = t ∧
      (applyLine schema rules t line).outcome.appliedPath? = none := by
  rcases applyLine_cases schema rules t line with
    ⟨a, _, ha, _⟩ | ⟨_, htable, _, houtcome⟩
  · simp [h] at ha
  · rw [houtcome]
    exact ⟨htable, rfl⟩

theorem fits_applyLines (hs : schema.Suits shape) (hr : shape.regular) (rules : Rules)
    (lines : List Line) {t : Table}
    (ht : shape.Fits (.table t)) : shape.Fits (.table (applyLines schema rules lines t).table) := by
  induction lines generalizing t with
  | nil => exact ht
  | cons line lines ih =>
    apply ih
    cases ha : line.assignment? schema rules with
    | none => rwa [(applyLine_unassigned ha).1]
    | some a =>
      obtain ⟨t', _, fits, htable, _⟩ := applyLine_suited hs hr ht ha
      rwa [htable]

theorem lookupPath_of_assignment (hs : schema.Suits shape) {path : String} {line : Line}
    {a : Assignment} (ha : line.assignment? schema rules = some a)
    (apart : a.target.path ≠ path → Table.Apart a.target.keys (pathOf path)) {t t' : Table}
    (run : a.write.run? t = some t') :
    Table.lookupPath (pathOf path) t' =
      if a.target.path = path then a.value.map LeafValue.toValue
      else Table.lookupPath (pathOf path) t := by
  split
  · rename_i here
    rw [← here, hs.keys a.target (in_of_assignment? ha)]
    exact Table.Write.lookupPath_run? run
  · rename_i elsewhere
    exact Table.Write.lookupPath_run?_of_apart run (apart elsewhere)

theorem holds_applyLines (hs : schema.Suits shape) (hr : shape.regular) {path : String}
    (apart : ∀ target : Target, target.In schema → target.path ≠ path →
      Table.Apart target.keys (pathOf path))
    (rules : Rules) (lines : List Line) {t : Table} (ht : shape.Fits (.table t)) :
    Holds schema rules path t (applyLines schema rules lines t).table
      (lastApplied? path lines (applyLines schema rules lines t).outcomes) := by
  induction lines generalizing t with
  | nil => rfl
  | cons line lines ih =>
    simp only [applyLines, lastApplied?_cons]
    cases ha : line.assignment? schema rules with
    | none =>
      obtain ⟨htable, houtcome⟩ := applyLine_unassigned (t := t) ha
      simp only [htable, houtcome, reduceCtorEq, if_false, Option.or_none]
      exact ih ht
    | some a =>
      obtain ⟨t', run, fits, htable, houtcome⟩ := applyLine_suited hs hr ht ha
      simp only [htable, houtcome, Outcome.appliedPath?, Option.some.injEq]
      have rest := ih fits
      cases hlast : lastApplied? path lines (applyLines schema rules lines t').outcomes with
      | some last =>
        rw [hlast] at rest
        exact rest
      | none =>
        rw [hlast] at rest
        have set := lookupPath_of_assignment hs ha (apart _ (in_of_assignment? ha)) run
        rw [Option.none_or]
        split
        · rename_i here
          exact ⟨a, ha, here, Eq.trans rest (set.trans (if_pos here))⟩
        · rename_i elsewhere
          exact Eq.trans rest (set.trans (if_neg elsewhere))

theorem lookupPath_applyLines_of_unapplied (hs : schema.Suits shape) (hr : shape.regular)
    {path : String} (apart : ∀ target : Target, target.In schema → target.path ≠ path →
      Table.Apart target.keys (pathOf path))
    (rules : Rules) (lines : List Line) {t : Table} (ht : shape.Fits (.table t))
    (h : ∀ o ∈ (applyLines schema rules lines t).outcomes, o.appliedPath? ≠ some path) :
    Table.lookupPath (pathOf path) (applyLines schema rules lines t).table =
      Table.lookupPath (pathOf path) t := by
  have holds := holds_applyLines hs hr apart rules lines ht
  cases hlast : lastApplied? path lines (applyLines schema rules lines t).outcomes with
  | none =>
    rw [hlast] at holds
    exact holds
  | some line =>
    obtain ⟨o, ho, applied⟩ := applied_of_lastApplied? hlast
    exact absurd applied (h o ho)

theorem table_applyLines_of_rejected (lines : List Line) {t : Table}
    (h : ∀ o ∈ (applyLines schema rules lines t).outcomes, o.isApplied = false) :
    (applyLines schema rules lines t).table = t := by
  induction lines generalizing t with
  | nil => rfl
  | cons line lines ih =>
    simp only [applyLines, List.mem_cons, forall_eq_or_imp] at h ⊢
    rcases applyLine_cases schema rules t line with
      ⟨a, _, _, _, _, houtcome⟩ | ⟨_, htable, _⟩
    · simp [houtcome, Outcome.isApplied, Outcome.appliedPath?] at h
    · rw [htable] at h ⊢
      exact ih h.2

theorem in_of_applied {lines : List Line} {t : Table} {o : Outcome} {path : String}
    (ho : o ∈ (applyLines schema rules lines t).outcomes) (h : o.appliedPath? = some path) :
    ∃ target : Target, target.In schema ∧ target.path = path := by
  induction lines generalizing t with
  | nil => simp [applyLines] at ho
  | cons line lines ih =>
    simp only [applyLines, List.mem_cons] at ho
    rcases ho with rfl | ho
    · rcases applyLine_cases schema rules t line with
        ⟨a, _, ha, _, _, houtcome⟩ | ⟨_, _, refusal, houtcome⟩
      · rw [houtcome] at h
        exact ⟨a.target, in_of_assignment? ha, Option.some.inj h⟩
      · rw [houtcome] at h
        cases h
    · exact ih ho

theorem in_of_lastApplied? {lines : List Line} {t : Table} {path : String} {line : Line}
    (h : lastApplied? path lines (applyLines schema rules lines t).outcomes = some line) :
    ∃ target : Target, target.In schema ∧ target.path = path := by
  obtain ⟨o, ho, applied⟩ := applied_of_lastApplied? h
  exact in_of_applied ho applied

section

variable {α : Type} [Shaped α] [Inhabited α]

theorem applyTo?_of_suits (hs : schema.Suits (Shaped.shape α)) (hr : (Shaped.shape α).regular)
    (ht : (Shaped.shape α).isTable) (rules : Rules) (lines : List Line) (c : α) :
    ∃ p t, (applyTo? schema rules lines c).1 = .ok p ∧ toTable c = .ok t ∧
      toTable p.config = .ok (applyLines schema rules lines t).table ∧
      p.report.outcomes = (applyLines schema rules lines t).outcomes := by
  obtain ⟨t, hc⟩ := exists_toTable ht c
  obtain ⟨d, hd, hd'⟩ :=
    exists_ofTable hr (fits_applyLines hs hr rules lines (fits_toTable hc))
  refine ⟨⟨d, ⟨(applyLines schema rules lines t).outcomes⟩⟩, t, ?_, hc, hd', rfl⟩
  simp only [applyTo?, hc, applyAll, hd]
  rfl

end

end Patch

end DottedPatch
