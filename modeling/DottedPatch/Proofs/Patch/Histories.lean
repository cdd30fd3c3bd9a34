import DottedPatch.Proofs.Patch.Storage

/-! What the lines of a patch are to each other.

A rejected line is nothing to the others, on any table: a pass of the applied lines alone gives the
same. On the tables of a configuration no line has a bearing on what becomes of a later one. -/

namespace DottedPatch.Patch

open Config Toml

variable {schema : Schema} {rules : Rules}

@[simp] theorem length_outcomes (lines : List Line) (t : Table) :
    (applyLines schema rules lines t).outcomes.length = lines.length := by
  induction lines generalizing t with
  | nil => rfl
  | cons line lines ih => simp [applyLines, ih]

theorem table_applyLines_append (lines more : List Line) (t : Table) :
    (applyLines schema rules (lines ++ more) t).table =
      (applyLines schema rules more (applyLines schema rules lines t).table).table := by
  induction lines generalizing t with
  | nil => rfl
  | cons line lines ih => exact ih _

theorem outcomes_applyLines_append (lines more : List Line) (t : Table) :
    (applyLines schema rules (lines ++ more) t).outcomes =
      (applyLines schema rules lines t).outcomes ++
        (applyLines schema rules more (applyLines schema rules lines t).table).outcomes := by
  induction lines generalizing t with
  | nil => rfl
  | cons line lines ih => exact congrArg (_ :: ·) (ih _)

theorem table_applyLine_of_rejected {t : Table} {line : Line}
    (h : (applyLine schema rules t line).outcome.isApplied = false) :
    (applyLine schema rules t line).table = t := by
  rcases applyLine_cases schema rules t line with ⟨_, _, _, _, _, houtcome⟩ | ⟨_, htable, _⟩
  · rw [houtcome] at h
    cases h
  · exact htable

def appliedLines (lines : List Line) (outcomes : List Outcome) : List Line :=
  ((lines.zip outcomes).filter fun e => e.2.isApplied).map Prod.fst

theorem applyLines_appliedLines (lines : List Line) (t : Table) :
    let pass := applyLines schema rules lines t
    let kept := applyLines schema rules (appliedLines lines pass.outcomes) t
    kept.table = pass.table ∧ kept.outcomes = pass.outcomes.filter Outcome.isApplied := by
  induction lines generalizing t with
  | nil => exact ⟨rfl, rfl⟩
  | cons line lines ih =>
    obtain ⟨htable, houtcomes⟩ := ih (applyLine schema rules t line).table
    cases applied : (applyLine schema rules t line).outcome.isApplied with
    | true =>
      simp only [applyLines, appliedLines, List.zip_cons_cons, List.filter_cons, applied, if_true,
        List.map_cons]
      exact ⟨htable, congrArg (_ :: ·) houtcomes⟩
    | false =>
      simp only [applyLines, appliedLines, List.zip_cons_cons, List.filter_cons, applied,
        Bool.false_eq_true, if_false]
      rw [table_applyLine_of_rejected applied] at htable houtcomes ⊢
      exact ⟨htable, houtcomes⟩

/-- A line that is rejected leaves any table as it was, with no section made on the way. So a pass
comes to the same table, and to the same outcomes of the applied lines, without the rejected ones. -/
theorem applyAll_isolates (schema : Schema) (rules : Rules) (t : Table) :
    (∀ line, (applyLine schema rules t line).outcome.isApplied = false →
      (applyLine schema rules t line).table = t) ∧
    ∀ lines,
      let pass := applyAll schema rules lines t
      let kept := applyAll schema rules (appliedLines lines pass.outcomes) t
      kept.table = pass.table ∧ kept.outcomes = pass.outcomes.filter Outcome.isApplied :=
  ⟨fun _ => table_applyLine_of_rejected, fun lines => applyLines_appliedLines lines t⟩

section

variable {shape : Shape} (hs : schema.Suits shape) (hr : shape.regular)

include hs hr

theorem outcome_applyLine_of_fits {t u : Table} (ht : shape.Fits (.table t))
    (hu : shape.Fits (.table u)) (line : Line) :
    (applyLine schema rules t line).outcome = (applyLine schema rules u line).outcome := by
  refine outcome_applyLine_congr fun a ha => ?_
  obtain ⟨_, run, -⟩ := applyLine_suited hs hr ht ha
  obtain ⟨_, run', -⟩ := applyLine_suited hs hr hu ha
  rw [run, run']
  rfl

theorem outcome_applyLines_of_fits {t u : Table} (ht : shape.Fits (.table t))
    (hu : shape.Fits (.table u)) (before : List Line) (line : Line) (after : List Line) :
    (applyLines schema rules (before ++ line :: after) t).outcomes[before.length]? =
      some (applyLine schema rules u line).outcome := by
  have fits := fits_applyLines hs hr rules before ht
  rw [outcomes_applyLines_append, List.getElem?_append_right (by simp), length_outcomes, Nat.sub_self]
  exact congrArg some (outcome_applyLine_of_fits hs hr fits hu line)

end

end DottedPatch.Patch
