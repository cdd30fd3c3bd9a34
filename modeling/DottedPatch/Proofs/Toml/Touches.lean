import DottedPatch.Proofs.Toml.Walks

namespace DottedPatch.Toml.Table

/-- Some paths of a table are set to their values, and nothing else is touched. -/
structure Touches (value : List String → Option Value) (paths : List (List String))
    (before after : Table) : Prop where
  /-- What a path is set to is there, and nothing is there without a value. -/
  set : ∀ p ∈ paths, lookupPath p after = value p
  apart : ∀ q, (∀ p ∈ paths, ¬p <+: q ∧ ¬q <+: p) → lookupPath q after = lookupPath q before
  /-- All else that is new are tables on the way to a value. -/
  made : ∀ q, (∀ p ∈ paths, ¬p <+: q) → lookupPath q before = none → lookupPath q after ≠ none →
    HasTable q after ∧ ∃ p ∈ paths, q <+: p ∧ value p ≠ none
  kept : ∀ q, (∀ p ∈ paths, ¬p <+: q) → HasTable q before → HasTable q after

theorem hasTable_setPath {path q : List String} (h : ¬path <+: q) (v : Option Value) (t : Table) :
    HasTable q (setPath path v t) ↔ HasTable q t ∨ q <+: path ∧ v ≠ none := by
  by_cases hq : q = []
  · simp [HasTable, hq]
  by_cases hqp : q <+: path
  · have ne : q ≠ path := fun eq => h (eq ▸ List.prefix_rfl)
    cases v with
    | none =>
      rcases lookupPath_erasePath_before hq hqp ne t with same | ⟨sub, sub', before, after⟩
      · simp [HasTable, setPath, same]
      · simp [HasTable, setPath, before, after]
    | some v =>
      obtain ⟨sub, hsub⟩ := lookupPath_insertPath_of_prefix (v := v) (t := t) hq hqp ne
      simp [HasTable, setPath, hsub, hqp]
  · simp [HasTable, lookupPath_setPath_of_apart ⟨h, hqp⟩, hqp]

section

variable {value : List String → Option Value} {paths : List (List String)}

theorem hasTable_setPaths {q : List String} (h : ∀ p ∈ paths, ¬p <+: q) (t : Table) :
    HasTable q (setPaths value paths t) ↔
      HasTable q t ∨ ∃ p ∈ paths, q <+: p ∧ value p ≠ none := by
  induction paths generalizing t with
  | nil => simp [setPaths]
  | cons p paths ih =>
    have rest := ih (fun p hp => h p (List.mem_cons_of_mem _ hp)) (setPath p (value p) t)
    rw [hasTable_setPath (h p List.mem_cons_self), or_assoc] at rest
    simp only [List.mem_cons, exists_eq_or_imp]
    exact rest

theorem touches_setPaths (apart : ∀ p ∈ paths, ∀ q ∈ paths, p ≠ q → Apart p q)
    (filled : ∀ p ∈ paths, p ≠ []) (t : Table) : Touches value paths t (setPaths value paths t) where
  set q hq := lookupPath_setPaths_of_mem (fun p hp => apart p hp q hq) (filled q hq) hq t
  apart q h := lookupPath_setPaths_of_apart h t
  made q h absent present := by
    obtain ⟨v, hv⟩ := Option.ne_none_iff_exists'.1 present
    have hq : q ≠ [] := by
      rintro rfl
      cases hv
    cases hvt : v.table? with
    | none =>
      -- Another value would have been there before.
      have there := ((lookupPath_setPaths_before hq h hvt).1 hv).1
      rw [absent] at there
      cases there
    | some sub =>
      obtain rfl := Value.table?_eq_some.1 hvt
      have table : HasTable q (setPaths value paths t) := .inr ⟨sub, hv⟩
      refine ⟨table, ((hasTable_setPaths h t).1 table).resolve_left ?_⟩
      rintro (eq | ⟨sub', hsub'⟩)
      · exact hq eq
      · rw [absent] at hsub'
        cases hsub'
  kept q h table := (hasTable_setPaths h t).2 (.inl table)

end

end DottedPatch.Toml.Table
