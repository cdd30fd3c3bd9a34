import DottedPatch.Proofs.Patch.Steps

namespace DottedPatch.Patch

open Toml

variable {schema : Schema} {rules : Rules}

/-- Which lines are applied may differ between the two passes: in the first a value may be in the
way that a later line takes away. The tables that result are the same. -/
theorem applyAll_idempotent {lines : List Line} {t : Table} (ht : t.Ordered) :
    (applyAll schema rules lines (applyAll schema rules lines t).table).table =
      (applyAll schema rules lines t).table := by
  simp only [applyAll, table_applyLines]
  exact Table.Write.applyAll_applyAll (ordered_writes lines) ht

def crossed : Schema where
  root :=
    { name := ""
      leaves := [(Leaf.string "a").unsets]
      children := [{ name := "a", leaves := [.string "b"] }] }

theorem applyAll_idempotent_crossed :
    let t : Table := [("a", .integer 5)]
    let lines := [Line.read 1 "a.b=x", Line.read 2 "a"]
    let once := applyAll crossed {} lines t
    let twice := applyAll crossed {} lines once.table
    t.Ordered ∧ once.outcomes.map Outcome.isApplied = [false, true] ∧
      twice.outcomes.map Outcome.isApplied = [true, true] ∧ twice.table = once.table := by
  have ordered : Table.Ordered [("a", .integer 5)] := Table.Ordered.empty.insert (.scalar _)
  exact ⟨ordered, by decide +kernel, by decide +kernel, applyAll_idempotent ordered⟩

end DottedPatch.Patch
