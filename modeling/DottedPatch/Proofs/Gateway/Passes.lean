import DottedPatch.Gateway.Schema
import DottedPatch.Gateway.Shape
import DottedPatch.Proofs.Patch.Description
import DottedPatch.Proofs.Patch.Histories
import Mathlib.Data.List.Nodup

namespace DottedPatch.Gateway

open Config Toml Patch

theorem regular_shape : (Shaped.shape GatewayConfig).regular := by decide +kernel

theorem isTable_shape : (Shaped.shape GatewayConfig).isTable := rfl

def GatewayConfig.fields : Fields :=
  match GatewayConfig.shape with
  | .record _ fields => fields
  | _ => .nil

theorem describes_schema : schema.root.describes GatewayConfig.fields := by decide +kernel

theorem nodup_paths : (schema.leaves.map Prod.fst).Nodup := by decide +kernel

theorem suits_schema : schema.Suits (Shaped.shape GatewayConfig) := suits_of_describes describes_schema _

theorem leaf_unique {path : String} {leaf : Leaf} (hl : (path, leaf) ∈ schema.leaves)
    {target : Target} (hin : target.In schema) (hp : target.path = path) : target.leaf = leaf := by
  have hm := hin.mem_leaves describes_schema
  have eq := List.inj_on_of_nodup_map nodup_paths hm hl hp
  exact congrArg Prod.snd eq

/-- Whatever the lines, a pass over a configuration of the gateway gives a configuration. It holds
at each leaf what the last line applied there was coerced to, and what it held before where no line
was applied. -/
theorem applyTo?_schema [Machine] (rules : Rules) (lines : List Line) (c : GatewayConfig) :
    ∃ p t t', (applyTo? schema rules lines c).1 = .ok p ∧ toTable c = .ok t ∧
      toTable p.config = .ok t' ∧
      (∀ path leaf, (path, leaf) ∈ schema.leaves →
        match lastApplied? path lines p.report.outcomes with
        | some line => ∃ v, coerce rules.entries leaf line.raw = .ok v ∧
            Table.lookupPath (pathOf path) t' = v.map LeafValue.toValue
        | none => Table.lookupPath (pathOf path) t' = Table.lookupPath (pathOf path) t) ∧
      (p.report.appliedCount = 0 → p.config = c) := by
  obtain ⟨p, t, hp, ht, ht', houtcomes⟩ :=
    applyTo?_of_suits suits_schema regular_shape isTable_shape rules lines c
  refine ⟨p, t, _, hp, ht, ht', ?_, ?_⟩
  · intro path leaf hl
    have holds := holds_applyLines suits_schema regular_shape
      (fun _ hin ne => apart_of_describes describes_schema hl hin ne) rules lines (fits_toTable ht)
    rw [houtcomes]
    split
    · rename_i line hlast
      rw [hlast] at holds
      obtain ⟨a, ha, hpath, hlookup⟩ := holds
      refine ⟨a.value, ?_, hlookup⟩
      rw [← leaf_unique hl (in_of_assignment? ha) hpath]
      exact (assignment?_eq_some_iff.1 ha).2
    · rename_i hlast
      rw [hlast] at holds
      exact holds
  · intro none
    have same : (applyLines schema rules lines t).table = t := by
      apply table_applyLines_of_rejected
      rw [← houtcomes]
      intro o ho
      simpa using List.countP_eq_zero.1 none o ho
    rw [same] at ht'
    exact eq_of_toTable regular_shape ht' ht

/-- Outcomes never influence later lines: what becomes of a line depends neither on the configuration
nor on the lines around it, and a pass can be stopped and taken up again at any line, through a
configuration, with the same result. -/
theorem applyTo?_append [Machine] (rules : Rules) :
    (∀ line, ∃ outcome, ∀ (c : GatewayConfig) before after,
      ∃ p, (applyTo? schema rules (before ++ line :: after) c).1 = .ok p ∧
        p.report.outcomes[before.length]? = some outcome) ∧
    ∀ (c : GatewayConfig) lines more,
      ∃ whole first second,
        (applyTo? schema rules (lines ++ more) c).1 = .ok whole ∧
        (applyTo? schema rules lines c).1 = .ok first ∧
        (applyTo? schema rules more first.config).1 = .ok second ∧
        whole.config = second.config ∧
        whole.report.outcomes = first.report.outcomes ++ second.report.outcomes := by
  have passes (lines : List Line) (c : GatewayConfig) :=
    applyTo?_of_suits suits_schema regular_shape isTable_shape rules lines c
  constructor
  · intro line
    obtain ⟨u, hu⟩ := exists_toTable isTable_shape (default : GatewayConfig)
    refine ⟨(applyLine schema rules u line).outcome, fun c before after => ?_⟩
    obtain ⟨p, t, hp, ht, -, houtcomes⟩ := passes (before ++ line :: after) c
    refine ⟨p, hp, ?_⟩
    rw [houtcomes]
    exact outcome_applyLines_of_fits suits_schema regular_shape (fits_toTable ht) (fits_toTable hu)
      before line after
  · intro c lines more
    obtain ⟨whole, t, hwhole, ht, hwt, hwo⟩ := passes (lines ++ more) c
    obtain ⟨first, t₁, hfirst, ht₁, hft, hfo⟩ := passes lines c
    obtain ⟨second, t₂, hsecond, ht₂, hst, hso⟩ := passes more first.config
    obtain rfl : t = t₁ := Except.ok.inj (ht.symm.trans ht₁)
    -- The second pass starts at the very table at which the first one ended.
    obtain rfl := Except.ok.inj (hft.symm.trans ht₂)
    refine ⟨whole, first, second, hwhole, hfirst, hsecond, ?_, ?_⟩
    · rw [table_applyLines_append] at hwt
      exact eq_of_toTable regular_shape hwt hst
    · rw [hwo, hfo, hso, outcomes_applyLines_append]

end DottedPatch.Gateway
