import DottedPatch.Proofs.Gateway.Passes
import DottedPatch.Proofs.Patch.Guards
import DottedPatch.Proofs.Schema.Coverage

namespace DottedPatch.Gateway

open Config Toml Patch

theorem plain_shape : (Shaped.shape GatewayConfig).plain := by decide +kernel

/-- A schema that passes the check guards every pass exactly if its leaves have no dots in their
names, give no numbers beyond the field and no lists to sets, and do not lie within each other. -/
theorem guards_iff_sound_of_check [Machine] {schema : Schema} {d : GatewayConfig}
    (h : schema.check d = .ok ()) :
    schema.Guards GatewayConfig ↔ schema.Sound (Shaped.shape GatewayConfig) :=
  Schema.guards_iff_sound regular_shape plain_shape isTable_shape h

/-- The schema of the gateway, but with a wider number than the field holds. -/
def widened : Schema where
  root :=
    { name := ""
      children :=
        { fileConfig with
          leaves := [.boolean "enabled", (Leaf.integer .w64 "maxSize").resetsTo (.integer 0)] } ::
          schema.root.children.tail }

theorem mem_leaves_widened {path : String} {leaf : Leaf} (h : (path, leaf) ∈ widened.leaves) :
    (path, leaf) ∈ schema.leaves ∨
      path = "FileConfig.maxSize" ∧ leaf = (Leaf.integer .w64 "maxSize").resetsTo (.integer 0) := by
  rcases Section.mem_leavesBelow.1 h with ⟨_, hl, _⟩ | ⟨c, hc, h⟩
  · cases hl
  · rcases List.mem_cons.1 hc with rfl | hc
    · rcases Section.mem_leavesBelow.1 h with ⟨_, hl, eq⟩ | ⟨_, hc, _⟩
      · rcases List.mem_cons.1 hl with rfl | hl
        · left
          have inner := (Section.mem_leavesBelow (s := fileConfig)).2 (.inl ⟨_, List.mem_cons_self, eq⟩)
          exact Section.mem_leavesBelow.2 (.inr ⟨fileConfig, List.mem_cons_self, inner⟩)
        · right
          obtain rfl := List.mem_singleton.1 hl
          obtain ⟨rfl, rfl⟩ := Prod.mk.inj eq
          exact ⟨by decide, rfl⟩
      · cases hc
    · left
      exact Section.mem_leavesBelow.2 (.inr ⟨c, List.mem_of_mem_tail hc, h⟩)

theorem accepts_schema : schema.leaves.all fun e => e.2.onNull.value?.all e.2.kind.accepts := by
  decide +kernel

theorem declared_schema : GatewayConfig.fields.declaredIn schema.root := by decide +kernel

theorem check_schema [Machine] (c : GatewayConfig) : schema.check c = .ok () := by
  refine Schema.check_of_describes rfl regular_shape describes_schema declared_schema ?_ c
  intro path leaf hl v hv
  simpa [hv, OnNull.value?] using List.all_eq_true.1 accepts_schema _ hl

theorem checkTable_widened :
    yields (do
      let t ← toTable (default : GatewayConfig)
      (Schema.checkTable widened.root t).mapError Failure.schemaMismatch) fun _ => true := by
  decide +kernel

theorem check_widened : widened.check (default : GatewayConfig) = .ok () := by
  obtain ⟨_, ok, _⟩ := exists_of_yields checkTable_widened
  obtain ⟨t, hd, htable⟩ := ok_of_bind ok
  have fits := fits_toTable hd
  refine Schema.check_of_leaves hd (ok_of_mapError htable) fun path leaf hl => ?_
  rcases mem_leaves_widened hl with hl | ⟨rfl, rfl⟩
  · refine Schema.checkLeaf_of_describes rfl regular_shape fits describes_schema hl fun v hv => ?_
    simpa [hv, OnNull.value?] using List.all_eq_true.1 accepts_schema _ hl
  · have keys : pathOf "FileConfig.maxSize" = ["FileConfig", "maxSize"] := by decide
    refine (Schema.checkLeaf_eq_ok_iff regular_shape isTable_shape fits).2
      ⟨⟨false, .integer .w32⟩, keys ▸ rfl, Shape.fits_of_takes rfl, rfl⟩

theorem guards_iff_sound_of_check_widened :
    widened.check (default : GatewayConfig) = .ok () ∧
      (widened.Guards GatewayConfig ↔ widened.Sound (Shaped.shape GatewayConfig)) :=
  ⟨check_widened, guards_iff_sound_of_check check_widened⟩

/-- One line ends a pass over a schema that passes the check. -/
theorem not_guards_of_check :
    ¬∀ (schema : Schema) (d : GatewayConfig), schema.check d = .ok () → schema.Guards GatewayConfig := by
  intro h
  obtain ⟨p, _, hp, _⟩ := h widened default check_widened {}
    [⟨1, ["FileConfig", "maxSize"], "3000000000"⟩] default
  have fails : yields (applyTo? widened {} [⟨1, ["FileConfig", "maxSize"], "3000000000"⟩]
      (default : GatewayConfig)).1 (fun _ => true) = false := by decide +kernel
  rw [hp] at fails
  cases fails

end DottedPatch.Gateway
