import DottedPatch.Gateway.Shape
import DottedPatch.Proofs.Gateway.Saves
import DottedPatch.Proofs.Patch.Bases
import DottedPatch.Proofs.Toml.Data
import DottedPatch.Proofs.Toml.Printing

namespace DottedPatch

open Config Toml

namespace Config

mutual

theorem Shape.value?_item : (s : Shape) → (c : s.Carrier) → (s.item c).value? = some (s.encode c)
  | .boolean, _ | .integer _, _ | .string, _ | .choice _, _ => rfl
  | .strings, ss => Item.value?_ofValue (LeafValue.list ss).ordered_toValue
  | .stringSet, ss => Item.value?_ofValue (LeafValue.set ss).ordered_toValue
  | .stringMap, m => by
    have entries := Item.value?_ofValue (LeafValue.map m).ordered_toValue
    exact entries
  | .record _ fields, c => congrArg (some ∘ Value.table) (fields.data_members c)

theorem Fields.data_members : (fields : Fields) → (c : fields.Carrier) →
    Item.data (fields.members c) = fields.encode c
  | .nil, _ => rfl
  | .required name shape rest, c => by
    rw [Fields.members, Item.data, shape.value?_item c.1, rest.data_members c.2]
    rfl
  | .optional name shape rest, (none, c) => rest.data_members c
  | .optional name shape rest, (some x, c) => by
    simp only [Fields.members, Item.data, shape.value?_item x, rest.data_members c]
    rfl

end

end Config

namespace Gateway

open Patch

theorem fills_schema : ∀ e ∈ schema.leaves,
    (GatewayConfig.fields.leaf? (pathOf e.1)).any fun p => e.2.kind.fills p.shape := by
  decide +kernel

/-- A sparse base overrides what it sets, leaf by leaf and at any depth. -/
theorem readBase_overrides [Machine] {text file : String} {c : GatewayConfig} {upper : Table}
    (hc : readBase text file true = .ok c) (hupper : Table.read? text = some upper)
    (sections : GatewayConfig.fields.sectioned upper) :
    ∀ path leaf, (path, leaf) ∈ schema.leaves →
      match Table.lookupPath (pathOf path) upper with
      | some v => ∃ x, leaf.kind.ReadsAs v x ∧ c.valueAt path = some x.toValue
      | none => c.valueAt path = (default : GatewayConfig).valueAt path := by
  intro path leaf hleaf
  obtain ⟨lower, hlower⟩ := exists_toTable isTable_shape (default : GatewayConfig)
  obtain ⟨t, ht, leaves⟩ := lookupPath_of_readBase rfl regular_shape hlower (beneath_default hlower)
    hupper (Fields.open_of_sectioned sections) hc
  obtain ⟨p, hp, fills⟩ := (Option.any_eq_true _ _).1 (fills_schema _ hleaf)
  obtain ⟨p', hp', hrecord⟩ := (isLeaf_of_mem describes_schema hleaf).1
  obtain rfl := Option.some.inj (hp.symm.trans hp')
  have read := leaves _ p hp hrecord
  rw [valueAt_eq ht, valueAt_eq hlower]
  split
  · rename_i v hv
    rw [hv] at read
    obtain ⟨w, hw, hlookup⟩ := read
    obtain ⟨x, readsAs, rfl⟩ := Kind.readsAs_of_reads fills
      (Table.Ordered.of_lookupPath (Table.ordered_of_read? hupper) hv) hw
    exact ⟨x, readsAs, hlookup⟩
  · rename_i hv
    rw [hv] at read
    exact read

def sparse : String :=
  "[ExtPlugin]\npath = \"lib\"\n[CrossFilterConfig.AllowedOrigin]\nprefixes = [\"b\", \"a\", \"b\"]\n" ++
    "[InstanceConfig.props]\nk = \"v\"\n"

def sparseTable : Table :=
  [("CrossFilterConfig", .table [("AllowedOrigin", .table [("prefixes",
      .array [.string "b", .string "a", .string "b"])])]),
   ("ExtPlugin", .table [("path", .string "lib")]),
   ("InstanceConfig", .table [("props", .table [("k", .string "v")])])]

theorem readBase_overrides_sparse : ∃ c : GatewayConfig, readBase sparse "" true = .ok c ∧
    (∃ x, Kind.ReadsAs (.set ',') (.array [.string "b", .string "a", .string "b"]) x ∧
      c.valueAt "CrossFilterConfig.AllowedOrigin.prefixes" = some x.toValue) ∧
    c.valueAt "CrossFilterConfig.AllowedOrigin.spacer" =
      (default : GatewayConfig).valueAt "CrossFilterConfig.AllowedOrigin.spacer" ∧
    c.valueAt "ExtPlugin.threads" = (default : GatewayConfig).valueAt "ExtPlugin.threads" := by
  have loads : (yields (readBase sparse "" true : Except Failure GatewayConfig) fun _ => true) := by
    decide +kernel
  obtain ⟨c, hc, -⟩ := exists_of_yields loads
  have read : Table.read? sparse = some sparseTable := by decide +kernel
  have overrides := readBase_overrides hc read (by decide +kernel)
  exact ⟨c, hc,
    overrides "CrossFilterConfig.AllowedOrigin.prefixes" (.set ',' "prefixes") (by decide +kernel),
    overrides "CrossFilterConfig.AllowedOrigin.spacer" (.string "spacer") (by decide +kernel),
    overrides "ExtPlugin.threads" (.integer .w32 "threads") (by decide +kernel)⟩

/-- A configuration that is printed is read again. What it left open comes back as it is initially. -/
theorem printed_reloads [Machine] (c : GatewayConfig) (file : String) :
    ∃ d, c.document = .ok d ∧ c.text = .ok d.text ∧ toTable c = .ok d.table ∧
      (d.Reprints → ∃ c' : GatewayConfig, readBase d.text file true = .ok c' ∧
        ∀ path leaf, (path, leaf) ∈ schema.leaves →
          c'.valueAt path = (c.valueAt path).or ((default : GatewayConfig).valueAt path)) := by
  let d : Document := { members := GatewayConfig.fields.members c.toCarrier }
  have written : toTable c = .ok d.table := by
    rw [toTable_eq_ok_iff]
    exact congrArg Value.table (Fields.data_members GatewayConfig.fields c.toCarrier).symm
  refine ⟨d, rfl, rfl, written, fun read => ?_⟩
  obtain ⟨lower, hlower⟩ := exists_toTable isTable_shape (default : GatewayConfig)
  obtain ⟨c', t, hc', ht, leaves⟩ := exists_readBase_of_fits rfl regular_shape hlower
    (beneath_default hlower) read file (fits_toTable written)
  refine ⟨c', hc', fun path leaf hleaf => ?_⟩
  rw [valueAt_eq ht, valueAt_eq written, valueAt_eq hlower]
  exact leaves _ (isLeaf_of_mem describes_schema hleaf).1

def mapped : GatewayConfig :=
  let c : GatewayConfig := default
  { c with
    extPlugin := { c.extPlugin with threads := none }
    instanceConfig := { c.instanceConfig with props := some (.ofList [("k", "a \"b\"\n")]) } }

theorem printed_reloads_mapped : ∃ (text : String) (c : GatewayConfig), mapped.text = .ok text ∧
    readBase text "" true = .ok c ∧
    c.valueAt "InstanceConfig.props" = some (.table [("k", .string "a \"b\"\n")]) ∧
    c.valueAt "ExtPlugin.threads" = some (.integer 1) := by
  obtain ⟨d, hd, htext, -, reloads⟩ := printed_reloads mapped ""
  obtain rfl := Except.ok.inj hd
  obtain ⟨c, hc, leaves⟩ := reloads (Document.read?_text_of_rereads (by decide +kernel))
  have props := leaves "InstanceConfig.props" (.map "props") (by decide +kernel)
  have threads := leaves "ExtPlugin.threads" (.integer .w32 "threads") (by decide +kernel)
  exact ⟨_, c, htext, hc, props.trans (by decide +kernel), threads.trans (by decide +kernel)⟩

end Gateway

end DottedPatch
