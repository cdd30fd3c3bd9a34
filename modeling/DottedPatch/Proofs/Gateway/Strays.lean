import DottedPatch.Proofs.Config.Loading
import DottedPatch.Proofs.Gateway.Bases
import Mathlib.Data.List.Sort

namespace DottedPatch.Gateway

open Config Toml Patch

theorem filled_shape : (Shaped.shape GatewayConfig).filled := by decide +kernel

def Declared (q : List String) : Prop := ∃ path leaf, (path, leaf) ∈ schema.leaves ∧ pathOf path = q

theorem declared_iff {q : List String} : Declared q ↔ GatewayConfig.fields.IsLeaf q := by
  refine ⟨?_, exists_leaf_of_isLeaf⟩
  rintro ⟨path, leaf, hleaf, rfl⟩
  exact (isLeaf_of_mem describes_schema hleaf).1

theorem declared_eq_isLeaf : Declared = GatewayConfig.fields.IsLeaf :=
  funext fun _ => propext declared_iff

theorem readable_of_readsAs {t : Table} (ht : t.Ordered)
    (h : ∀ path leaf, (path, leaf) ∈ schema.leaves → ∀ v, Table.lookupPath (pathOf path) t = some v →
      ∃ x, leaf.kind.ReadsAs v x) : GatewayConfig.fields.Readable t := by
  intro q p hp hrecord v hv
  obtain ⟨path, leaf, hleaf, rfl⟩ := exists_leaf_of_isLeaf ⟨p, hp, hrecord⟩
  obtain ⟨p', hp', fills⟩ := (Option.any_eq_true _ _).1 (fills_schema _ hleaf)
  obtain rfl := Option.some.inj (hp.symm.trans hp')
  obtain ⟨x, hx⟩ := h path leaf hleaf v hv
  exact Kind.reads_of_readsAs fills (ht.of_lookupPath hv) hx

/-- Of a base whose sections are tables and whose leaves have values of their kinds, the strays are
what is reported strictly, each of them once and in order. All that is not declared is in one of
them, and what is loaded does not depend on them. -/
theorem readBase_strays [Machine] {text file : String} {upper : Table}
    (hupper : Table.read? text = some upper) (sections : GatewayConfig.fields.sectioned upper)
    (accepted : ∀ path leaf, (path, leaf) ∈ schema.leaves →
      ∀ v, Table.lookupPath (pathOf path) upper = some v → ∃ x, leaf.kind.ReadsAs v x) :
    ∃ (c : GatewayConfig) (strays : List (List String)),
      (∀ path, path ∈ strays ↔ Stray Declared upper path) ∧
      (∀ path v, Table.lookupPath path upper = some v → (∀ q, Declared q → Table.Apart path q) →
        ∃ stray ∈ strays, stray <+: path) ∧
      (∀ stray ∈ strays, ∀ other ∈ strays, stray <+: other → stray = other) ∧
      strays.Nodup ∧ strays.Pairwise Before ∧
      readBase text file false = .ok c ∧
      (∀ text', loadTable (Table.without strays upper) text' file true = .ok c) ∧
      (∀ text', Table.read? text' = some (Table.without strays upper) →
        readBase text' file true = .ok c) ∧
      readBase text file true =
        if strays = [] then .ok c
        else .error (.unknownKeys
          (strays.map fun path => ⟨dotted path, file, keyLine text (dotted path)⟩)) := by
  obtain ⟨lower, hlower⟩ := exists_toTable isTable_shape (default : GatewayConfig)
  have hu := Table.ordered_of_read? hupper
  obtain ⟨c, strays, mem, order, corrected, load⟩ := exists_loadTable_strays hlower rfl regular_shape
    filled_shape (beneath_default hlower) hu (Fields.open_of_sectioned sections)
    (readable_of_readsAs hu accepted)
  have mem (path : List String) : path ∈ strays ↔ Stray Declared upper path := by
    rw [declared_eq_isLeaf]
    exact mem path
  have hleaf : ∃ q, Declared q := by
    rw [declared_eq_isLeaf]
    exact Fields.exists_isLeaf filled_shape
  refine ⟨c, strays, mem, fun path v hv apart => ?_, fun stray hs other ho => ?_, order.nodup, order,
    ?_, fun text' => corrected text' file, fun text' read => ?_, ?_⟩
  · obtain ⟨stray, hstray, within⟩ := Stray.exists_prefix hleaf ⟨v, hv⟩ apart
    exact ⟨stray, (mem stray).2 hstray, within⟩
  · exact ((mem stray).1 hs).eq_of_within ((mem other).1 ho)
  · rw [readBase_eq_loadTable hupper, load, if_pos (.inl rfl)]
  · rw [readBase_eq_loadTable read, corrected]
  · rw [readBase_eq_loadTable hupper, load]
    simp

def misspelt : String :=
  "typo = 1\n[FileConfig]\nmaxsize = 5\n[Other.part]\nx = 1\n[InstanceConfig.props]\nany = \"v\"\n"

def misspeltTable : Table :=
  [("FileConfig", .table [("maxsize", .integer 5)]),
   ("InstanceConfig", .table [("props", .table [("any", .string "v")])]),
   ("Other", .table [("part", .table [("x", .integer 1)])]),
   ("typo", .integer 1)]

def misspeltStrays : List (List String) := [["FileConfig", "maxsize"], ["Other"], ["typo"]]

def corrected : String := "[FileConfig]\n[InstanceConfig.props]\nany = \"v\"\n"

theorem readBase_strays_misspelt : ∃ c : GatewayConfig,
    readBase misspelt "base.toml" false = .ok c ∧ readBase corrected "base.toml" true = .ok c ∧
    readBase misspelt "base.toml" true =
      (.error (.unknownKeys [⟨"FileConfig.maxsize", "base.toml", 3⟩, ⟨"Other", "base.toml", 0⟩,
        ⟨"typo", "base.toml", 1⟩]) : Except Failure GatewayConfig) := by
  have read : Table.read? misspelt = some misspeltTable := by decide +kernel
  have sections : GatewayConfig.fields.sectioned misspeltTable := by decide +kernel
  have elsewhere : ∀ e ∈ schema.leaves, e = ("InstanceConfig.props", .map "props") ∨
      (Table.lookupPath (pathOf e.1) misspeltTable).isNone := by decide +kernel
  have accepted : ∀ path leaf, (path, leaf) ∈ schema.leaves →
      ∀ v, Table.lookupPath (pathOf path) misspeltTable = some v → ∃ x, leaf.kind.ReadsAs v x := by
    intro path leaf hleaf v hv
    obtain eq | missing := elsewhere _ hleaf
    · obtain ⟨rfl, rfl⟩ := Prod.mk.inj eq
      obtain rfl : .table [("any", .string "v")] = v := Option.some.inj hv
      refine ⟨.map (.ofList [("any", "v")]), .map fun key => ?_⟩
      change Option.Rel Value.Text (if "any" = key then some (.string "v") else none)
        (if "any" = key then some "v" else none)
      split
      · exact .some (.string "v")
      · exact .none
    · cases (Option.isNone_iff_eq_none.1 missing).symm.trans hv
  obtain ⟨c, strays, mem, -, -, -, order, lenient, -, correct, strict⟩ :=
    @readBase_strays _ misspelt "base.toml" misspeltTable read sections accepted
  have ignored : (Shape.record "GatewayConfig" GatewayConfig.fields).undeclared (.table misspeltTable) =
    misspeltStrays := by decide +kernel
  have ordered := Table.ordered_of_read? read
  have free := Fields.open_of_sectioned sections
  have found : strays = misspeltStrays := by
    rw [← ignored]
    refine order.eq_of_mem_iff (pairwise_undeclared filled_shape ordered free) fun path => ?_
    rw [mem, declared_eq_isLeaf]
    exact (mem_undeclared_iff filled_shape ordered free).symm
  subst found
  have reported : (misspeltStrays.map fun path =>
      (⟨dotted path, "base.toml", keyLine misspelt (dotted path)⟩ : UnknownKey)) =
      [⟨"FileConfig.maxsize", "base.toml", 3⟩, ⟨"Other", "base.toml", 0⟩, ⟨"typo", "base.toml", 1⟩] := by
    decide +kernel
  refine ⟨c, lenient, correct corrected (by decide +kernel), ?_⟩
  rw [strict, if_neg nofun, reported]

end DottedPatch.Gateway
