import DottedPatch.Proofs.Patch.WriteBack
import DottedPatch.Proofs.Toml.Data
import DottedPatch.Proofs.Toml.Touches

namespace DottedPatch

open Config Toml

namespace Patch

variable {t : Table} (ht : t.Ordered)

include ht

section

variable {d : Document} (hd : d.members.Distinct) (path : String)

include hd

theorem distinct_writeLeaf : (writeLeaf t d path).members.Distinct := by
  cases hv : Table.lookupPath (pathOf path) t with
  | none =>
    rw [writeLeaf_of_none hv]
    exact hd.remove _
  | some v =>
    rw [writeLeaf_of_some hv]
    exact hd.store (Item.distinct_ofValue (ht.of_lookupPath hv)) _ _

theorem table_writeLeaf : (writeLeaf t d path).table =
    Table.setPath (pathOf path) (Table.lookupPath (pathOf path) t) d.table := by
  rw [Document.table]
  cases hv : Table.lookupPath (pathOf path) t with
  | none =>
    rw [writeLeaf_of_none hv]
    exact Members.data_remove hd _
  | some v =>
    rw [writeLeaf_of_some hv]
    exact Members.data_store hd (Item.value?_ofValue (ht.of_lookupPath hv)) _ _

end

theorem table_writeLeaves (paths : List String) {d : Document} (hd : d.members.Distinct) :
    (paths.foldl (writeLeaf t) d).table =
      Table.setPaths (Table.lookupPath · t) (paths.map pathOf) d.table := by
  induction paths generalizing d with
  | nil => rfl
  | cons path paths ih =>
    rw [List.foldl_cons, ih (distinct_writeLeaf ht hd path), table_writeLeaf ht hd]
    rfl

theorem touches_writeLeaves {fields : Fields} {paths : List String}
    (hpaths : ∀ path ∈ paths, fields.IsLeaf (pathOf path)) {d : Document}
    (hd : d.members.Distinct) :
    Table.Touches (Table.lookupPath · t) (paths.map pathOf) d.table
      (paths.foldl (writeLeaf t) d).table := by
  have leaf (q : List String) (hq : q ∈ paths.map pathOf) : fields.IsLeaf q := by
    obtain ⟨path, hpath, rfl⟩ := List.mem_map.1 hq
    exact hpaths path hpath
  rw [table_writeLeaves ht paths hd]
  exact Table.touches_setPaths (fun p hp q hq => (leaf p hp).apart (leaf q hq))
    (fun p hp => (leaf p hp).ne_nil) d.table

end Patch

end DottedPatch
