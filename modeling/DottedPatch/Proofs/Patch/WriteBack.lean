import DottedPatch.Patch.WriteBack
import DottedPatch.Proofs.Config.Sections
import DottedPatch.Proofs.Toml.Printing

namespace DottedPatch

open Config Toml

namespace Patch

theorem writeLeaf_of_some {t : Table} {path : String} {v : Value}
    (h : Table.lookupPath (pathOf path) t = some v) (d : Document) :
    (writeLeaf t d path).members = Members.store (.ofValue v) false (pathOf path) d.members := by
  simp only [writeLeaf, h]
  rfl

theorem writeLeaf_of_none {t : Table} {path : String}
    (h : Table.lookupPath (pathOf path) t = none) (d : Document) :
    (writeLeaf t d path).members = Members.remove (pathOf path) d.members := by
  simp only [writeLeaf, h]
  rfl

section

variable {fields : Fields} {t : Table}

section

variable {path : String} (hpath : fields.IsLeaf (pathOf path)) {d : Document}

include hpath

theorem itemAt?_writeLeaf_of_ne {q : List String} (hq : fields.IsLeaf q) (ne : pathOf path ≠ q) :
    Members.itemAt? q (writeLeaf t d path).members = Members.itemAt? q d.members := by
  have apart : Table.Apart (pathOf path) q := hpath.apart hq ne
  cases hv : Table.lookupPath (pathOf path) t with
  | none =>
    rw [writeLeaf_of_none hv]
    exact Members.itemAt?_remove_of_apart apart _
  | some v =>
    rw [writeLeaf_of_some hv]
    exact Members.itemAt?_store_of_apart apart _ _ _

variable (hu : fields.undated) (h : fields.Settles d.members)

include hu h

theorem settles_writeLeaf : fields.Settles (writeLeaf t d path).members := by
  obtain ⟨p, hleaf, hrecord⟩ := hpath
  cases hv : Table.lookupPath (pathOf path) t with
  | none =>
    rw [writeLeaf_of_none hv]
    exact h.remove hu hleaf
  | some v =>
    rw [writeLeaf_of_some hv]
    exact h.store hu hleaf hrecord _ _

theorem denoted?_writeLeaf {upper : Table} (hd : d.denoted? = some upper)
    (hv : ∀ v, Table.lookupPath (pathOf path) t = some v → Item.denoted? (.ofValue v) = some v) :
    (writeLeaf t d path).denoted? =
      some (Table.setPath (pathOf path) (Table.lookupPath (pathOf path) t) upper) := by
  obtain ⟨p, hleaf, hrecord⟩ := hpath
  rw [Document.denoted?]
  cases hvalue : Table.lookupPath (pathOf path) t with
  | none =>
    rw [writeLeaf_of_none hvalue]
    exact h.denotedEntries?_remove hd hu hleaf
  | some v =>
    rw [writeLeaf_of_some hvalue]
    exact h.denotedEntries?_store hd hu hleaf hrecord (hv v hvalue) false

end

variable {paths : List String} (hpaths : ∀ path ∈ paths, fields.IsLeaf (pathOf path))

include hpaths

theorem itemAt?_writeLeaves_of_not_mem {q : List String} (hq : fields.IsLeaf q)
    (hm : q ∉ paths.map pathOf) (d : Document) :
    Members.itemAt? q (paths.foldl (writeLeaf t) d).members = Members.itemAt? q d.members := by
  induction paths generalizing d with
  | nil => rfl
  | cons path paths ih =>
    obtain ⟨hpath, hpaths⟩ := List.forall_mem_cons.1 hpaths
    rw [List.map_cons, List.mem_cons, not_or] at hm
    exact (ih hpaths hm.2 _).trans (itemAt?_writeLeaf_of_ne hpath hq (Ne.symm hm.1))

theorem itemAt?_writeLeaves {q : List String} (hm : q ∈ paths.map pathOf) {v : Value}
    (hv : Table.lookupPath q t = some v) (d : Document) :
    ∃ item, Members.itemAt? q (paths.foldl (writeLeaf t) d).members = some item ∧
      Item.denoted? item = Item.denoted? (.ofValue v) := by
  induction paths generalizing d with
  | nil => cases hm
  | cons path paths ih =>
    obtain ⟨hpath, hpaths⟩ := List.forall_mem_cons.1 hpaths
    by_cases later : q ∈ paths.map pathOf
    · exact ih hpaths later _
    · obtain rfl : q = pathOf path := (List.mem_cons.1 hm).resolve_right later
      rw [List.foldl_cons, itemAt?_writeLeaves_of_not_mem hpaths hpath later, writeLeaf_of_some hv]
      exact Members.itemAt?_store hpath.ne_nil _ _ _

variable (hu : fields.undated) {d : Document} (h : fields.Settles d.members)

include hu h

theorem settles_writeLeaves : fields.Settles (paths.foldl (writeLeaf t) d).members := by
  induction paths generalizing d with
  | nil => exact h
  | cons path paths ih =>
    obtain ⟨hpath, hpaths⟩ := List.forall_mem_cons.1 hpaths
    exact ih hpaths (settles_writeLeaf hpath hu h)

theorem denoted?_writeLeaves
    (hv : ∀ q ∈ paths.map pathOf, ∀ v, Table.lookupPath q t = some v →
      Item.denoted? (.ofValue v) = some v)
    {upper : Table} (hd : d.denoted? = some upper) :
    (paths.foldl (writeLeaf t) d).denoted? =
      some (Table.setPaths (Table.lookupPath · t) (paths.map pathOf) upper) := by
  induction paths generalizing d upper with
  | nil => exact hd
  | cons path paths ih =>
    obtain ⟨hpath, hpaths⟩ := List.forall_mem_cons.1 hpaths
    obtain ⟨here, hv⟩ := List.forall_mem_cons.1 hv
    exact ih hpaths (settles_writeLeaf hpath hu h) hv (denoted?_writeLeaf hpath hu h hd here)

end

end Patch

end DottedPatch
