import DottedPatch.Proofs.Config.Reload
import DottedPatch.Proofs.Toml.Reading

namespace DottedPatch.Config

open Toml

namespace Fields

theorem IsLeaf.cons {fields sub : Fields} {key : String} {optional : Bool} {name : String}
    (hf : fields.find? key = some ⟨optional, .record name sub⟩) {path : List String}
    (h : sub.IsLeaf path) : fields.IsLeaf (key :: path) := by
  obtain ⟨p, hp, hrecord⟩ := h
  have hne : path ≠ [] := by
    rintro rfl
    simp [leaf?] at hp
  exact ⟨p, (leaf?_cons hne).2 ⟨optional, name, sub, hf, hp⟩, hrecord⟩

def leafPaths : Fields → List (List String)
  | .nil => []
  | .required name (.record _ sub) rest | .optional name (.record _ sub) rest =>
    sub.leafPaths.map (name :: ·) ++ rest.leafPaths
  | .required name _ rest | .optional name _ rest => [name] :: rest.leafPaths

theorem mem_leafPaths_of_rest {name : String} {shape : Shape} {rest : Fields} {path : List String}
    (h : path ∈ rest.leafPaths) :
    path ∈ (required name shape rest).leafPaths ∧ path ∈ (optional name shape rest).leafPaths := by
  cases shape <;> simp [leafPaths, h]

theorem mem_leafPaths_of_find? {fields : Fields} {key : String} {p : Place}
    (hf : fields.find? key = some p) :
    (p.shape.isRecord = false → [key] ∈ fields.leafPaths) ∧
      ∀ name sub path, p.shape = .record name sub → path ∈ sub.leafPaths →
        key :: path ∈ fields.leafPaths := by
  cases fields with
  | nil => cases hf
  | required name shape rest | optional name shape rest =>
    rw [find?] at hf
    split at hf
    · rename_i eq
      subst eq
      obtain rfl := Option.some.inj hf
      cases shape <;> simp_all [leafPaths, Shape.isRecord]
    · obtain ⟨leaf, under⟩ := mem_leafPaths_of_find? hf
      refine ⟨fun h => ?_, fun name sub path eq h => ?_⟩
      · simp only [mem_leafPaths_of_rest (leaf h)]
      · simp only [mem_leafPaths_of_rest (under name sub path eq h)]

theorem IsLeaf.mem_leafPaths {fields : Fields} {path : List String} (h : fields.IsLeaf path) :
    path ∈ fields.leafPaths := by
  induction path generalizing fields with
  | nil => exact absurd rfl h.ne_nil
  | cons key path ih =>
    obtain ⟨p, hp, hrecord⟩ := h
    by_cases hpath : path = []
    · subst hpath
      exact (mem_leafPaths_of_find? hp).1 hrecord
    · obtain ⟨optional, name, sub, hf, hp⟩ := (leaf?_cons hpath).1 hp
      exact (mem_leafPaths_of_find? hf).2 name sub path rfl (ih ⟨p, hp, hrecord⟩)

/-- Wherever a leaf lies in a section, the section is a table if it is there. -/
def Open (fields : Fields) (t : Table) : Prop := ∀ q, fields.IsLeaf q → Table.blocked q t = false

theorem open_of_sectioned {fields : Fields} {t : Table} (h : fields.sectioned t) : fields.Open t :=
  fun _ => not_blocked_of_sectioned h

theorem Open.setPaths {fields : Fields} {t : Table} (h : fields.Open t)
    (value : List String → Option Value) {paths : List (List String)}
    (hpaths : ∀ p ∈ paths, fields.IsLeaf p) : fields.Open (Table.setPaths value paths t) := by
  intro q hq
  refine blocked_setPaths value t hpaths hq fun before v hv hvt hpre ne => ?_
  have blocked := Table.blocked_iff.2 ⟨before, v, hpre, ne, hv, hvt⟩
  rw [h q hq] at blocked
  cases blocked

theorem Open.merge {name : String} {fields : Fields} (hr : (Shape.record name fields).regular)
    {lower upper : Table} (hl : (Shape.record name fields).Fits (.table lower)) (hu : upper.Ordered)
    (h : fields.Open upper) : fields.Open (Table.merge lower upper) := by
  intro q hq
  obtain ⟨p, hp, _⟩ := id hq
  exact Table.blocked_merge hu (hl.not_blocked hr (at?_of_leaf? hp name)) (h q hq)

end Fields

theorem Shape.Fits.exists_section {name : String} {fields : Fields}
    (hr : (Shape.record name fields).regular) {t : Table} (h : (Shape.record name fields).Fits (.table t))
    {key : String} {optional : Bool} {inner : String} {sub : Fields}
    (hf : fields.find? key = some ⟨optional, .record inner sub⟩) :
    ∃ u, Entries.lookup key t = some (.table u) ∧ (Shape.record inner sub).Fits (.table u) := by
  have placed := h.place (s := .record name fields) hr hf
  cases hv : Entries.lookup key t with
  | none =>
    rw [hv, Place.Fits, Fields.required_of_find? hr hf rfl] at placed
    cases placed
  | some v =>
    rw [hv] at placed
    obtain ⟨u, rfl, -⟩ := Shape.Fits.table rfl placed
    exact ⟨u, rfl, placed⟩

theorem Shape.Fits.eq_of_leaves {name : String} {fields : Fields}
    (hr : (Shape.record name fields).regular) {t u : Table}
    (ht : (Shape.record name fields).Fits (.table t)) (hu : (Shape.record name fields).Fits (.table u))
    (h : ∀ q, fields.IsLeaf q → Table.lookupPath q t = Table.lookupPath q u) : t = u := by
  have ho : t.Ordered := ht.ordered
  induction ho using Table.Ordered.induction generalizing name fields u with
  | table ho ih =>
    refine Entries.Sorted.ext ho.sorted (hu.sorted rfl) fun key => ?_
    cases hf : fields.find? key with
    | none =>
      have placed := ((fits_table_iff rfl hr).1 ht).2 key
      have placed' := ((fits_table_iff rfl hr).1 hu).2 key
      rw [show (Shape.record name fields).place? key = none from hf] at placed placed'
      exact placed.trans placed'.symm
    | some p =>
      obtain ⟨optional, shape⟩ := p
      cases shape with
      | record inner sub =>
        obtain ⟨t', hlookup, fits⟩ := ht.exists_section hr hf
        obtain ⟨u', hlookup', fits'⟩ := hu.exists_section hr hf
        rw [hlookup, hlookup', ih hlookup (Fields.regular_of_find? hr hf) fits fits' fun q hq => ?_]
        have below := h (key :: q) (hq.cons hf)
        rwa [Table.lookupPath_cons_of_table hq.ne_nil hlookup,
          Table.lookupPath_cons_of_table hq.ne_nil hlookup'] at below
      | _ => exact h [key] ⟨_, hf, rfl⟩

section

variable {α : Type} [Shaped α] [Inhabited α] {name : String} {fields : Fields}
  (hs : Shaped.shape α = .record name fields) (hr : (Shape.record name fields).regular) {lower : Table}
  (hlower : toTable (default : α) = .ok lower)
  (hl : (Shape.record name fields).Beneath (some (.table lower))) {text file : String} {upper : Table}
  (hupper : Table.read? text = some upper)

include hs hr hlower hl hupper

theorem lookupPath_of_readBase (ho : fields.Open upper) {c : α} (hc : readBase text file true = .ok c) :
    ∃ t, toTable c = .ok t ∧ ∀ q p, fields.leaf? q = some p → p.shape.isRecord = false →
      match Table.lookupPath q upper with
      | some v => ∃ w, p.shape.Reads v w ∧ Table.lookupPath q t = some w
      | none => Table.lookupPath q t = Table.lookupPath q lower := by
  have hu := Table.ordered_of_read? hupper
  obtain ⟨-, t, ht, reads⟩ := accepts_of_readBase (hs.symm ▸ hr) hlower (hs.symm ▸ hl) hupper hu hc
  rw [hs] at reads
  refine ⟨t, ht, fun q p hp hrecord => ?_⟩
  have hat := Fields.at?_of_leaf? hp name
  cases hv : Table.lookupPath q upper with
  | none => exact lookupPath_of_unset hr (hl.fits _ rfl) hu reads hat hv (ho q ⟨p, hp, hrecord⟩)
  | some v =>
    have read := lookupPath_of_set hr (hl.fits _ rfl) hu reads hat hv
    rwa [(hl.lookupPath hr hp).cover_of_whole (Table.Ordered.of_lookupPath hu hv) (by simp [hrecord])]
      at read

theorem exists_readBase_of_fits (file : String) (hfits : (Shape.record name fields).Fits (.table upper)) :
    ∃ (c : α) (t : Table), readBase text file true = .ok c ∧ toTable c = .ok t ∧
      ∀ q, fields.IsLeaf q →
        Table.lookupPath q t = (Table.lookupPath q upper).or (Table.lookupPath q lower) := by
  have accepts := Shape.accepts_of_fits hr hfits
  obtain ⟨c, _, hc, -⟩ := readBase_of_accepts file (hs.symm ▸ hr) hlower (hs.symm ▸ hl) hupper
    (Table.ordered_of_read? hupper) (hs.symm ▸ accepts)
  have ho : fields.Open upper := fun q ⟨p, hp, _⟩ => hfits.not_blocked hr (Fields.at?_of_leaf? hp name)
  obtain ⟨t, ht, leaves⟩ := lookupPath_of_readBase hs hr hlower hl hupper ho hc
  refine ⟨c, t, hc, ht, fun q ⟨p, hp, hrecord⟩ => ?_⟩
  have leaf := leaves q p hp hrecord
  cases hv : Table.lookupPath q upper with
  | none =>
    rw [hv] at leaf
    exact leaf
  | some v =>
    rw [hv] at leaf
    obtain ⟨w, hw, hlookup⟩ := leaf
    -- What the shape wrote is read as it is.
    have hat := Fields.at?_of_leaf? hp name
    have fits := hfits.of_lookupPath hr hat hv
    rw [hlookup, hw.unique ((Shape.fits_iff_reads (Shape.regular_of_at? hr hat)).1 fits)]
    rfl

end

end DottedPatch.Config
