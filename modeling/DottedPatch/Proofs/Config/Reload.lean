import DottedPatch.Proofs.Config.Bases

/-! Reading a base again after some of its fields were set or removed.

A section that is written whole, like a record as an array, is no table. As long as it stands,
nothing can be removed in it; and it has to give way as soon as something is stored in it. -/

namespace DottedPatch.Config

open Toml

theorem Shape.Beneath.lookupPath {name : String} {fields : Fields}
    (hr : (record name fields).regular) {lower : Table}
    (h : (record name fields).Beneath (some (.table lower))) {path : List String} {p : Place}
    (hp : fields.leaf? path = some p) : p.shape.Beneath (Table.lookupPath path lower) := by
  induction path generalizing name fields lower with
  | nil => cases hp
  | cons key rest ih =>
    obtain ⟨_, eq, fits, bare⟩ := h.table
    obtain rfl := Value.table.inj (Option.some.inj eq)
    by_cases hrest : rest = []
    · subst hrest
      exact Beneath.find? hr fits bare hp
    · obtain ⟨_, _, _, hf, hp⟩ := (Fields.leaf?_cons hrest).1 hp
      have beneath := Beneath.find? hr fits bare hf
      obtain ⟨sub, hsub, _⟩ := beneath.table
      rw [Table.lookupPath_cons hrest, hsub]
      rw [hsub] at beneath
      exact ih (Fields.regular_of_find? hr hf) beneath hp

section

variable {name : String} {fields : Fields} (hr : (Shape.record name fields).regular)
  {lower : Table} (hl : (Shape.record name fields).Beneath (some (.table lower)))

include hr hl

theorem reads_of_set {upper t : Table} (hu : upper.Ordered)
    (h : (Shape.record name fields).Reads (.table (Table.merge lower upper)) (.table t))
    {q : List String} (hq : fields.IsLeaf q) {v : Value} (hv : Table.lookupPath q upper = some v)
    {patched : Table} (hp : (Shape.record name fields).Fits (.table patched))
    (hset : Table.lookupPath q patched = some v) : Table.lookupPath q t = some v := by
  obtain ⟨p, hleaf, hrecord⟩ := hq
  have hat := Fields.at?_of_leaf? hleaf name
  obtain ⟨w, hw, hlookup⟩ := lookupPath_of_set hr (hl.fits _ rfl) hu h hat hv
  have fits := hp.of_lookupPath hr hat hset
  rw [(hl.lookupPath hr hleaf).cover_of_whole fits.ordered (by simp [hrecord])] at hw
  rw [hlookup, hw.unique ((Shape.fits_iff_reads (Shape.regular_of_at? hr hat)).1 fits)]

omit hl in
theorem lookupPath_of_same (hl : (Shape.record name fields).Fits (.table lower))
    {upper upper' t t' : Table} (hu : upper.Ordered) (hu' : upper'.Ordered)
    (h : (Shape.record name fields).Reads (.table (Table.merge lower upper)) (.table t))
    (h' : (Shape.record name fields).Reads (.table (Table.merge lower upper')) (.table t'))
    {q before : List String} (hq : fields.IsLeaf q) (hpre : before <+: q) {v : Value}
    (hv : Table.lookupPath before upper = some v) (hv' : Table.lookupPath before upper' = some v) :
    Table.lookupPath q t' = Table.lookupPath q t := by
  obtain ⟨p, hleaf, _⟩ := hq
  have hat := Fields.at?_of_leaf? hleaf name
  obtain ⟨rest, rfl⟩ := hpre
  have hbefore : before ≠ [] := by
    rintro rfl
    cases hv
  obtain ⟨place, hplace⟩ : ∃ place, (Shape.record name fields).at? before = some place := by
    by_cases hrest : rest = []
    · exact ⟨p, by simpa [hrest] using hat⟩
    · rw [Shape.at?_append hbefore hrest] at hat
      obtain ⟨place, hplace, _⟩ := Option.bind_eq_some_iff.1 hat
      exact ⟨place, hplace⟩
  obtain ⟨w, hw, hlookup⟩ := lookupPath_of_set hr hl hu h hplace hv
  obtain ⟨w', hw', hlookup'⟩ := lookupPath_of_set hr hl hu' h' hplace hv'
  obtain rfl := hw.unique hw'
  by_cases hrest : rest = []
  · simp [hrest, hlookup, hlookup']
  · rw [Table.lookupPath_append_eq hbefore hrest, Table.lookupPath_append_eq hbefore hrest,
      hlookup, hlookup']

end

/-- One of the paths leads behind another place, and has a value. -/
def Opened (value : List String → Option Value) (paths : List (List String)) (before : List String) :
    Prop :=
  ∃ p ∈ paths, before <+: p ∧ value p ≠ none

section

variable {fields : Fields} (value : List String → Option Value) (upper : Table)
  {paths : List (List String)} (hpaths : ∀ p ∈ paths, fields.IsLeaf p)
  {q : List String} (hq : fields.IsLeaf q)

include hpaths hq

theorem lookupPath_setPaths_of_leaf :
    Table.lookupPath q (Table.setPaths value paths upper) =
      if q ∈ paths then value q else Table.lookupPath q upper := by
  have apart (p : List String) (hp : p ∈ paths) (ne : p ≠ q) : Table.Apart p q :=
    (hpaths p hp).apart hq ne
  split
  · rename_i hm
    exact Table.lookupPath_setPaths_of_mem apart hq.ne_nil hm upper
  · rename_i hm
    have beside (p : List String) (hp : p ∈ paths) : Table.Apart p q :=
      apart p hp fun eq => hm (eq ▸ hp)
    exact Table.lookupPath_setPaths_of_apart beside upper

theorem lookupPath_setPaths_before_leaf {before : List String} (hpre : before <+: q) (ne : before ≠ q)
    {v : Value} (hv : v.table? = none) :
    Table.lookupPath before (Table.setPaths value paths upper) = some v ↔
      Table.lookupPath before upper = some v ∧ ¬Opened value paths before := by
  by_cases hnil : before = []
  · subst hnil
    simp
  have beyond (p : List String) (hp : p ∈ paths) (h : p <+: before) : False := by
    obtain rfl := (hpaths p hp).eq_of_within hq (h.trans hpre)
    exact ne (hpre.eq_of_length_le h.length_le)
  rw [Table.lookupPath_setPaths_before hnil beyond hv]
  refine and_congr_right fun _ => ⟨?_, ?_⟩
  · rintro none ⟨p, hp, h, some⟩
    exact some (none p hp h)
  · intro closed p hp h
    exact Classical.byContradiction fun some => closed ⟨p, hp, h, some⟩

theorem blocked_setPaths (opened : ∀ before v, Table.lookupPath before upper = some v →
      v.table? = none → before <+: q → before ≠ q → Opened value paths before) :
    Table.blocked q (Table.setPaths value paths upper) = false := by
  refine Bool.eq_false_iff.2 fun hb => ?_
  obtain ⟨before, v, hpre, ne, hv, hvt⟩ := Table.blocked_iff.1 hb
  obtain ⟨hv, closed⟩ :=
    (lookupPath_setPaths_before_leaf value upper hpaths hq hpre ne hvt).1 hv
  exact closed (opened before v hv hvt hpre ne)

end

section

variable {name : String} {fields : Fields} (hr : (Shape.record name fields).regular)
  {lower : Table} (hl : (Shape.record name fields).Beneath (some (.table lower)))
  {upper loaded patched reloaded : Table} {paths : List (List String)}
  (hpaths : ∀ p ∈ paths, fields.IsLeaf p)
  (hu : upper.Ordered)
  (hu' : (Table.setPaths (Table.lookupPath · patched) paths upper).Ordered)
  (hp : (Shape.record name fields).Fits (.table patched))
  (h' : (Shape.record name fields).Reads
    (.table (Table.merge lower (Table.setPaths (Table.lookupPath · patched) paths upper)))
    (.table reloaded))
  {q : List String} (hq : fields.IsLeaf q)

include hr hl hpaths hu' h' hq

theorem reload_of_unset (hv : (if q ∈ paths then Table.lookupPath q patched
      else Table.lookupPath q upper) = none)
    (hb : Table.blocked q (Table.setPaths (Table.lookupPath · patched) paths upper) = false) :
    Table.lookupPath q reloaded = Table.lookupPath q lower := by
  rw [← lookupPath_setPaths_of_leaf (Table.lookupPath · patched) upper hpaths hq] at hv
  obtain ⟨p, hleaf, _⟩ := hq
  exact lookupPath_of_unset hr (hl.fits _ rfl) hu' h' (Fields.at?_of_leaf? hleaf name) hv hb

include hp

theorem reload_of_mem (hm : q ∈ paths)
    (hb : Table.blocked q (Table.setPaths (Table.lookupPath · patched) paths upper) = false) :
    Table.lookupPath q reloaded =
      if q ∈ paths ∧ Table.lookupPath q patched = none then Table.lookupPath q lower
      else Table.lookupPath q patched := by
  cases hv : Table.lookupPath q patched with
  | none =>
    rw [if_pos ⟨hm, rfl⟩]
    exact reload_of_unset hr hl hpaths hu' h' hq (by rw [if_pos hm, hv]) hb
  | some v =>
    rw [if_neg fun h => nomatch h.2]
    refine reads_of_set hr hl hu' h' hq ?_ hp hv
    rw [lookupPath_setPaths_of_leaf _ _ hpaths hq, if_pos hm, hv]

variable (h : (Shape.record name fields).Reads (.table (Table.merge lower upper)) (.table loaded))

include hu h

omit hp in
theorem reload_of_not_mem (hm : q ∉ paths) (hb : Table.blocked q upper = false) :
    Table.lookupPath q reloaded = Table.lookupPath q loaded := by
  have hb' : Table.blocked q (Table.setPaths (Table.lookupPath · patched) paths upper) = false :=
    blocked_setPaths _ _ hpaths hq fun before v hv hvt hpre ne => by
      rw [Table.blocked_iff.2 ⟨before, v, hpre, ne, hv, hvt⟩] at hb
      cases hb
  cases hv : Table.lookupPath q upper with
  | none =>
    rw [reload_of_unset hr hl hpaths hu' h' hq (by rw [if_neg hm, hv]) hb']
    obtain ⟨p, hleaf, _⟩ := hq
    exact (lookupPath_of_unset hr (hl.fits _ rfl) hu h (Fields.at?_of_leaf? hleaf name) hv hb).symm
  | some v =>
    refine lookupPath_of_same hr (hl.fits _ rfl) hu hu' h h' hq List.prefix_rfl hv ?_
    rw [lookupPath_setPaths_of_leaf _ _ hpaths hq, if_neg hm, hv]

variable (same : q ∉ paths → Table.lookupPath q patched = Table.lookupPath q loaded)

include same

theorem reload_of_not_blocked (hb : Table.blocked q upper = false) :
    Table.lookupPath q reloaded =
      if q ∈ paths ∧ Table.lookupPath q patched = none then Table.lookupPath q lower
      else Table.lookupPath q patched := by
  by_cases hm : q ∈ paths
  · have hb' : Table.blocked q (Table.setPaths (Table.lookupPath · patched) paths upper) = false :=
      blocked_setPaths _ _ hpaths hq fun before v hv hvt hpre ne => by
        rw [Table.blocked_iff.2 ⟨before, v, hpre, ne, hv, hvt⟩] at hb
        cases hb
    exact reload_of_mem hr hl hpaths hu' hp h' hq hm hb'
  · rw [if_neg fun h => hm h.1, same hm]
    exact reload_of_not_mem hr hl hpaths hu hu' h' hq h hm hb

/-- A leaf in a section that is written whole does so if the section stays for a leaf that is left
alone and gives way for one that is set; or if the leaf held the default all along. -/
theorem reload_iff_of_blocked {before : List String} {v : Value} (hpre : before <+: q)
    (ne : before ≠ q) (hv : Table.lookupPath before upper = some v) (hvt : v.table? = none) :
    (Table.lookupPath q reloaded =
      if q ∈ paths ∧ Table.lookupPath q patched = none then Table.lookupPath q lower
      else Table.lookupPath q patched) ↔
      ((q ∈ paths ↔ Opened (Table.lookupPath · patched) paths before) ∨
        Table.lookupPath q loaded = Table.lookupPath q lower) := by
  have absent : Table.lookupPath q upper = none := Table.lookupPath_of_not_table hv hvt hpre ne
  by_cases opened : Opened (Table.lookupPath · patched) paths before
  · have hb' := blocked_setPaths (Table.lookupPath · patched) upper hpaths hq
      fun other w hw hwt hpre' _ => Table.eq_of_not_table hv hvt hw hwt hpre hpre' ▸ opened
    by_cases hm : q ∈ paths
    · have read := reload_of_mem hr hl hpaths hu' hp h' hq hm hb'
      exact iff_of_true read (.inl (iff_of_true hm opened))
    · rw [if_neg fun h => hm h.1, same hm,
        reload_of_unset hr hl hpaths hu' h' hq (by rw [if_neg hm, absent]) hb']
      simp [hm, opened, eq_comm]
  · -- The section stays, and everything in it is read as before.
    have stays := (lookupPath_setPaths_before_leaf (Table.lookupPath · patched) upper hpaths hq
      hpre ne hvt).2 ⟨hv, opened⟩
    rw [lookupPath_of_same hr (hl.fits _ rfl) hu hu' h h' hq hpre hv stays]
    by_cases hm : q ∈ paths
    · have unset : Table.lookupPath q patched = none :=
        Classical.byContradiction fun some => opened ⟨q, hm, hpre, some⟩
      simp [hm, unset, opened]
    · simp [hm, opened, same hm]

theorem reload_iff :
    (Table.lookupPath q reloaded =
      if q ∈ paths ∧ Table.lookupPath q patched = none then Table.lookupPath q lower
      else Table.lookupPath q patched) ↔
      ∀ before v, Table.lookupPath before upper = some v → v.table? = none → before <+: q →
        before ≠ q → (q ∈ paths ↔ Opened (Table.lookupPath · patched) paths before) ∨
          Table.lookupPath q loaded = Table.lookupPath q lower := by
  cases hb : Table.blocked q upper with
  | false =>
    refine iff_of_true (reload_of_not_blocked hr hl hpaths hu hu' hp h' hq h same hb) ?_
    intro before v hv hvt hpre ne
    rw [Table.blocked_iff.2 ⟨before, v, hpre, ne, hv, hvt⟩] at hb
    cases hb
  | true =>
    obtain ⟨before, v, hpre, ne, hv, hvt⟩ := Table.blocked_iff.1 hb
    rw [reload_iff_of_blocked hr hl hpaths hu hu' hp h' hq h same hpre ne hv hvt]
    constructor
    · intro kept other w hw hwt hpre' _
      rwa [← Table.eq_of_not_table hv hvt hw hwt hpre hpre']
    · exact fun kept => kept before v hv hvt hpre ne

end

end DottedPatch.Config
