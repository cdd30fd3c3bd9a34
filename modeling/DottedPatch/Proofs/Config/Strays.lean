import DottedPatch.Proofs.Config.Leaves
import DottedPatch.Proofs.Toml.Apart
import DottedPatch.Proofs.Toml.Removals

/-! What reading a record ignores.

The decoder reports what it ignores key by key while it descends into the sections. `Stray` tells the
same from the paths of the leaves alone. -/

namespace DottedPatch.Config

open Toml

/-- A path to something in a table that is no leaf, is in none and has none in it, and that all
sections around it have leaves beside. -/
structure Stray (leaf : List String → Prop) (t : Table) (path : List String) : Prop where
  present : ∃ v, Table.lookupPath path t = some v
  undeclared : ∀ q, leaf q → Table.Apart path q
  outermost : ∀ before, before <+: path → before ≠ path → ∃ q, leaf q ∧ ¬Table.Apart before q

namespace Stray

variable {leaf : List String → Prop} {t : Table}

theorem eq_of_within {path other : List String} (h : Stray leaf t path) (ho : Stray leaf t other)
    (hpre : path <+: other) : path = other := by
  refine Classical.byContradiction fun ne => ?_
  obtain ⟨q, hq, within⟩ := ho.outermost path hpre ne
  exact within (h.undeclared q hq)

theorem apart {path other : List String} (h : Stray leaf t path) (ho : Stray leaf t other)
    (ne : path ≠ other) : Table.Apart path other :=
  ⟨fun hp => ne (h.eq_of_within ho hp), fun hp => ne (ho.eq_of_within h hp).symm⟩

theorem exists_prefix (hleaf : ∃ q, leaf q) {path : List String}
    (hpath : ∃ v, Table.lookupPath path t = some v)
    (apart : ∀ q, leaf q → Table.Apart path q) : ∃ stray, Stray leaf t stray ∧ stray <+: path := by
  by_cases outermost : ∀ before, before <+: path → before ≠ path →
      ∃ q, leaf q ∧ ¬Table.Apart before q
  · exact ⟨path, ⟨hpath, apart, outermost⟩, List.prefix_rfl⟩
  · simp only [Classical.not_forall, not_exists, not_and, Classical.not_not] at outermost
    obtain ⟨before, hpre, ne, apartBefore⟩ := outermost
    have shorter : before.length < path.length :=
      Nat.lt_of_le_of_ne hpre.length_le fun eq => ne (hpre.eq_of_length eq)
    obtain ⟨q, hq⟩ := hleaf
    obtain ⟨v, hv⟩ := hpath
    obtain ⟨rest, rfl⟩ := hpre
    have hrest : rest ≠ [] := by simpa using ne
    -- What leads on is a table.
    rw [Table.lookupPath_append_eq (apartBefore q hq).ne_nil hrest] at hv
    obtain ⟨sub, hsub, -⟩ := Option.bind_eq_some_iff.1 hv
    obtain ⟨w, hw, -⟩ := Option.bind_eq_some_iff.1 hsub
    obtain ⟨stray, hstray, within⟩ := exists_prefix ⟨q, hq⟩ ⟨w, hw⟩ apartBefore
    exact ⟨stray, hstray, within.trans (List.prefix_append _ _)⟩
termination_by path.length

end Stray

mutual

def Shape.filled : Shape → Bool
  | .record _ fields => !fields.names.isEmpty && fields.filled
  | .boolean | .integer _ | .string | .strings | .stringSet | .stringMap | .choice _ => true

def Fields.filled : Fields → Bool
  | .nil => true
  | .required _ shape rest | .optional _ shape rest => shape.filled && rest.filled

end

theorem Fields.filled_of_find? {fields : Fields} (h : fields.filled) {key : String} {p : Place}
    (hp : fields.find? key = some p) : p.shape.filled := by
  cases fields with
  | nil => cases hp
  | required name shape rest | optional name shape rest =>
    simp only [Fields.filled, Bool.and_eq_true] at h
    simp only [Fields.find?] at hp
    split at hp
    · obtain rfl := Option.some.inj hp
      exact h.1
    · exact Fields.filled_of_find? h.2 hp

theorem Shape.filled_of_find? {name : String} {fields : Fields} (h : (Shape.record name fields).filled)
    {key : String} {p : Place} (hp : fields.find? key = some p) : p.shape.filled :=
  Fields.filled_of_find? (Bool.and_eq_true_iff.1 h).2 hp

namespace Fields

theorem exists_isLeaf {name : String} {fields : Fields} (h : (Shape.record name fields).filled) :
    ∃ q, fields.IsLeaf q := by
  cases fields with
  | nil => cases h
  | required field shape rest | optional field shape rest =>
    simp only [Shape.filled, filled, Bool.and_eq_true] at h
    cases shape with
    | record inner sub =>
      obtain ⟨q, hq⟩ := exists_isLeaf h.2.1
      exact ⟨field :: q, hq.cons (by rw [find?, if_pos rfl])⟩
    | boolean | integer | string | strings | stringSet | stringMap | choice =>
      exact ⟨[field], _, if_pos rfl, rfl⟩

variable {fields : Fields}

section

variable {key : String} {rest : List String}

theorem isLeaf_cons_of_record {sub : Fields} {optional : Bool} {name : String}
    (hf : fields.find? key = some ⟨optional, .record name sub⟩) :
    fields.IsLeaf (key :: rest) ↔ sub.IsLeaf rest := by
  refine ⟨?_, IsLeaf.cons hf⟩
  rintro ⟨p, hp, hrecord⟩
  by_cases hrest : rest = []
  · subst hrest
    obtain rfl := Option.some.inj (hf.symm.trans hp)
    cases hrecord
  · obtain ⟨_, _, _, hf', hp⟩ := (leaf?_cons hrest).1 hp
    obtain ⟨_, rfl⟩ := Shape.record.inj (Place.mk.inj (Option.some.inj (hf.symm.trans hf'))).2
    exact ⟨p, hp, hrecord⟩

theorem isLeaf_cons_of_field {p : Place} (hf : fields.find? key = some p)
    (hrecord : p.shape.isRecord = false) : fields.IsLeaf (key :: rest) ↔ rest = [] := by
  constructor
  · rintro ⟨_, hp, -⟩
    refine Classical.byContradiction fun hrest => ?_
    obtain ⟨_, _, _, hf', _⟩ := (leaf?_cons hrest).1 hp
    obtain rfl := Option.some.inj (hf.symm.trans hf')
    cases hrecord
  · rintro rfl
    exact ⟨p, hf, hrecord⟩

theorem not_isLeaf_cons (hf : fields.find? key = none) : ¬fields.IsLeaf (key :: rest) := by
  rintro ⟨p, hp, -⟩
  by_cases hrest : rest = []
  · subst hrest
    cases hf.symm.trans hp
  · obtain ⟨_, _, _, hf', _⟩ := (leaf?_cons hrest).1 hp
    cases hf.symm.trans hf'

end

theorem Open.under {t : Table} (ho : fields.Open t) {key : String} {optional : Bool} {name : String}
    {sub : Fields} (hf : fields.find? key = some ⟨optional, .record name sub⟩)
    (hleaf : ∃ q, sub.IsLeaf q) {v : Value} (hv : Entries.lookup key t = some v) :
    ∃ u, v = .table u ∧ sub.Open u := by
  obtain ⟨q, hq⟩ := hleaf
  cases hvt : v.table? with
  | none =>
    have free := ho (key :: q) (hq.cons hf)
    rw [Table.blocked_of_not_table hq.ne_nil hv hvt] at free
    cases free
  | some u =>
    obtain rfl := Value.table?_eq_some.1 hvt
    refine ⟨u, rfl, fun q hq => ?_⟩
    rw [← Table.blocked_of_table hq.ne_nil hv]
    exact ho (key :: q) (hq.cons hf)

theorem undeclaredEntry_eq (fields : Fields) (key : String) (v : Value) :
    fields.undeclaredEntry key v =
      match fields.find? key with
      | none => [[key]]
      | some p => (p.shape.undeclared v).map (key :: ·) := by
  cases fields with
  | nil => rfl
  | required name shape rest | optional name shape rest =>
    simp only [undeclaredEntry, find?]
    split
    · rfl
    · exact undeclaredEntry_eq rest key v

end Fields

section

variable {fields : Fields} {t : Table} {key : String} {rest : List String}

theorem stray_cons_of_unknown (hleaf : ∃ q, fields.IsLeaf q) (hf : fields.find? key = none) :
    Stray fields.IsLeaf t (key :: rest) ↔ rest = [] ∧ ∃ v, Entries.lookup key t = some v := by
  have apart (path : List String) {q : List String} (hq : fields.IsLeaf q) :
      Table.Apart (key :: path) q := by
    cases q with
    | nil => exact absurd rfl hq.ne_nil
    | cons other q =>
      refine Table.apart_of_ne ?_ _ _
      rintro rfl
      exact Fields.not_isLeaf_cons hf hq
  constructor
  · intro h
    have top : rest = [] := Classical.byContradiction fun hrest => by
      obtain ⟨q, hq, within⟩ := h.outermost [key] (List.prefix_append _ _) (by simpa using Ne.symm hrest)
      exact within (apart [] hq)
    subst top
    exact ⟨rfl, h.present⟩
  · rintro ⟨rfl, present⟩
    refine ⟨present, fun q hq => apart [] hq, fun before hpre ne => ?_⟩
    rcases List.prefix_cons_iff.1 hpre with rfl | ⟨after, rfl, hafter⟩
    · obtain ⟨q, hq⟩ := hleaf
      exact ⟨q, hq, fun apart => apart.ne_nil rfl⟩
    · exact absurd (congrArg (key :: ·) (List.prefix_nil.1 hafter)) ne

theorem not_stray_cons_of_field {p : Place} (hf : fields.find? key = some p)
    (hrecord : p.shape.isRecord = false) : ¬Stray fields.IsLeaf t (key :: rest) := by
  intro h
  have hleaf := (Fields.isLeaf_cons_of_field hf hrecord).2 rfl
  exact (h.undeclared [key] hleaf).2 (List.prefix_append _ _)

theorem stray_cons_of_record {optional : Bool} {name : String} {sub : Fields}
    (hleaf : ∃ q, sub.IsLeaf q) (hf : fields.find? key = some ⟨optional, .record name sub⟩) {u : Table}
    (hu : Entries.lookup key t = some (.table u)) :
    Stray fields.IsLeaf t (key :: rest) ↔ Stray sub.IsLeaf u rest := by
  have under (path : List String) : fields.IsLeaf (key :: path) ↔ sub.IsLeaf path :=
    Fields.isLeaf_cons_of_record hf
  by_cases hrest : rest = []
  · subst hrest
    obtain ⟨q, hq⟩ := hleaf
    refine iff_of_false (fun h => ?_) fun h => nomatch h.present
    exact (h.undeclared _ ((under q).2 hq)).1 (List.prefix_append _ _)
  constructor
  · rintro ⟨present, undeclared, outermost⟩
    rw [Table.lookupPath_cons_of_table hrest hu] at present
    refine ⟨present, fun q hq => (undeclared _ ((under q).2 hq)).of_cons, fun before hpre ne => ?_⟩
    obtain ⟨q, hq, within⟩ := outermost (key :: before) (List.cons_prefix_cons.2 ⟨rfl, hpre⟩)
      (by simpa using ne)
    cases q with
    | nil => exact absurd rfl hq.ne_nil
    | cons other q =>
      obtain rfl : key = other := Classical.byContradiction fun ne =>
        within (Table.apart_of_ne ne _ _)
      exact ⟨q, (under q).1 hq, fun apart => within (apart.cons key)⟩
  · rintro ⟨present, undeclared, outermost⟩
    refine ⟨(Table.lookupPath_cons_of_table hrest hu).symm ▸ present, fun q hq => ?_,
      fun before hpre ne => ?_⟩
    · cases q with
      | nil => exact absurd rfl hq.ne_nil
      | cons other q =>
        by_cases eq : key = other
        · subst eq
          exact (undeclared q ((under q).1 hq)).cons key
        · exact Table.apart_of_ne eq _ _
    · rcases List.prefix_cons_iff.1 hpre with rfl | ⟨after, rfl, hafter⟩
      · obtain ⟨q, hq⟩ := hleaf
        exact ⟨key :: q, (under q).2 hq, fun apart => apart.ne_nil rfl⟩
      · obtain ⟨q, hq, within⟩ := outermost after hafter (by simpa using ne)
        exact ⟨key :: q, (under q).2 hq, fun apart => within apart.of_cons⟩

end

theorem Fields.mem_undeclaredEntry {fields : Fields} {key : String} {v : Value} {path : List String} :
    path ∈ fields.undeclaredEntry key v ↔ ∃ rest, path = key :: rest ∧
      match fields.find? key with
      | none => rest = []
      | some p => rest ∈ p.shape.undeclared v := by
  rw [undeclaredEntry_eq]
  cases fields.find? key <;> simp [eq_comm, and_comm]

theorem Shape.cons_mem_undeclared {name : String} {fields : Fields} {t : Table}
    (ht : Entries.Sorted t) {key : String} {rest : List String} :
    key :: rest ∈ (record name fields).undeclared (.table t) ↔
      ∃ v, Entries.lookup key t = some v ∧
        match fields.find? key with
        | none => rest = []
        | some p => rest ∈ p.shape.undeclared v := by
  rw [undeclared, List.mem_flatMap]
  constructor
  · rintro ⟨⟨_, v⟩, he, h⟩
    obtain ⟨_, eq, h⟩ := Fields.mem_undeclaredEntry.1 h
    obtain ⟨rfl, rfl⟩ := List.cons.inj eq
    exact ⟨v, ht.lookup_eq_some_iff.2 he, h⟩
  · rintro ⟨v, hv, h⟩
    exact ⟨(key, v), Entries.mem_of_lookup hv, Fields.mem_undeclaredEntry.2 ⟨rest, rfl, h⟩⟩

theorem mem_undeclared_iff {name : String} {fields : Fields} (hn : (Shape.record name fields).filled)
    {t : Table} (ht : t.Ordered) (ho : fields.Open t) {path : List String} :
    path ∈ (Shape.record name fields).undeclared (.table t) ↔ Stray fields.IsLeaf t path := by
  induction path generalizing name fields t with
  | nil =>
    refine iff_of_false (fun h => ?_) fun h => nomatch h.present
    obtain ⟨e, _, h⟩ := List.mem_flatMap.1 h
    obtain ⟨_, eq, -⟩ := Fields.mem_undeclaredEntry.1 h
    cases eq
  | cons key rest ih =>
    rw [Shape.cons_mem_undeclared ht.sorted]
    cases hf : fields.find? key with
    | none => rw [stray_cons_of_unknown (Fields.exists_isLeaf hn) hf, exists_and_right, and_comm]
    | some p =>
      obtain ⟨optional, shape⟩ := p
      cases shape with
      | record inner sub =>
        have filled : (Shape.record inner sub).filled := Shape.filled_of_find? hn hf
        have hleaf := Fields.exists_isLeaf filled
        constructor
        · rintro ⟨v, hv, h⟩
          obtain ⟨u, rfl, openBelow⟩ := ho.under hf hleaf hv
          exact (stray_cons_of_record hleaf hf hv).2 ((ih filled (ht.of_lookup hv) openBelow).1 h)
        · intro h
          obtain ⟨w, hw⟩ := h.present
          obtain ⟨v, hv⟩ := Table.exists_lookup_of_lookupPath hw
          obtain ⟨u, rfl, openBelow⟩ := ho.under hf hleaf hv
          exact ⟨_, hv, (ih filled (ht.of_lookup hv) openBelow).2 ((stray_cons_of_record hleaf hf hv).1 h)⟩
      | boolean | integer | string | strings | stringSet | stringMap | choice =>
        refine iff_of_false ?_ (not_stray_cons_of_field hf rfl)
        rintro ⟨v, -, h⟩
        cases h

/-- The order in which the paths in a table are come by, depth first and from key to key. -/
def Before (path other : List String) : Prop := List.Lex (· < ·) path other

instance : Std.Irrefl Before where
  irrefl := List.lex_irrefl String.lt_irrefl

instance : Std.Antisymm Before where
  antisymm _ _ h h' := absurd h' (List.lex_asymm (fun lt => String.lt_asymm lt) h)

theorem pairwise_undeclared {name : String} {fields : Fields} (hn : (Shape.record name fields).filled)
    {t : Table} (ht : t.Ordered) (ho : fields.Open t) :
    ((Shape.record name fields).undeclared (.table t)).Pairwise Before := by
  induction ht using Table.Ordered.induction generalizing name fields with
  | table ht ih =>
    rw [Shape.undeclared, List.pairwise_flatMap]
    constructor
    · rintro ⟨key, v⟩ he
      rw [Fields.undeclaredEntry_eq]
      cases hf : fields.find? key with
      | none => exact List.pairwise_singleton _ _
      | some p =>
        refine List.pairwise_map.2 (List.Pairwise.imp .cons ?_)
        obtain ⟨optional, shape⟩ := p
        cases shape with
        | record inner sub =>
          have filled : (Shape.record inner sub).filled := Shape.filled_of_find? hn hf
          have hv := ht.sorted.lookup_eq_some_iff.2 he
          obtain ⟨u, rfl, openBelow⟩ := ho.under hf (Fields.exists_isLeaf filled) hv
          exact ih hv filled openBelow
        | boolean | integer | string | strings | stringSet | stringMap | choice => exact .nil
    · refine List.Pairwise.imp (fun lt x hx y hy => ?_) ht.sorted
      obtain ⟨_, rfl, -⟩ := Fields.mem_undeclaredEntry.1 hx
      obtain ⟨_, rfl, -⟩ := Fields.mem_undeclaredEntry.1 hy
      exact .rel lt

theorem exists_isLeaf_of_at? {name : String} {fields : Fields} (hn : (Shape.record name fields).filled)
    {path : List String} {p : Place} (hp : (Shape.record name fields).at? path = some p) :
    ∃ q, fields.IsLeaf q ∧ ¬Table.Apart path q := by
  induction path generalizing name fields with
  | nil => cases hp
  | cons key rest ih =>
    obtain ⟨⟨optional, shape⟩, hf, hrest⟩ : ∃ top, fields.find? key = some top ∧
        (rest ≠ [] → top.shape.at? rest = some p) := by
      by_cases hrest : rest = []
      · subst hrest
        exact ⟨p, hp, fun ne => absurd rfl ne⟩
      · rw [Shape.at?_cons hrest] at hp
        obtain ⟨top, hf, hp⟩ := Option.bind_eq_some_iff.1 hp
        exact ⟨top, hf, fun _ => hp⟩
    cases shape with
    | record inner sub =>
      have filled : (Shape.record inner sub).filled := Shape.filled_of_find? hn hf
      by_cases hnil : rest = []
      · obtain ⟨q, hq⟩ := Fields.exists_isLeaf filled
        refine ⟨key :: q, hq.cons hf, fun apart => apart.1 ?_⟩
        rw [hnil]
        exact List.prefix_append _ _
      · obtain ⟨q, hq, within⟩ := ih filled (hrest hnil)
        exact ⟨key :: q, hq.cons hf, fun apart => within apart.of_cons⟩
    | boolean | integer | string | strings | stringSet | stringMap | choice =>
      exact ⟨[key], ⟨_, hf, rfl⟩, fun apart => apart.2 (List.prefix_append _ _)⟩

theorem stray_merge_iff {name : String} {fields : Fields} (hr : (Shape.record name fields).regular)
    (hn : (Shape.record name fields).filled) {lower upper : Table}
    (hl : (Shape.record name fields).Fits (.table lower)) (hu : upper.Ordered)
    (ho : fields.Open upper) {path : List String} :
    Stray fields.IsLeaf (Table.merge lower upper) path ↔ Stray fields.IsLeaf upper path := by
  constructor
  · rintro ⟨⟨w, hw⟩, undeclared, outermost⟩
    refine ⟨?_, undeclared, outermost⟩
    cases hv : Table.lookupPath path upper with
    | some v => exact ⟨v, rfl⟩
    | none =>
      -- Then it is written by the record, unless something stands in the way of it.
      have free : Table.blocked path upper = false := by
        refine Bool.eq_false_iff.2 fun hb => ?_
        obtain ⟨before, v, hpre, ne, hv, hvt⟩ := Table.blocked_iff.1 hb
        obtain ⟨q, hq, within⟩ := outermost before hpre ne
        have apart := undeclared q hq
        have leads : before <+: q := Classical.byContradiction fun beyond =>
          within ⟨beyond, fun below => apart.2 (below.trans hpre)⟩
        have blocked := Table.blocked_iff.2 ⟨before, v, leads, (fun eq => apart.2 (eq ▸ hpre)), hv, hvt⟩
        rw [ho q hq] at blocked
        cases blocked
      rw [Table.lookupPath_merge_of_none hu hv free] at hw
      obtain ⟨p, hp, -⟩ := hl.lookupPath hr hw
      obtain ⟨q, hq, within⟩ := exists_isLeaf_of_at? hn hp
      exact absurd (undeclared q hq) within
  · rintro ⟨⟨v, hv⟩, undeclared, outermost⟩
    exact ⟨⟨_, Table.lookupPath_merge_of_some hu hv⟩, undeclared, outermost⟩

theorem not_stray_without {leaf : List String → Prop} {t : Table} {strays : List (List String)}
    (h : ∀ path, path ∈ strays ↔ Stray leaf t path) (path : List String) :
    ¬Stray leaf (Table.without strays t) path := by
  rintro ⟨⟨v, hv⟩, undeclared, outermost⟩
  obtain ⟨w, hw, -⟩ := Table.exists_of_lookupPath_without hv
  have stray : Stray leaf t path := ⟨⟨w, hw⟩, undeclared, outermost⟩
  have apart (p : List String) (hp : p ∈ strays) (ne : p ≠ path) : Table.Apart p path :=
    ((h p).1 hp).apart stray ne
  have hne : path ≠ [] := by
    rintro rfl
    cases hw
  rw [Table.without_eq_setPaths, Table.lookupPath_setPaths_of_mem apart hne ((h path).2 stray)] at hv
  cases hv

end DottedPatch.Config
