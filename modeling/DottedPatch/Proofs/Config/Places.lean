import DottedPatch.Failure
import DottedPatch.Proofs.Config.Shapes
import DottedPatch.Proofs.Toml.PathEdits

namespace DottedPatch.Config

open Toml

namespace Shape

theorem isTable_of_place? {s : Shape} {key : String} {p : Place} (h : s.place? key = some p) :
    s.isTable := by
  cases s with
  | boolean | integer | string | strings | stringSet | choice => simp [place?] at h
  | record | stringMap => rfl

theorem required_of_place? {s : Shape} (hr : s.regular) {key : String} {p : Place}
    (h : s.place? key = some p) (hp : p.shape.isRecord) : p.optional = false := by
  cases s with
  | boolean | integer | string | strings | stringSet | choice => simp [place?] at h
  | record name fields => exact Fields.required_of_find? hr h hp
  | stringMap =>
    obtain rfl := Option.some.inj h
    simp [isRecord] at hp

def at? : List String → Shape → Option Place
  | [], _ => none
  | [key], s => s.place? key
  | key :: rest, s => (s.place? key).bind fun p => p.shape.at? rest

@[simp] theorem at?_singleton (key : String) (s : Shape) : s.at? [key] = s.place? key := rfl

theorem at?_cons {key : String} {rest : List String} (h : rest ≠ []) (s : Shape) :
    s.at? (key :: rest) = (s.place? key).bind fun p => p.shape.at? rest := by
  cases rest with
  | nil => exact absurd rfl h
  | cons => rfl

theorem isTable_of_at? {s : Shape} {path : List String} {p : Place} (h : s.at? path = some p) :
    s.isTable := by
  cases path with
  | nil => simp [at?] at h
  | cons key rest =>
    cases rest with
    | nil => exact isTable_of_place? h
    | cons next rest =>
      rw [at?_cons (by simp)] at h
      obtain ⟨q, hq, _⟩ := Option.bind_eq_some_iff.1 h
      exact isTable_of_place? hq

theorem at?_append {path rest : List String} {s : Shape} (hp : path ≠ []) (hrest : rest ≠ []) :
    s.at? (path ++ rest) = (s.at? path).bind fun p => p.shape.at? rest := by
  induction path generalizing s with
  | nil => exact absurd rfl hp
  | cons key path ih =>
    rw [List.cons_append, at?_cons (by simp [hrest])]
    cases path with
    | nil => rfl
    | cons next path =>
      rw [at?_cons (by simp), Option.bind_assoc]
      congr 1
      funext q
      exact ih (by simp)

theorem regular_of_at? {path : List String} {s : Shape} (hr : s.regular) {p : Place}
    (h : s.at? path = some p) : p.shape.regular := by
  induction path generalizing s with
  | nil => simp [at?] at h
  | cons key rest ih =>
    cases rest with
    | nil => exact regular_of_place? hr h
    | cons next rest =>
      rw [at?_cons (by simp)] at h
      obtain ⟨q, hq, h⟩ := Option.bind_eq_some_iff.1 h
      exact ih (regular_of_place? hr hq) h

end Shape

def Fields.leaf? : List String → Fields → Option Place
  | [], _ => none
  | [key], fields => fields.find? key
  | key :: rest, fields =>
    match fields.find? key with
    | some ⟨_, .record _ sub⟩ => sub.leaf? rest
    | _ => none

namespace Fields

theorem leaf?_cons {key : String} {rest : List String} (hrest : rest ≠ []) {fields : Fields}
    {p : Place} : fields.leaf? (key :: rest) = some p ↔
      ∃ optional name sub, fields.find? key = some ⟨optional, .record name sub⟩ ∧
        sub.leaf? rest = some p := by
  cases rest with
  | nil => exact absurd rfl hrest
  | cons next rest =>
    simp only [leaf?]
    constructor
    · intro h
      split at h
      · rename_i optional name sub hf
        exact ⟨optional, name, sub, hf, h⟩
      · cases h
    · rintro ⟨optional, name, sub, hf, h⟩
      rw [hf]
      exact h

theorem at?_of_leaf? {path : List String} {fields : Fields} {p : Place}
    (h : fields.leaf? path = some p) (name : String) : (Shape.record name fields).at? path = some p := by
  induction path generalizing fields name with
  | nil => simp [leaf?] at h
  | cons key rest ih =>
    by_cases hrest : rest = []
    · subst hrest
      exact h
    · obtain ⟨_, inner, sub, hf, h⟩ := (leaf?_cons hrest).1 h
      rw [Shape.at?_cons hrest, Shape.place?, hf]
      exact ih h inner

/-- The path leads through records to a field that is none. -/
def IsLeaf (fields : Fields) (path : List String) : Prop :=
  ∃ p, fields.leaf? path = some p ∧ p.shape.isRecord = false

theorem IsLeaf.ne_nil {fields : Fields} {path : List String} (h : fields.IsLeaf path) : path ≠ [] := by
  rintro rfl
  obtain ⟨_, hp, _⟩ := h
  cases hp

theorem IsLeaf.eq_of_within {fields : Fields} {path other : List String} (h : fields.IsLeaf path)
    (ho : fields.IsLeaf other) (hpre : path <+: other) : path = other := by
  induction path generalizing fields other with
  | nil => exact absurd rfl h.ne_nil
  | cons key rest ih =>
    obtain ⟨p, hp, hrecord⟩ := h
    obtain ⟨q, hq, hrecord'⟩ := ho
    obtain ⟨others, rfl⟩ := hpre
    by_cases hrest : rest ++ others = []
    · rw [List.cons_append, hrest, (List.append_eq_nil_iff.1 hrest).1]
    · obtain ⟨_, _, sub, hf, hq⟩ := (leaf?_cons hrest).1 hq
      by_cases hnil : rest = []
      · subst hnil
        obtain rfl := Option.some.inj (hf.symm.trans hp)
        cases hrecord
      · obtain ⟨_, _, sub', hf', hp⟩ := (leaf?_cons hnil).1 hp
        obtain ⟨_, rfl⟩ := Shape.record.inj (Place.mk.inj (Option.some.inj (hf.symm.trans hf'))).2
        exact congrArg (key :: ·) (ih ⟨p, hp, hrecord⟩ ⟨q, hq, hrecord'⟩ (List.prefix_append _ _))

theorem IsLeaf.apart {fields : Fields} {path other : List String} (h : fields.IsLeaf path)
    (ho : fields.IsLeaf other) (ne : path ≠ other) : Table.Apart path other :=
  ⟨fun hp => ne (h.eq_of_within ho hp), fun hp => ne (ho.eq_of_within h hp).symm⟩

def sectioned : Fields → Table → Bool
  | .nil, _ => true
  | .required name (.record _ sub) rest, t | .optional name (.record _ sub) rest, t =>
    ((Entries.lookup name t).all fun v => v.table?.any sub.sectioned) && rest.sectioned t
  | .required _ _ rest, t | .optional _ _ rest, t => rest.sectioned t

theorem sectioned_of_find? {fields : Fields} {t : Table} (h : fields.sectioned t) {key : String}
    {optional : Bool} {name : String} {sub : Fields}
    (hf : fields.find? key = some ⟨optional, .record name sub⟩) {v : Value}
    (hv : Entries.lookup key t = some v) : ∃ u, v = .table u ∧ sub.sectioned u := by
  cases fields with
  | nil => simp [find?] at hf
  | required field shape rest | optional field shape rest =>
    simp only [find?] at hf
    split at hf
    · rename_i eq
      obtain ⟨_, rfl⟩ := Place.mk.inj (Option.some.inj hf)
      simp only [sectioned, eq, hv, Option.all_some, Bool.and_eq_true, Option.any_eq_true] at h
      obtain ⟨⟨u, hu, within⟩, _⟩ := h
      exact ⟨u, Value.table?_eq_some.1 hu, within⟩
    · have others : rest.sectioned t := by cases shape <;> simp_all [sectioned]
      exact sectioned_of_find? others hf hv

theorem not_blocked_of_sectioned {fields : Fields} {t : Table} (h : fields.sectioned t)
    {path : List String} (hl : fields.IsLeaf path) : Table.blocked path t = false := by
  induction path generalizing fields t with
  | nil => rfl
  | cons key rest ih =>
    by_cases hrest : rest = []
    · rw [hrest, Table.blocked_singleton]
    · obtain ⟨p, hp, hrecord⟩ := hl
      obtain ⟨_, _, sub, hf, hp⟩ := (leaf?_cons hrest).1 hp
      cases hv : Entries.lookup key t with
      | none => exact Table.blocked_of_none hv
      | some v =>
        obtain ⟨u, rfl, hu⟩ := sectioned_of_find? h hf hv
        rw [Table.blocked_of_table hrest hv]
        exact ih hu ⟨p, hp, hrecord⟩

end Fields

namespace Shape

theorem fits_empty {s : Shape} (hr : s.regular) {key : String} {p : Place}
    (h : s.place? key = some p) (hp : p.optional = true) (ht : p.shape.isTable) :
    p.shape.Fits (.table Table.empty) := by
  have required := required_of_place? hr h
  obtain ⟨optional, shape⟩ := p
  cases shape with
  | boolean | integer | string | strings | stringSet | choice => simp [isTable] at ht
  | record name fields => simp_all [isRecord]
  | stringMap => exact ⟨(⟨[], .nil⟩ : StringMap), rfl⟩

theorem Fits.place {s : Shape} (hr : s.regular) {t : Table} {key : String} {p : Place}
    (h : s.Fits (.table t)) (hp : s.place? key = some p) :
    Place.Fits (some p) (Entries.lookup key t) := by
  rw [← hp]
  exact ((fits_table_iff (isTable_of_place? hp) hr).1 h).2 key

theorem Fits.put {s : Shape} (hr : s.regular) {t : Table} {key : String} {p : Place}
    {v : Option Value} (h : s.Fits (.table t)) (hp : s.place? key = some p)
    (hv : Place.Fits (some p) v) : s.Fits (.table (Table.put key v t)) := by
  have ht := isTable_of_place? hp
  obtain ⟨sorted, hkey⟩ := (fits_table_iff ht hr).1 h
  refine (fits_table_iff ht hr).2 ⟨Table.sorted_put sorted, fun other => ?_⟩
  rw [Table.lookup_put]
  split
  · rename_i eq
    rw [← eq, hp]
    exact hv
  · exact hkey other

theorem Fits.below {s : Shape} (hr : s.regular) {t : Table} (h : s.Fits (.table t)) {key : String}
    {p : Place} (hp : s.place? key = some p) (ht : p.shape.isTable) :
    p.shape.Fits (.table (Table.below key t)) := by
  have place := h.place hr hp
  cases hl : Entries.lookup key t with
  | none =>
    rw [hl] at place
    rw [Table.below_of_not_table (by rw [hl]; rfl)]
    exact fits_empty hr hp place ht
  | some v =>
    rw [hl] at place
    obtain ⟨sub, rfl, _⟩ := Shape.Fits.table ht place
    rw [Table.below_of_table hl]
    exact place

theorem Fits.insertPath {s : Shape} (hr : s.regular) {t : Table} (h : s.Fits (.table t))
    {path : List String} {p : Place} (hp : s.at? path = some p) {v : Value} (hv : p.shape.Fits v) :
    s.Fits (.table (Table.insertPath v path t)) := by
  induction path generalizing s t with
  | nil => simp [at?] at hp
  | cons key rest ih =>
    by_cases hrest : rest = []
    · subst hrest
      exact h.put (v := some v) hr hp hv
    · rw [at?_cons hrest] at hp
      obtain ⟨q, hq, hp⟩ := Option.bind_eq_some_iff.1 hp
      have inner := ih (regular_of_place? hr hq) (h.below hr hq (isTable_of_at? hp)) hp
      rw [Table.insertPath_cons hrest]
      exact h.put (v := some (.table _)) hr hq inner

theorem Fits.erasePath {s : Shape} (hr : s.regular) {t : Table} (h : s.Fits (.table t))
    {path : List String} {p : Place} (hp : s.at? path = some p) (ho : p.optional = true) :
    s.Fits (.table (Table.erasePath path t)) := by
  induction path generalizing s t with
  | nil => simp [at?] at hp
  | cons key rest ih =>
    by_cases hrest : rest = []
    · subst hrest
      exact h.put (v := none) hr hp ho
    · rw [at?_cons hrest] at hp
      obtain ⟨q, hq, hp⟩ := Option.bind_eq_some_iff.1 hp
      rw [Table.erasePath_cons hrest]
      split
      · rename_i sub hsub
        have below := h.below hr hq (isTable_of_at? hp)
        rw [Table.below, hsub] at below
        exact h.put (v := some (.table _)) hr hq (ih (regular_of_place? hr hq) below hp)
      · exact h

theorem Fits.run? {s : Shape} (hr : s.regular) {t : Table} (h : s.Fits (.table t)) {w : Table.Write}
    {p : Place} (hp : s.at? w.path = some p) (hw : Place.Fits (some p) w.value) :
    ∃ t', w.run? t = some t' ∧ s.Fits (.table t') := by
  obtain ⟨parents, name, v⟩ := w
  induction parents generalizing s t with
  | nil => exact ⟨_, rfl, h.put hr hp hw⟩
  | cons key parents ih =>
    change s.at? (key :: (parents ++ [name])) = some p at hp
    rw [at?_cons (by simp)] at hp
    obtain ⟨q, hq, hp⟩ := Option.bind_eq_some_iff.1 hp
    have hqr := regular_of_place? hr hq
    have hqt := isTable_of_at? hp
    have place := h.place hr hq
    -- The section is there as a table, or a map that is missing and can be made.
    obtain ⟨sub, fits, run⟩ : ∃ sub, q.shape.Fits (.table sub) ∧
        Table.Write.run? ⟨key :: parents, name, v⟩ t =
          (Table.Write.run? ⟨parents, name, v⟩ sub).map fun sub => Entries.insert key (.table sub) t := by
      cases hl : Entries.lookup key t with
      | none =>
        rw [hl] at place
        exact ⟨_, fits_empty hr hq place hqt, Table.Write.run?_below_none hl ⟨parents, name, v⟩⟩
      | some u =>
        rw [hl] at place
        have fits : q.shape.Fits u := place
        obtain ⟨sub, rfl, _⟩ := fits.table hqt
        exact ⟨sub, fits, Table.Write.run?_below_table hl ⟨parents, name, v⟩⟩
    obtain ⟨sub', hs, fits'⟩ := ih hqr fits hp hw
    rw [run, hs]
    exact ⟨_, rfl, h.put (v := some (.table sub')) hr hq fits'⟩

theorem isTable_of_fits {s : Shape} {t : Table} (h : s.Fits (.table t)) : s.isTable := by
  obtain ⟨c, hc⟩ := h
  cases s with
  | record | stringMap => rfl
  | boolean | integer | string | strings | stringSet | choice => cases hc

theorem Fits.place_of_lookup {s : Shape} (hr : s.regular) {t : Table} (h : s.Fits (.table t))
    {key : String} {v : Value} (hv : Entries.lookup key t = some v) :
    ∃ p, s.place? key = some p ∧ p.shape.Fits v := by
  have place := ((fits_table_iff (isTable_of_fits h) hr).1 h).2 key
  rw [hv] at place
  cases hp : s.place? key with
  | none => simp [hp, Place.Fits] at place
  | some p => exact ⟨p, rfl, by rwa [hp] at place⟩

theorem Fits.lookupPath {s : Shape} (hr : s.regular) {t : Table} (h : s.Fits (.table t))
    {path : List String} {v : Value} (hv : Table.lookupPath path t = some v) : ∃ p, s.at? path = some p ∧ p.shape.Fits v := by
  induction path generalizing s t with
  | nil => simp at hv
  | cons key rest ih =>
    cases rest with
    | nil => exact h.place_of_lookup hr hv
    | cons next rest =>
      obtain ⟨sub, hsub, hv⟩ := (Table.lookupPath_cons_eq_some_iff (by simp)).1 hv
      obtain ⟨q, hq, fits⟩ := h.place_of_lookup hr hsub
      obtain ⟨p, hp, hfits⟩ := ih (regular_of_place? hr hq) fits hv
      refine ⟨p, ?_, hfits⟩
      rw [at?_cons (by simp), hq]
      exact hp

theorem Fits.of_lookupPath {s : Shape} (hr : s.regular) {t : Table} (h : s.Fits (.table t))
    {path : List String} {p : Place} (hp : s.at? path = some p) {v : Value}
    (hv : Table.lookupPath path t = some v) : p.shape.Fits v := by
  obtain ⟨q, hq, fits⟩ := h.lookupPath hr hv
  obtain rfl := Option.some.inj (hp.symm.trans hq)
  exact fits

theorem Fits.not_blocked {s : Shape} (hr : s.regular) {t : Table} (h : s.Fits (.table t))
    {path : List String} {p : Place} (hp : s.at? path = some p) : Table.blocked path t = false := by
  induction path generalizing s t with
  | nil => rfl
  | cons key rest ih =>
    by_cases hrest : rest = []
    · rw [hrest, Table.blocked_singleton]
    · rw [at?_cons hrest] at hp
      obtain ⟨q, hq, hp⟩ := Option.bind_eq_some_iff.1 hp
      cases hl : Entries.lookup key t with
      | none => exact Table.blocked_of_none hl
      | some v =>
        have place := h.place hr hq
        rw [hl] at place
        have fits : q.shape.Fits v := place
        obtain ⟨sub, rfl, _⟩ := fits.table (isTable_of_at? hp)
        rw [Table.blocked_of_table hrest hl]
        exact ih (regular_of_place? hr hq) fits hp

theorem Reads.place {s : Shape} (ht : s.isTable) (hr : s.regular) {m u : Table}
    (hm : Entries.Sorted m) (h : s.Reads (.table m) (.table u)) (key : String) :
    Place.Reads (s.place? key) (Entries.lookup key m) (Entries.lookup key u) := by
  obtain ⟨_, eq, _, hkey⟩ := h.table ht hr hm
  obtain rfl := Value.table.inj eq
  exact hkey key

theorem Reads.under {s : Shape} (hr : s.regular) {m u : Table} (hm : m.Ordered)
    (h : s.Reads (.table m) (.table u)) {key : String} {q : Place} (hq : s.place? key = some q)
    (ht : q.shape.isTable) {sub : Table} (hl : Entries.lookup key m = some (.table sub)) :
    ∃ sub', Entries.lookup key u = some (.table sub') ∧ q.shape.Reads (.table sub) (.table sub') := by
  have read := h.place (isTable_of_place? hq) hr hm.sorted key
  rw [hq, hl] at read
  obtain ⟨w, hw, hlookup⟩ := read
  have ho : sub.Ordered := hm.of_lookup hl
  obtain ⟨sub', rfl, -⟩ := hw.table ht (regular_of_place? hr hq) ho.sorted
  exact ⟨sub', hlookup, hw⟩

theorem Reads.lookupPath_none {s : Shape} (hr : s.regular) {m u : Table} (hm : m.Ordered)
    (h : s.Reads (.table m) (.table u)) {path : List String} {p : Place} (hp : s.at? path = some p)
    (hb : Table.blocked path m = false) (hv : Table.lookupPath path m = none) :
    Table.lookupPath path u = none := by
  induction path generalizing s m u with
  | nil => rfl
  | cons key rest ih =>
    have read := h.place (isTable_of_at? hp) hr hm.sorted key
    by_cases hrest : rest = []
    · subst hrest
      simp only [at?_singleton, Table.lookupPath_singleton] at hp hv
      rw [hp, hv] at read
      exact read.2
    · rw [at?_cons hrest] at hp
      obtain ⟨q, hq, hp⟩ := Option.bind_eq_some_iff.1 hp
      rw [Table.lookupPath_cons hrest] at hv ⊢
      cases hl : Entries.lookup key m with
      | none =>
        rw [hq, hl] at read
        rw [read.2]
        rfl
      | some v =>
        cases hvt : v.table? with
        | none => simp [Table.blocked_of_not_table hrest hl hvt] at hb
        | some sub =>
          obtain rfl := Value.table?_eq_some.1 hvt
          rw [Table.blocked_of_table hrest hl] at hb
          rw [hl] at hv
          obtain ⟨sub', hlookup, reads⟩ := h.under hr hm hq (isTable_of_at? hp) hl
          rw [hlookup]
          exact ih (regular_of_place? hr hq) (hm.of_lookup hl) reads hp hb hv

theorem Reads.lookupPath {s : Shape} (hr : s.regular) {m u : Table} (hm : m.Ordered)
    (h : s.Reads (.table m) (.table u)) {path : List String} {p : Place} (hp : s.at? path = some p)
    {v : Value} (hv : Table.lookupPath path m = some v) :
    ∃ w, p.shape.Reads v w ∧ Table.lookupPath path u = some w := by
  induction path generalizing s m u with
  | nil => simp at hv
  | cons key rest ih =>
    cases rest with
    | nil =>
      have read := h.place (isTable_of_at? hp) hr hm.sorted key
      simp only [at?_singleton, Table.lookupPath_singleton] at hp hv
      rw [hp, hv] at read
      exact read
    | cons next rest =>
      rw [at?_cons (by simp)] at hp
      obtain ⟨q, hq, hp⟩ := Option.bind_eq_some_iff.1 hp
      obtain ⟨sub, hsub, hv⟩ := (Table.lookupPath_cons_eq_some_iff (by simp)).1 hv
      obtain ⟨sub', hlookup, reads⟩ := h.under hr hm hq (isTable_of_at? hp) hsub
      obtain ⟨x, hx, found⟩ := ih (regular_of_place? hr hq) (hm.of_lookup hsub) reads hp hv
      exact ⟨x, hx, (Table.lookupPath_cons_of_table (by simp) hlookup).trans found⟩

theorem optional_of_place? {s : Shape} (hr : s.regular) {key : String} {q p : Place}
    {rest : List String} (hq : s.place? key = some q) (ho : q.optional = true)
    (hp : q.shape.at? rest = some p) : p.optional = true := by
  have ht := isTable_of_at? hp
  have required := required_of_place? hr hq
  obtain ⟨optional, shape⟩ := q
  cases shape with
  | boolean | integer | string | strings | stringSet | choice => simp [isTable] at ht
  | record => simp_all [isRecord]
  | stringMap =>
    cases rest with
    | nil => simp [at?] at hp
    | cons next rest =>
      cases rest with
      | nil =>
        obtain rfl := Option.some.inj hp
        rfl
      | cons after rest =>
        rw [at?_cons (by simp)] at hp
        obtain ⟨r, hr, hp⟩ := Option.bind_eq_some_iff.1 hp
        obtain rfl := Option.some.inj hr
        simpa [isTable] using isTable_of_at? hp

theorem optional_of_erasePath {s : Shape} (hr : s.regular) {t : Table} (h : s.Fits (.table t))
    {path : List String} {p : Place} (hp : s.at? path = some p) {w : Value}
    (hw : s.Reads (.table (Table.erasePath path t)) w) : p.optional = true := by
  induction path generalizing s t w with
  | nil => simp [at?] at hp
  | cons key rest ih =>
    have ht := isTable_of_at? hp
    have sorted := h.sorted ht
    cases rest with
    | nil =>
      obtain ⟨u, _, _, hkey⟩ := hw.table ht hr sorted.erase
      have read := hkey key
      rw [Entries.lookup_erase_self, show s.place? key = some p from hp] at read
      exact read.1
    | cons next rest =>
      rw [at?_cons (by simp)] at hp
      obtain ⟨q, hq, hp⟩ := Option.bind_eq_some_iff.1 hp
      have place := h.place hr hq
      have hqt := isTable_of_at? hp
      cases hl : Entries.lookup key t with
      | none =>
        rw [hl] at place
        exact optional_of_place? hr hq place hp
      | some v =>
        rw [hl] at place
        have fits : q.shape.Fits v := place
        obtain ⟨sub, rfl, _⟩ := fits.table hqt
        simp only [Table.erasePath, hl] at hw
        obtain ⟨u, _, _, hkey⟩ := hw.table ht hr sorted.insert
        have read := hkey key
        rw [Entries.lookup_insert_self, hq] at read
        obtain ⟨x, hx, _⟩ := read
        exact ih (regular_of_place? hr hq) fits hp hx

theorem reads_of_no_place {s : Shape} (hr : s.regular) {t t' : Table} (h : s.Fits (.table t))
    {parents : List String}
    (hsection : parents = [] ∨ ∃ sub, Table.lookupPath parents t = some (.table sub)) {name : String}
    (hnone : s.at? (parents ++ [name]) = none) {v : Option Value}
    (run : Table.Write.run? ⟨parents, name, v⟩ t = some t') : s.Reads (.table t') (.table t) := by
  induction parents generalizing s t t' with
  | nil =>
    have ht := isTable_of_fits h
    obtain ⟨sorted, hkey⟩ := (fits_table_iff ht hr).1 h
    obtain rfl := Option.some.inj run
    refine (reads_table_iff ht hr (Table.sorted_put sorted)).2 ⟨t, rfl, sorted, fun key => ?_⟩
    rw [Table.lookup_put]
    split
    · rename_i eq
      have absent := hkey key
      have hnone : s.place? name = none := hnone
      rw [← eq, hnone] at absent ⊢
      exact absent
    · exact (place_reads_self hr).2 (hkey key)
  | cons key parents ih =>
    have ht := isTable_of_fits h
    obtain ⟨sorted, hkey⟩ := (fits_table_iff ht hr).1 h
    obtain ⟨sub, hl, hsub⟩ := Table.lookup_of_section hsection
    obtain ⟨q, hq, fits⟩ := h.place_of_lookup hr hl
    rw [List.cons_append, at?_cons (by simp), hq] at hnone
    have run : ((Table.Write.run? ⟨parents, name, v⟩ sub).map fun sub =>
        Entries.insert key (.table sub) t) = some t' :=
      Eq.trans (Table.Write.run?_below_table hl ⟨parents, name, v⟩).symm run
    obtain ⟨sub', hs, rfl⟩ := Option.map_eq_some_iff.1 run
    have reads := ih (regular_of_place? hr hq) fits hsub hnone hs
    refine (reads_table_iff ht hr sorted.insert).2 ⟨t, rfl, sorted, fun other => ?_⟩
    rw [Entries.lookup_insert]
    split
    · rename_i eq
      rw [← eq, hq, hl]
      exact ⟨_, reads, rfl⟩
    · exact (place_reads_self hr).2 (hkey other)

end Shape

mutual

theorem Shape.ordered_encode : (s : Shape) → (c : s.Carrier) → (s.encode c).Ordered
  | .boolean, _ | .integer _, _ | .string, _ | .choice _, _ => .scalar _
  | .strings, ss => (LeafValue.list ss).ordered_toValue
  | .stringSet, ss => (LeafValue.set ss).ordered_toValue
  | .stringMap, m => (LeafValue.map m).ordered_toValue
  | .record _ fields, c => fields.ordered_encode c

theorem Fields.ordered_encode : (fields : Fields) → (c : fields.Carrier) →
    Table.Ordered (fields.encode c)
  | .nil, _ => .empty
  | .required _ shape rest, c => (rest.ordered_encode c.2).insert (shape.ordered_encode c.1)
  | .optional _ _ rest, (none, c) => rest.ordered_encode c
  | .optional _ shape rest, (some x, c) => (rest.ordered_encode c).insert (shape.ordered_encode x)

end

theorem Shape.Fits.ordered {s : Shape} {v : Value} (h : s.Fits v) : v.Ordered := by
  obtain ⟨c, rfl⟩ := h
  exact s.ordered_encode c

section

variable {α : Type} [Shaped α] [Inhabited α]

theorem toTable_eq_ok_iff {c : α} {t : Table} :
    toTable c = .ok t ↔ (Shaped.shape α).encode (Shaped.toCarrier c) = .table t := by
  have value : Configuration.encode c = (Shaped.shape α).encode (Shaped.toCarrier c) := rfl
  unfold toTable
  rw [value]
  cases (Shaped.shape α).encode (Shaped.toCarrier c) with
  | scalar | array => simp
  | table u => simp

theorem ofTable_eq_ok_iff {c : α} {t : Table} :
    (ofTable t : Except Failure α) = .ok c ↔
      (Shaped.shape α).decode (.table t) = .ok (Shaped.toCarrier c) := by
  have read : (Configuration.decode (.table t) : Except TypeError α) =
      ((Shaped.shape α).decode (.table t)).map Shaped.ofCarrier := rfl
  unfold ofTable
  rw [read]
  cases (Shaped.shape α).decode (.table t) with
  | error e => simp [Except.map]
  | ok d =>
    simp only [Except.map, Except.ok.injEq]
    constructor
    · rintro rfl
      exact (Shaped.toCarrier_ofCarrier d).symm
    · rintro rfl
      exact Shaped.ofCarrier_toCarrier c

theorem fits_toTable {c : α} {t : Table} (h : toTable c = .ok t) :
    (Shaped.shape α).Fits (.table t) :=
  ⟨_, toTable_eq_ok_iff.1 h⟩

theorem exists_toTable (ht : (Shaped.shape α).isTable) (c : α) : ∃ t, toTable c = .ok t := by
  obtain ⟨t, eq, _⟩ := Shape.Fits.table ht ⟨Shaped.toCarrier c, rfl⟩
  exact ⟨t, toTable_eq_ok_iff.2 eq⟩

theorem ofTable_reads {c : α} {t : Table} (ht : (Shaped.shape α).isTable)
    (h : (ofTable t : Except Failure α) = .ok c) :
    ∃ t', toTable c = .ok t' ∧ (Shaped.shape α).Reads (.table t) (.table t') := by
  obtain ⟨t', ht'⟩ := exists_toTable ht c
  exact ⟨t', ht', _, ofTable_eq_ok_iff.1 h, toTable_eq_ok_iff.1 ht'⟩

theorem exists_ofTable (hr : (Shaped.shape α).regular) {t : Table}
    (h : (Shaped.shape α).Fits (.table t)) : ∃ c : α, ofTable t = .ok c ∧ toTable c = .ok t := by
  obtain ⟨d, hd⟩ := h
  refine ⟨Shaped.ofCarrier d, ?_, ?_⟩
  · rw [ofTable_eq_ok_iff, Shaped.toCarrier_ofCarrier, ← hd]
    exact Shape.decode_encode hr d
  · rw [toTable_eq_ok_iff, Shaped.toCarrier_ofCarrier, hd]

theorem ofTable_toTable (hr : (Shaped.shape α).regular) {c : α} {t : Table} (h : toTable c = .ok t) :
    (ofTable t : Except Failure α) = .ok c := by
  rw [ofTable_eq_ok_iff, ← toTable_eq_ok_iff.1 h]
  exact Shape.decode_encode hr _

theorem eq_of_toTable (hr : (Shaped.shape α).regular) {c c' : α} {t : Table} (h : toTable c = .ok t)
    (h' : toTable c' = .ok t) : c = c' :=
  Except.ok.inj ((ofTable_toTable hr h).symm.trans (ofTable_toTable hr h'))

end

end DottedPatch.Config
