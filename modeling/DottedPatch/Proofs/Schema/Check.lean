import DottedPatch.Proofs.Except
import DottedPatch.Proofs.Patch.Description
import DottedPatch.Schema.Check

namespace DottedPatch

open Config Toml

namespace Config

mutual

def Shape.plain : Shape → Bool
  | .choice _ => false
  | .record _ fields => fields.plain
  | .boolean | .integer _ | .string | .strings | .stringSet | .stringMap => true

def Fields.plain : Fields → Bool
  | .nil => true
  | .required name shape rest | .optional name shape rest =>
    decide (DotFree name ∧ name ≠ "" ∧ name ≠ "k") && shape.plain && rest.plain

end

theorem Fields.plain_of_find? {fields : Fields} (h : fields.plain) {key : String} {p : Place}
    (hp : fields.find? key = some p) : (DotFree key ∧ key ≠ "" ∧ key ≠ "k") ∧ p.shape.plain := by
  cases fields with
  | nil => simp [find?] at hp
  | required name shape rest | optional name shape rest =>
    simp only [plain, Bool.and_eq_true, decide_eq_true_eq] at h
    simp only [find?] at hp
    split at hp
    · rename_i eq
      obtain rfl := Option.some.inj hp
      exact ⟨eq ▸ h.1.1, h.1.2⟩
    · exact plain_of_find? h.2 hp

namespace Shape

variable {s : Shape}

theorem plain_of_place? (h : s.plain) {key : String} {p : Place} (hp : s.place? key = some p) :
    p.shape.plain := by
  cases s with
  | boolean | integer | string | strings | stringSet | choice => simp [place?] at hp
  | record => exact (Fields.plain_of_find? h hp).2
  | stringMap =>
    obtain rfl := Option.some.inj hp
    rfl

theorem plain_of_at? (h : s.plain) {path : List String} {p : Place} (hp : s.at? path = some p) :
    p.shape.plain := by
  induction path generalizing s with
  | nil => simp [at?] at hp
  | cons key rest ih =>
    cases rest with
    | nil => exact plain_of_place? h hp
    | cons next rest =>
      rw [at?_cons (by simp)] at hp
      obtain ⟨q, hq, hp⟩ := Option.bind_eq_some_iff.1 hp
      exact ih (plain_of_place? h hq) hp

theorem name_of_place? (h : s.plain) {key : String} {p : Place} (hp : s.place? key = some p)
    (ht : p.shape.isTable) : DotFree key ∧ key ≠ "" := by
  cases s with
  | boolean | integer | string | strings | stringSet | choice => simp [place?] at hp
  | record =>
    obtain ⟨⟨dots, named, _⟩, _⟩ := Fields.plain_of_find? h hp
    exact ⟨dots, named⟩
  | stringMap =>
    obtain rfl := Option.some.inj hp
    simp [isTable] at ht

theorem names_of_at? (h : s.plain) {path : List String} {p : Place} (hp : s.at? path = some p)
    (ht : p.shape.isTable) : ∀ key ∈ path, DotFree key ∧ key ≠ "" := by
  induction path generalizing s with
  | nil => simp
  | cons key rest ih =>
    cases rest with
    | nil => simpa using name_of_place? h hp ht
    | cons next rest =>
      rw [at?_cons (by simp)] at hp
      obtain ⟨q, hq, hrest⟩ := Option.bind_eq_some_iff.1 hp
      intro other ho
      rcases List.mem_cons.1 ho with rfl | ho
      · exact name_of_place? h hq (isTable_of_at? hrest)
      · exact ih (plain_of_place? h hq) hrest other ho

theorem place?_of_dotted (h : s.plain) {key : String} (hk : ¬DotFree key) {p : Place}
    (hp : s.at? (pathOf key) = some p) : s.place? key = none := by
  obtain ⟨first, next, rest, eq⟩ := exists_pathOf hk
  rw [eq, at?_cons (by simp)] at hp
  obtain ⟨q, hq, hrest⟩ := Option.bind_eq_some_iff.1 hp
  cases s with
  | boolean | integer | string | strings | stringSet | choice => simp [place?] at hq
  | record name fields =>
    cases hf : fields.find? key with
    | none => exact hf
    | some p => exact absurd (Fields.plain_of_find? h hf).1.1 hk
  | stringMap =>
    obtain rfl := Option.some.inj hq
    simpa [isTable] using isTable_of_at? hrest

end Shape

end Config

theorem Kind.suits_of_sample {k : Kind} {s : Shape} (hr : s.regular) (hp : s.plain)
    (h : s.Fits k.sample.toValue) (wide : ∀ w u, k = .integer w → s = .integer u → w.bits ≤ u.bits)
    (kept : ∀ d, k = .list d → s ≠ .stringSet) : k.suits s := by
  obtain ⟨c, hc⟩ := h
  cases s with
  | choice => simp [Shape.plain] at hp
  | boolean | string | strings | stringMap => cases k <;> first | rfl | cases hc
  | integer u =>
    cases k with
    | integer w => exact decide_eq_true (wide w u rfl rfl)
    | boolean | string | set | list | map => cases hc
  | stringSet =>
    cases k with
    | set => rfl
    | list d => exact absurd rfl (kept d rfl)
    | boolean | integer | string | map => cases hc
  | record name fields =>
    cases k with
    | boolean | integer | string | set | list => cases hc
    | map =>
      have entries : fields.encode c = [("k", .string "v")] := Value.table.inj hc
      have found : fields.get? "k" c = some (.string "v") := by
        rw [← Fields.lookup_encode hr, entries]
        rfl
      cases hk : fields.find? "k" with
      | none =>
        have absent : "k" ∉ fields.names := by
          intro hm
          simpa [hk] using Fields.find?_isSome_of_mem hm
        simp [Fields.get?_eq_none absent] at found
      | some p => exact absurd rfl (Fields.plain_of_find? hp hk).1.2.2

theorem Kind.eq_map_of_sample {k : Kind} {s : Shape} (ht : s.isTable) (h : s.Fits k.sample.toValue) :
    k = .map := by
  obtain ⟨_, sample, _⟩ := h.table ht
  cases k with
  | map => rfl
  | boolean | integer | string | set | list => cases sample

/-- What the check of a leaf does not see: whether a number is within the field, and that a set does
not keep a list. -/
def Leaf.Within (l : Leaf) : Shape → Prop
  | .integer u =>
    (∀ w, l.kind = .integer w → w.bits ≤ u.bits) ∧ ∀ n, l.onNull = .reset (.integer n) → u.Holds n
  | .stringSet => ∀ d, l.kind ≠ .list d
  | _ => True

def Leaf.NullFits (l : Leaf) (p : Place) : Prop :=
  match l.onNull with
  | .reset v => l.kind.accepts v = true
  | .unset => p.optional = true

theorem Leaf.suits_of_within {l : Leaf} {p : Place} (hr : p.shape.regular) (hp : p.shape.plain)
    (h : p.shape.Fits l.kind.sample.toValue) (hn : l.NullFits p) (hw : l.Within p.shape) : l.Suits p := by
  have suits : l.kind.suits p.shape := by
    refine Kind.suits_of_sample hr hp h (fun w u hk hs => ?_) fun d hk hs => ?_
    · rw [hs] at hw
      exact hw.1 w hk
    · rw [hs] at hw
      exact hw d hk
  refine Leaf.suits_of_suits suits ?_
  unfold Leaf.NullFits at hn
  cases hl : l.onNull with
  | unset => simpa [hl, OnNull.suits] using hn
  | reset v =>
    rw [hl] at hn
    change p.shape.takes v
    obtain ⟨optional, shape⟩ := p
    cases hk : l.kind <;> cases v <;> cases shape <;>
      simp_all [Kind.suits, Kind.accepts, Shape.takes, Leaf.Within]

namespace Schema

theorem checkPresence_ok {above : String} {t : Table} {cs : List Section}
    (h : checkPresence above t cs = .ok ()) {c : Section} (hc : c ∈ cs) :
    ∃ v, Entries.lookup c.name t = some v := by
  induction cs with
  | nil => simp at hc
  | cons d cs ih =>
    simp only [checkPresence] at h
    split at h
    · rename_i v hv
      rcases List.mem_cons.1 hc with rfl | hc
      · exact ⟨v, hv⟩
      · exact ih h hc
    · cases h

theorem checkEntries_ok {s : Section} {above : String} {entries : List (String × Value)}
    (h : checkEntries s above entries = .ok ()) {key : String} {v : Value}
    (hm : (key, v) ∈ entries) : checkEntry s above key v = .ok () := by
  induction entries with
  | nil => simp at hm
  | cons e entries ih =>
    obtain ⟨k, w⟩ := e
    rw [checkEntries] at h
    obtain ⟨_, hfirst, hrest⟩ := ok_of_bind h
    rcases List.mem_cons.1 hm with eq | hm
    · cases eq
      exact hfirst
    · exact ih hrest hm

theorem checkEntry_ok {s c : Section} {above : String} {v : Value}
    (h : checkEntry s above c.name v = .ok ()) (hc : s.child? .exact c.name = some c) :
    ∃ sub, v = .table sub ∧ checkEntries c (Section.pathBelow above c.name) sub = .ok () ∧
      checkPresence (Section.pathBelow above c.name) sub c.children = .ok () := by
  have found : (s.children.find? fun d => decide (d.name = c.name)) = some c := hc
  cases v with
  | scalar | array => simp [checkEntry, found] at h
  | table sub =>
    simp only [checkEntry, found] at h
    obtain ⟨_, hentries, hpresence⟩ := ok_of_bind h
    exact ⟨sub, rfl, hentries, hpresence⟩

theorem checked_sections {s : Section} {above : String} {t : Table} {names : List String} {l : Leaf}
    (hentries : checkEntries s above t = .ok ()) (hpresence : checkPresence above t s.children = .ok ())
    (hr : s.Reaches names l) :
    names = [] ∨ ∃ sub, Table.lookupPath names t = some (.table sub) := by
  induction hr generalizing above t with
  | here => exact .inl rfl
  | @under s c names l hc _ ih =>
    right
    obtain ⟨v, hv⟩ := checkPresence_ok hpresence (List.mem_of_find?_eq_some hc)
    obtain ⟨sub, rfl, hsub, hsub'⟩ :=
      checkEntry_ok (checkEntries_ok hentries (Entries.mem_of_lookup hv)) hc
    rcases ih hsub hsub' with rfl | ⟨inner, hinner⟩
    · exact ⟨sub, hv⟩
    · refine ⟨inner, ?_⟩
      cases names with
      | nil => simp at hinner
      | cons next names =>
        rw [Table.lookupPath_cons (by simp), hv]
        exact hinner

structure Probed (shape : Shape) (t : Table) (target : Patch.Target) : Prop where
  sections : target.parents = [] ∨ ∃ sub, Table.lookupPath target.parents t = some (.table sub)
  dotFree : ∀ name ∈ target.parents, DotFree name
  place : ∃ p, shape.at? (pathOf target.path) = some p ∧
    p.shape.Fits target.leaf.kind.sample.toValue ∧ target.leaf.NullFits p

theorem Probed.keys {shape : Shape} {t : Table} {target : Patch.Target} (h : Probed shape t target) :
    pathOf target.path = target.parents ++ pathOf target.leaf.name := by
  by_cases hp : target.parents = []
  · simp [Patch.Target.path, hp]
  · rw [Patch.Target.path, pathOf_dotted_append hp, pathOf_dotted hp h.dotFree]

theorem Probed.keys_of_dotFree {shape : Shape} {t : Table} {target : Patch.Target}
    (h : Probed shape t target) (hd : DotFree target.leaf.name) :
    pathOf target.path = target.keys := by
  rw [h.keys, hd.pathOf, Patch.Target.keys]

variable {α : Type} [Shaped α] [Inhabited α]

theorem readBack?_eq_some_iff (hr : (Shaped.shape α).regular) {t : Table}
    (hfits : (Shaped.shape α).Fits (.table t)) {path : List String} (hpath : path ≠ []) {v : Value} :
    readBack? α path (Table.insertPath v path t) = some v ↔
      ∃ p, (Shaped.shape α).at? path = some p ∧ p.shape.Fits v := by
  constructor
  · intro kept
    simp only [readBack?] at kept
    split at kept
    · cases kept
    · split at kept
      · cases kept
      · rename_i config _ u hu
        exact (fits_toTable hu).lookupPath hr kept
  · rintro ⟨p, hp, fits⟩
    obtain ⟨c, hread, hwritten⟩ := exists_ofTable hr (hfits.insertPath hr hp fits)
    simp only [readBack?, hread, hwritten]
    exact Table.lookupPath_insertPath hpath v t

theorem isReadable_iff (hr : (Shaped.shape α).regular) (ht : (Shaped.shape α).isTable) {t : Table}
    (hfits : (Shaped.shape α).Fits (.table t)) {path : List String} {p : Place}
    (hp : (Shaped.shape α).at? path = some p) :
    isReadable α (Table.erasePath path t) = true ↔ p.optional = true := by
  constructor
  · intro readable
    cases hread : (ofTable (Table.erasePath path t) : Except Failure α) with
    | error e => simp [isReadable, hread] at readable
    | ok config =>
      obtain ⟨_, _, reads⟩ := ofTable_reads ht hread
      exact Shape.optional_of_erasePath hr hfits hp reads
  · intro optional
    obtain ⟨c, hread, _⟩ := exists_ofTable hr (hfits.erasePath hr hp optional)
    simp [isReadable, hread]

theorem checkLeaf_eq_ok_iff (hr : (Shaped.shape α).regular) (ht : (Shaped.shape α).isTable) {t : Table}
    (hfits : (Shaped.shape α).Fits (.table t)) {path : String} {leaf : Leaf} :
    checkLeaf α t path leaf = .ok () ↔
      ∃ p, (Shaped.shape α).at? (pathOf path) = some p ∧ p.shape.Fits leaf.kind.sample.toValue ∧
        leaf.NullFits p := by
  have sample := readBack?_eq_some_iff hr hfits (pathOf_ne_nil path) (v := leaf.kind.sample.toValue)
  constructor
  · intro h
    by_cases kept : readBack? α (pathOf path)
        (Table.insertPath leaf.kind.sample.toValue (pathOf path) t) = some leaf.kind.sample.toValue
    · obtain ⟨p, hp, fits⟩ := sample.1 kept
      refine ⟨p, hp, fits, ?_⟩
      rw [checkLeaf, if_neg (not_not_intro kept)] at h
      unfold Leaf.NullFits
      cases hn : leaf.onNull with
      | reset v => simpa [hn] using h
      | unset => simpa [hn, isReadable_iff hr ht hfits hp] using h
    · rw [checkLeaf, if_pos kept] at h
      cases h
  · rintro ⟨p, hp, fits, null⟩
    rw [checkLeaf, if_neg (not_not_intro (sample.2 ⟨p, hp, fits⟩))]
    unfold Leaf.NullFits at null
    cases hn : leaf.onNull with
    | reset v => simpa [hn] using null
    | unset => simpa [hn, isReadable_iff hr ht hfits hp] using null

theorem checkLeaf_of_describes {name : String} {fields : Fields}
    (hs : Shaped.shape α = .record name fields) (hr : (Shaped.shape α).regular) {t : Table}
    (hfits : (Shaped.shape α).Fits (.table t)) {schema : Schema} (h : schema.root.describes fields)
    {path : String} {leaf : Leaf} (hl : (path, leaf) ∈ schema.leaves)
    (hn : ∀ v, leaf.onNull = .reset v → leaf.kind.accepts v = true) :
    checkLeaf α t path leaf = .ok () := by
  obtain ⟨names, hc, _, keys⟩ := Patch.contains_of_mem_leaves h hl
  obtain ⟨p, hp, suits, null⟩ := hc.leaf? h
  refine (checkLeaf_eq_ok_iff hr (hs ▸ rfl) hfits).2 ⟨p, ?_, ?_, ?_⟩
  · rw [keys, hs]
    exact Fields.at?_of_leaf? hp name
  · exact Shape.fits_of_takes (Kind.takes_of_suits suits leaf.kind.holds_sample)
  · unfold Leaf.NullFits
    cases hl : leaf.onNull with
    | reset v => exact hn v hl
    | unset => simpa [hl, OnNull.suits] using null

theorem check_of_leaves {schema : Schema} {d : α} {t : Table} (hd : toTable d = .ok t)
    (htable : checkTable schema.root t = .ok ())
    (hleaves : ∀ path leaf, (path, leaf) ∈ schema.leaves → checkLeaf α t path leaf = .ok ()) :
    schema.check d = .ok () := by
  have leaves : (schema.leaves.forM fun e => checkLeaf α t e.1 e.2) = .ok () :=
    forM_eq_ok_iff.2 fun e he => hleaves e.1 e.2 he
  simp only [check, hd, htable, bind, Except.bind]
  exact congrArg (Except.mapError Failure.schemaMismatch) leaves

theorem check_ok (hr : (Shaped.shape α).regular) (hplain : (Shaped.shape α).plain)
    (ht : (Shaped.shape α).isTable) {schema : Schema} {d : α} (h : schema.check d = .ok ()) :
    ∃ t, toTable d = .ok t ∧
      ∀ target : Patch.Target, target.In schema → Probed (Shaped.shape α) t target := by
  obtain ⟨t, hd, h⟩ := ok_of_bind h
  refine ⟨t, hd, fun target hin => ?_⟩
  have fits := fits_toTable hd
  obtain ⟨_, htable, hleaves⟩ := ok_of_bind (ok_of_mapError h)
  obtain ⟨_, hentries, hpresence⟩ := ok_of_bind htable
  have sections := checked_sections hentries hpresence hin
  have names : ∀ name ∈ target.parents, DotFree name ∧ name ≠ "" := by
    rcases sections with none | ⟨sub, hsub⟩
    · simp [none]
    · obtain ⟨p, hp, hfits⟩ := fits.lookupPath hr hsub
      exact Shape.names_of_at? hplain hp (Shape.isTable_of_fits hfits)
  refine ⟨sections, fun name hn => (names name hn).1, ?_⟩
  have path : target.keys.foldl Section.pathBelow "" = target.path := by
    rw [Patch.Target.path, ← Patch.Target.keys]
    cases hk : target.keys with
    | nil => exact absurd hk target.keys_ne_nil
    | cons first rest =>
      refine Section.foldl_pathBelow_empty fun hrest => (names first ?_).2
      cases hp : target.parents with
      | nil => simp_all [Patch.Target.keys]
      | cons key parents => simp_all [Patch.Target.keys]
  have listed := hin.contains.mem_leavesBelow ""
  rw [← Patch.Target.keys, path] at listed
  have leaf := forM_eq_ok_iff.1 hleaves _ listed
  exact (checkLeaf_eq_ok_iff hr ht fits).1 leaf

end Schema

end DottedPatch
