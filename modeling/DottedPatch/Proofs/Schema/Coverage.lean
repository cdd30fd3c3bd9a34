import DottedPatch.Proofs.Config.Leaves
import DottedPatch.Proofs.Schema.Check

/-! Schemas that declare a record pass the check on every configuration.

What the check sees is one table that was written, where fields that are missing leave no key. So
the two directions differ: every key that is there has to be declared, but of what is declared only
the sections have to be there. -/

namespace DottedPatch

open Config Toml

def Config.Fields.declaredIn : Fields → Section → Bool
  | .nil, _ => true
  | .required name (.record _ sub) rest, s | .optional name (.record _ sub) rest, s =>
    (s.child? .exact name).any sub.declaredIn && rest.declaredIn s
  | .required name _ rest, s | .optional name _ rest, s =>
    (s.child? .exact name).isNone && s.leaves.any (·.name = name) && rest.declaredIn s

theorem Config.Fields.declaredIn_of_find? {fields : Fields} {s : Section} (h : fields.declaredIn s)
    {key : String} {p : Place} (hp : fields.find? key = some p) :
    (p.shape.isRecord = false →
      s.child? .exact key = none ∧ s.leaves.any (·.name = key) = true) ∧
    ∀ name sub, p.shape = .record name sub →
      ∃ c, s.child? .exact key = some c ∧ sub.declaredIn c := by
  cases fields with
  | nil => cases hp
  | required field shape rest | optional field shape rest =>
    simp only [find?] at hp
    split at hp
    · rename_i eq
      subst eq
      obtain rfl := Option.some.inj hp
      cases shape with
      | record name sub =>
        simp only [declaredIn, Bool.and_eq_true, Option.any_eq_true] at h
        obtain ⟨⟨c, hc, within⟩, -⟩ := h
        constructor
        · intro leaf
          cases leaf
        · intro _ _ eq
          obtain ⟨-, rfl⟩ := Shape.record.inj eq
          exact ⟨c, hc, within⟩
      | boolean | integer | string | strings | stringSet | stringMap | choice =>
        simp only [declaredIn, Bool.and_eq_true, Option.isNone_iff_eq_none] at h
        obtain ⟨⟨absent, listed⟩, -⟩ := h
        refine ⟨fun _ => ⟨absent, listed⟩, fun _ _ eq => ?_⟩
        cases eq
    · refine declaredIn_of_find? ?_ hp
      cases shape <;> simp_all [declaredIn]

namespace Schema

theorem checkPresence_of_lookup {above : String} {t : Table} {cs : List Section}
    (h : ∀ c ∈ cs, ∃ v, Entries.lookup c.name t = some v) : checkPresence above t cs = .ok () := by
  induction cs with
  | nil => rfl
  | cons c cs ih =>
    obtain ⟨v, hv⟩ := h c List.mem_cons_self
    rw [checkPresence, hv]
    exact ih fun d hd => h d (List.mem_cons_of_mem _ hd)

theorem checkEntries_of_mem {s : Section} {above : String} {entries : List (String × Value)}
    (h : ∀ e ∈ entries, checkEntry s above e.1 e.2 = .ok ()) :
    checkEntries s above entries = .ok () := by
  induction entries with
  | nil => rw [checkEntries]
  | cons e entries ih =>
    rw [checkEntries, h e List.mem_cons_self]
    exact ih fun d hd => h d (List.mem_cons_of_mem _ hd)

theorem checkEntry_of_leaf {s : Section} {above key : String} (hc : s.child? .exact key = none)
    (hl : s.leaves.any (·.name = key) = true) (v : Value) : checkEntry s above key v = .ok () := by
  have absent : (s.children.find? fun c => decide (c.name = key)) = none := hc
  cases v <;> simp only [checkEntry, absent, checkLeafName, if_pos hl]

theorem checkEntry_of_section {s c : Section} {above key : String}
    (hc : s.child? .exact key = some c) {sub : Table}
    (hentries : checkEntries c (Section.pathBelow above key) sub = .ok ())
    (hpresence : checkPresence (Section.pathBelow above key) sub c.children = .ok ()) :
    checkEntry s above key (.table sub) = .ok () := by
  have found : (s.children.find? fun d => decide (d.name = key)) = some c := hc
  simp only [checkEntry, found, hentries, hpresence, bind, Except.bind]

theorem checkSection_of_fits {name : String} {fields : Fields}
    (hr : (Shape.record name fields).regular) {s : Section} (hs : s.describes fields)
    (hd : fields.declaredIn s) {t : Table} (ht : (Shape.record name fields).Fits (.table t))
    (above : String) :
    checkEntries s above t = .ok () ∧ checkPresence above t s.children = .ok () := by
  have ho : t.Ordered := ht.ordered
  induction ho using Table.Ordered.induction generalizing name fields s above with
  | table ho ih =>
    constructor
    · refine checkEntries_of_mem fun ⟨key, v⟩ he => ?_
      have hv := ho.sorted.lookup_eq_some_iff.2 he
      obtain ⟨⟨optional, shape⟩, hp, -⟩ := ht.place_of_lookup hr hv
      obtain ⟨leaf, under⟩ := Fields.declaredIn_of_find? hd hp
      cases shape with
      | record inner sub =>
        obtain ⟨c, hc, within⟩ := under inner sub rfl
        obtain rfl := Section.name_of_child? hc
        obtain ⟨u, hu, fits⟩ := ht.exists_section hr hp
        obtain rfl := Option.some.inj (hv.symm.trans hu)
        obtain ⟨-, -, _, _, _, hfind, describes⟩ :=
          Section.describes_child hs (List.mem_of_find?_eq_some hc)
        obtain ⟨-, rfl⟩ := Shape.record.inj (Place.mk.inj (Option.some.inj (hp.symm.trans hfind))).2
        obtain ⟨hentries, hpresence⟩ :=
          ih hv (Fields.regular_of_find? hr hp) describes within fits _
        exact checkEntry_of_section hc hentries hpresence
      | boolean | integer | string | strings | stringSet | stringMap | choice =>
        obtain ⟨absent, listed⟩ := leaf rfl
        exact checkEntry_of_leaf absent listed v
    · refine checkPresence_of_lookup fun c hc => ?_
      obtain ⟨-, -, _, _, _, hfind, -⟩ := Section.describes_child hs hc
      obtain ⟨u, hu, -⟩ := ht.exists_section hr hfind
      exact ⟨_, hu⟩

theorem check_of_describes {α : Type} [Shaped α] [Inhabited α] {name : String} {fields : Fields}
    (shape : Shaped.shape α = .record name fields) (hr : (Shaped.shape α).regular) {schema : Schema}
    (hs : schema.root.describes fields) (hd : fields.declaredIn schema.root)
    (hn : ∀ path leaf, (path, leaf) ∈ schema.leaves →
      ∀ v, leaf.onNull = .reset v → leaf.kind.accepts v = true) (c : α) :
    schema.check c = .ok () := by
  obtain ⟨t, ht⟩ := exists_toTable (shape ▸ rfl) c
  have fits := fits_toTable ht
  obtain ⟨hentries, hpresence⟩ := checkSection_of_fits (shape ▸ hr) hs hd (shape ▸ fits) ""
  have table : checkTable schema.root t = .ok () := by
    rw [checkTable, hentries]
    exact hpresence
  exact check_of_leaves ht table fun path leaf hl =>
    checkLeaf_of_describes shape hr fits hs hl (hn path leaf hl)

end Schema

end DottedPatch
