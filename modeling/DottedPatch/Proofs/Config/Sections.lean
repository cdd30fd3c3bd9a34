import DottedPatch.Proofs.Config.Bases
import DottedPatch.Proofs.Toml.Edits
import DottedPatch.Proofs.Toml.Reading

namespace DottedPatch.Config

open Toml

mutual

def Shape.undated : Shape → Bool
  | .record _ fields => fields.undated
  | _ => true

def Fields.undated : Fields → Bool
  | .nil => true
  | .required name shape rest | .optional name shape rest =>
    decide (name ≠ datetimeKey) && shape.undated && rest.undated

end

namespace Fields

theorem undated_of_find? {fields : Fields} (h : fields.undated) {key : String} {p : Place}
    (hp : fields.find? key = some p) : key ≠ datetimeKey ∧ p.shape.undated := by
  cases fields with
  | nil => simp [find?] at hp
  | required name shape rest | optional name shape rest =>
    simp only [undated, Bool.and_eq_true, decide_eq_true_eq] at h
    simp only [find?] at hp
    split at hp
    · rename_i eq
      obtain rfl := Option.some.inj hp
      exact ⟨eq ▸ h.1.1, h.1.2⟩
    · exact undated_of_find? h.2 hp

/-- In the members of a record, and of the records in it, names are different and no member spells a
datetime. -/
inductive Settles : Fields → Members → Prop
  | mk {fields : Fields} {ms : Members} : ms.names.Nodup → datetimeKey ∉ ms.names →
      (∀ name item sub optional record inner, Members.item? name ms = some item →
        item.members? = some sub → fields.find? name = some ⟨optional, .record record inner⟩ →
        Settles inner sub) → Settles fields ms

namespace Settles

variable {fields : Fields} {ms : Members}

theorem nodup : fields.Settles ms → ms.names.Nodup
  | .mk nodup _ _ => nodup

theorem spelling? : fields.Settles ms → Item.spelling? ms = none
  | .mk _ undated _ => by
    cases ms with
    | nil => rfl
    | cons m ms =>
      have ne : m.1.name ≠ datetimeKey := fun eq => undated (eq ▸ List.mem_cons_self)
      simp [Item.spelling?, ne]

theorem sub (h : fields.Settles ms) {name : String} {sub : Members} {optional : Bool}
    {record : String} {inner : Fields} (hs : (Members.item? name ms).bind Item.members? = some sub)
    (hp : fields.find? name = some ⟨optional, .record record inner⟩) : inner.Settles sub := by
  obtain ⟨item, hitem, hmembers⟩ := Option.bind_eq_some_iff.1 hs
  cases h with
  | mk _ _ sections => exact sections _ _ _ _ _ _ hitem hmembers hp

theorem nil : fields.Settles [] := .mk List.nodup_nil (by simp [Members.names]) (by simp)

theorem under (h : fields.Settles ms) {name : String} {optional : Bool} {record : String}
    {inner : Fields} (hp : fields.find? name = some ⟨optional, .record record inner⟩) :
    inner.Settles (Members.below name ms) := by
  rw [Members.below]
  cases hs : (Members.item? name ms).bind Item.members? with
  | none => exact nil
  | some sub => exact h.sub hs hp

theorem put (h : fields.Settles ms) {key : Key} (hk : key.name ≠ datetimeKey) {item : Item}
    (hi : ∀ sub optional record inner, item.members? = some sub →
      fields.find? key.name = some ⟨optional, .record record inner⟩ → inner.Settles sub) :
    fields.Settles (Members.put key item ms) := by
  cases h with
  | mk nodup undated sections =>
    refine .mk (Members.nodup_put nodup) (fun hm => ?_) fun name i sub o record inner hitem => ?_
    · obtain ⟨m, hm, eq⟩ := List.mem_map.1 hm
      rcases Members.mem_put hm with ⟨hname, _⟩ | hm
      · exact hk (hname.symm.trans eq)
      · exact undated (eq ▸ List.mem_map_of_mem hm)
    · rw [Members.item?_put] at hitem
      split at hitem
      · rename_i eq
        obtain rfl := Option.some.inj hitem
        exact eq ▸ hi sub o record inner
      · exact sections name i sub o record inner hitem

theorem erase (h : fields.Settles ms) (name : String) : fields.Settles (Members.erase name ms) := by
  cases h with
  | mk nodup undated sections =>
    refine .mk (Members.nodup_erase nodup) (fun hm => ?_) fun other i sub o record inner hitem => ?_
    · exact undated (((Members.erase_sublist name ms).map _).subset hm)
    · by_cases eq : name = other
      · rw [← eq, Members.item?_erase_self nodup] at hitem
        cases hitem
      · rw [Members.item?_erase_of_ne eq] at hitem
        exact sections other i sub o record inner hitem

theorem store (h : fields.Settles ms) (hu : fields.undated) {path : List String} {p : Place}
    (hp : fields.leaf? path = some p) (hrecord : p.shape.isRecord = false) (value : Item)
    (inline : Bool) : fields.Settles (Members.store value inline path ms) := by
  induction path generalizing fields inline ms with
  | nil => simp [leaf?] at hp
  | cons name rest ih =>
    by_cases hrest : rest = []
    · subst hrest
      obtain ⟨item, eq, _⟩ := Members.store_singleton value inline name ms
      have hf : fields.find? name = some p := hp
      rw [eq]
      refine h.put (undated_of_find? hu hf).1 fun _ _ _ _ _ hinner => ?_
      obtain rfl := Option.some.inj (hf.symm.trans hinner)
      cases hrecord
    · obtain ⟨_, _, _, hf, hp⟩ := (leaf?_cons hrest).1 hp
      obtain ⟨item, inner, eq, members⟩ := Members.store_cons name hrest value inline ms
      rw [eq]
      refine h.put (undated_of_find? hu hf).1 fun sub _ _ _ hsub hinner => ?_
      obtain rfl := Option.some.inj (members.symm.trans hsub)
      obtain ⟨_, rfl⟩ := Shape.record.inj (Place.mk.inj (Option.some.inj (hf.symm.trans hinner))).2
      exact ih (h.under hf) (undated_of_find? hu hf).2 hp inner

theorem remove (h : fields.Settles ms) (hu : fields.undated) {path : List String} {p : Place}
    (hp : fields.leaf? path = some p) : fields.Settles (Members.remove path ms) := by
  induction path generalizing fields ms with
  | nil => exact h
  | cons name rest ih =>
    by_cases hrest : rest = []
    · subst hrest
      exact h.erase name
    · obtain ⟨_, _, _, hf, hp⟩ := (leaf?_cons hrest).1 hp
      obtain ⟨sub, item, hsub, eq, members⟩ | ⟨_, eq | ⟨_, eq⟩⟩ := Members.remove_cons name hrest ms
      · rw [eq]
        refine h.put (undated_of_find? hu hf).1 fun sub' _ _ _ hm hinner => ?_
        obtain rfl := Option.some.inj (members.symm.trans hm)
        obtain ⟨_, rfl⟩ := Shape.record.inj (Place.mk.inj (Option.some.inj (hf.symm.trans hinner))).2
        exact ih (h.sub hsub hf) (undated_of_find? hu hf).2 hp
      · rwa [eq]
      · rw [eq]
        exact h.put (undated_of_find? hu hf).1 fun _ _ _ _ hm => by cases hm

section

variable (h : fields.Settles ms) {t : Table} (ht : Item.denotedEntries? ms = some t)

include h ht

theorem lookup_bind_table? {name : String} {optional : Bool} {record : String} {inner : Fields}
    (hp : fields.find? name = some ⟨optional, .record record inner⟩) :
    match (Members.item? name ms).bind Item.members? with
    | some sub => ∃ u, (Entries.lookup name t).bind Value.table? = some u ∧
        Item.denotedEntries? sub = some u
    | none => (Entries.lookup name t).bind Value.table? = none := by
  obtain ⟨_, denoted, hlookup⟩ := (Members.denotedEntries?_eq_some_iff h.nodup).1 ht
  rw [hlookup]
  cases hitem : Members.item? name ms with
  | none => rfl
  | some item =>
    simp only [Option.bind_some]
    cases hmembers : item.members? with
    | none =>
      cases hv : Item.denoted? item with
      | none => rfl
      | some v => exact Item.table?_of_members?_eq_none hmembers hv
    | some sub =>
      have settles : inner.Settles sub := h.sub (by rw [hitem]; exact hmembers) hp
      have eq := Item.denoted?_of_members? hmembers settles.spelling?
      obtain ⟨key, hm, _⟩ := Members.mem_of_item? hitem
      rcases denoted _ hm with rfl | some
      · cases hmembers
      · rw [eq, Option.isSome_map] at some
        obtain ⟨u, hu⟩ := Option.isSome_iff_exists.1 some
        exact ⟨u, by rw [eq, hu]; rfl, hu⟩

theorem denotedEntries?_below {name : String} {optional : Bool} {record : String} {inner : Fields}
    (hp : fields.find? name = some ⟨optional, .record record inner⟩) :
    Item.denotedEntries? (Members.below name ms) = some (Table.below name t) := by
  have section_ := h.lookup_bind_table? ht hp
  cases hsub : (Members.item? name ms).bind Item.members? with
  | none =>
    rw [hsub] at section_
    rw [Members.below_of_not_table hsub, Table.below_of_not_table section_]
    rfl
  | some sub =>
    rw [hsub] at section_
    obtain ⟨u, hu, denoted⟩ := section_
    rw [Members.below, hsub, Table.below, hu]
    exact denoted

theorem lookupPath_eq {path : List String} {p : Place} (hp : fields.leaf? path = some p) :
    Table.lookupPath path t = (Members.itemAt? path ms).bind Item.denoted? := by
  induction path generalizing fields ms t with
  | nil => rfl
  | cons name rest ih =>
    by_cases hrest : rest = []
    · subst hrest
      exact Members.lookup_of_denotedEntries? h.nodup ht name
    · obtain ⟨_, _, _, hf, hp⟩ := (leaf?_cons hrest).1 hp
      rw [Table.lookupPath_cons_below hrest, Members.itemAt?_cons hrest]
      exact ih (h.under hf) (h.denotedEntries?_below ht hf) hp

theorem denotedEntries?_store (hu : fields.undated) {path : List String} {p : Place}
    (hp : fields.leaf? path = some p) (hrecord : p.shape.isRecord = false) {value : Item} {v : Value}
    (hv : Item.denoted? value = some v) (inline : Bool) :
    Item.denotedEntries? (Members.store value inline path ms) = some (Table.insertPath v path t) := by
  induction path generalizing fields inline ms t with
  | nil => simp [leaf?] at hp
  | cons name rest ih =>
    by_cases hrest : rest = []
    · subst hrest
      obtain ⟨item, eq, _, denoted⟩ := Members.store_singleton value inline name ms
      rw [eq]
      exact Members.denotedEntries?_put h.nodup ht { name } (denoted.trans hv)
    · obtain ⟨_, _, _, hf, hp⟩ := (leaf?_cons hrest).1 hp
      obtain ⟨item, inner, eq, members⟩ := Members.store_cons name hrest value inline ms
      have undated := (undated_of_find? hu hf).2
      have settles := (h.under hf).store undated hp hrecord value inner
      have stored := ih (h.under hf) (h.denotedEntries?_below ht hf) undated hp inner
      rw [eq, Table.insertPath_cons hrest]
      apply Members.denotedEntries?_put h.nodup ht { name }
      rw [Item.denoted?_of_members? members settles.spelling?, stored]
      rfl

theorem denotedEntries?_remove (hu : fields.undated) {path : List String} {p : Place}
    (hp : fields.leaf? path = some p) :
    Item.denotedEntries? (Members.remove path ms) = some (Table.erasePath path t) := by
  induction path generalizing fields ms t with
  | nil => exact ht
  | cons name rest ih =>
    by_cases hrest : rest = []
    · subst hrest
      exact Members.denotedEntries?_erase h.nodup ht name
    · obtain ⟨_, _, _, hf, hp⟩ := (leaf?_cons hrest).1 hp
      have section_ := h.lookup_bind_table? ht hf
      rw [Table.erasePath_cons hrest]
      obtain ⟨sub, item, hsub, eq, members⟩ | ⟨hsub, removed⟩ := Members.remove_cons name hrest ms
      · rw [hsub] at section_
        obtain ⟨u, hlookup, denoted⟩ := section_
        have undated := (undated_of_find? hu hf).2
        have settles := (h.sub hsub hf).remove undated hp
        simp only [hlookup]
        rw [eq]
        apply Members.denotedEntries?_put h.nodup ht { name }
        rw [Item.denoted?_of_members? members settles.spelling?, ih (h.sub hsub hf) denoted undated hp]
        rfl
      · rw [hsub] at section_
        simp only [section_]
        rcases removed with eq | ⟨absent, eq⟩
        · rwa [eq]
        · rw [eq]
          exact Members.denotedEntries?_put_vacant h.nodup ht absent

end

end Settles

end Fields

theorem Shape.not_accepts_scalar {name : String} {fields : Fields} {x : Scalar} :
    ¬(record name fields).Accepts (.scalar x) := by
  intro h
  cases h with
  | whole _ reads => exact not_reads_scalar rfl reads

theorem Fields.settles_of_accepts {name : String} {fields : Fields} {t : Table}
    (h : (Shape.record name fields).Accepts (.table t)) (hu : fields.undated) {ms : Members}
    (hm : ms.Tidy) (ht : Item.denotedEntries? ms = some t) : fields.Settles ms := by
  generalize hs : Shape.record name fields = s, hv : Value.table t = v at h
  induction h generalizing name fields ms t with
  | whole whole =>
    subst hs hv
    simp [Shape.isRecord, Value.table?] at whole
  | @table _ _ u _ declared entries ih =>
    obtain ⟨rfl, rfl⟩ := Shape.record.inj hs
    obtain rfl := Value.table.inj hv
    have hlookup {key : String} {item : Item} (hitem : Members.item? key ms = some item) :
        ∃ v, Item.denoted? item = some v ∧ Entries.lookup key t = some v :=
      hm.lookup_of_item? ht hitem
    refine .mk hm.1 (fun hmem => ?_) fun key item sub optional record inner hitem hsub hp => ?_
    · cases hitem : Members.item? datetimeKey ms with
      | none => exact Members.item?_eq_none_iff.1 hitem hmem
      | some item =>
        obtain ⟨v, _, hv⟩ := hlookup hitem
        obtain ⟨p, hp⟩ := Option.isSome_iff_exists.1 (declared _ v hv)
        exact (undated_of_find? hu hp).1 rfl
    · obtain ⟨v, hv, hkey⟩ := hlookup hitem
      obtain ⟨_, hmem, _⟩ := Members.mem_of_item? hitem
      have tidy := (hm.2 _ hmem).members hsub
      -- A table that spells a datetime is no record.
      cases hspelling : Item.spelling? sub with
      | some spelling =>
        obtain ⟨s, rfl⟩ := Item.exists_scalar_of_spelling? hsub hspelling hv
        exact absurd (entries key _ _ hkey hp) Shape.not_accepts_scalar
      | none =>
        rw [Item.denoted?_of_members? hsub hspelling] at hv
        obtain ⟨w, hw, rfl⟩ := Option.map_eq_some_iff.1 hv
        exact ih key _ _ hkey hp (undated_of_find? hu hp).2 tidy hw rfl rfl

end DottedPatch.Config
