import DottedPatch.Proofs.Toml.Edits
import DottedPatch.Proofs.Toml.PathEdits
import DottedPatch.Proofs.Toml.Reading

namespace DottedPatch.Toml

inductive Item.Distinct : Item → Prop
  | mk {item : Item} (names : ∀ ms, item.members? = some ms → ms.names.Nodup)
      (members : ∀ ms, item.members? = some ms → ∀ m ∈ ms, Distinct m.2) : Distinct item

def Members.Distinct (ms : Members) : Prop := ms.names.Nodup ∧ ∀ m ∈ ms, m.2.Distinct

namespace Item

theorem distinct_iff {item : Item} :
    item.Distinct ↔ ∀ ms, item.members? = some ms → ms.Distinct :=
  ⟨fun ⟨names, members⟩ ms h => ⟨names ms h, members ms h⟩,
    fun h => ⟨fun ms hm => (h ms hm).1, fun ms hm => (h ms hm).2⟩⟩

theorem Distinct.of_members? {item : Item} {ms : Members} (h : item.members? = some ms)
    (hms : ms.Distinct) : item.Distinct :=
  distinct_iff.2 fun _ eq => Option.some.inj (h.symm.trans eq) ▸ hms

theorem Distinct.of_no_members {item : Item} (h : item.members? = none) : item.Distinct :=
  distinct_iff.2 fun _ eq => nomatch h.symm.trans eq

theorem Tidy.distinct {item : Item} (h : item.Tidy) : item.Distinct := by
  induction h with
  | scalar | array | tables => exact .of_no_members rfl
  | inline nodup _ ih | table nodup _ ih => exact .of_members? rfl ⟨nodup, ih⟩

@[simp] theorem value?_withDecor (d : Decor) (item : Item) :
    value? (item.withDecor d) = value? item := by
  cases item <;> simp only [withDecor, value?]

theorem table?_value? (item : Item) : (value? item).bind Value.table? = item.members?.map data := by
  cases item <;> simp [value?, members?, Value.table?]

theorem value?_of_members? {item : Item} {ms : Members} (h : item.members? = some ms) :
    value? item = some (.table (data ms)) := by
  have tables := table?_value? item
  rw [h] at tables
  obtain ⟨v, hv, hvt⟩ := Option.bind_eq_some_iff.1 tables
  rw [hv, Value.table?_eq_some.1 hvt]

section

variable {es : List (String × Value)}

theorem names_ofEntries : Members.names (ofEntries es) = es.map Prod.fst := by
  induction es with
  | nil => rfl
  | cons e es ih => exact congrArg (e.1 :: ·) ih

theorem exists_of_mem_ofEntries {m : Key × Item} (h : m ∈ ofEntries es) :
    ∃ e ∈ es, m.2 = ofValue e.2 := by
  induction es with
  | nil => cases h
  | cons e es ih =>
    rcases List.mem_cons.1 h with rfl | h
    · exact ⟨e, List.mem_cons_self, rfl⟩
    · obtain ⟨e', he, eq⟩ := ih h
      exact ⟨e', List.mem_cons_of_mem _ he, eq⟩

theorem data_ofEntries (hs : Entries.Sorted es) (h : ∀ e ∈ es, value? (ofValue e.2) = some e.2) :
    data (ofEntries es) = es := by
  induction es with
  | nil => rfl
  | cons e es ih =>
    obtain ⟨key, v⟩ := e
    have here := h (key, v) List.mem_cons_self
    have rest := ih hs.tail fun e he => h e (List.mem_cons_of_mem _ he)
    simp only [ofEntries, data, here, rest]
    exact hs.insert_head

end

theorem values_ofItems {vs : List Value} (h : ∀ v ∈ vs, value? (ofValue v) = some v) :
    values (ofItems vs) = vs := by
  induction vs with
  | nil => rfl
  | cons v vs ih =>
    have here := h v List.mem_cons_self
    have rest := ih fun w hw => h w (List.mem_cons_of_mem _ hw)
    simp only [ofItems, values, here, rest, Option.toList_some, List.singleton_append]

theorem value?_ofValue {v : Value} (h : v.Ordered) : value? (ofValue v) = some v := by
  induction h with
  | scalar => rfl
  | array _ ih => rw [ofValue, value?, values_ofItems ih]
  | table sorted _ ih => rw [ofValue, value?, data_ofEntries sorted ih]

theorem distinct_ofValue {v : Value} (h : v.Ordered) : (ofValue v).Distinct := by
  induction h with
  | scalar | array => exact .of_no_members rfl
  | table sorted _ ih =>
    refine .of_members? rfl ⟨?_, fun m hm => ?_⟩
    · rw [names_ofEntries]
      refine List.pairwise_map.2 (List.Pairwise.imp ?_ (show List.Pairwise _ _ from sorted))
      intro a b lt eq
      exact String.lt_irrefl b.1 (eq ▸ lt)
    · obtain ⟨e, he, eq⟩ := exists_of_mem_ofEntries hm
      exact eq ▸ ih e he

end Item

namespace Members

open Item

theorem sorted_data (ms : Members) : Entries.Sorted (data ms) := by
  induction ms with
  | nil => exact .nil
  | cons m ms ih =>
    rw [data]
    cases value? m.2 with
    | none => exact ih
    | some v => exact ih.insert

theorem lookup_data {ms : Members} (h : ms.names.Nodup) (name : String) :
    Entries.lookup name (data ms) = (item? name ms).bind value? := by
  induction ms with
  | nil => rfl
  | cons m ms ih =>
    obtain ⟨key, item⟩ := m
    simp only [names, List.map_cons, List.nodup_cons] at h
    have rest := ih h.2
    rw [item?_cons, data]
    by_cases eq : key.name = name
    · subst eq
      have fresh : item? key.name ms = none := item?_eq_none_iff.2 h.1
      rw [if_pos rfl, Option.bind_some]
      cases value? item with
      | none => rw [rest, fresh, Option.bind_none]
      | some v => exact Entries.lookup_insert_self key.name v _
    · rw [if_neg eq]
      cases value? item with
      | none => exact rest
      | some v => exact (Entries.lookup_insert_of_ne eq v _).trans rest

section

variable {ms : Members} (h : ms.names.Nodup)

include h

theorem data_put (key : Key) (item : Item) :
    data (put key item ms) = Table.put key.name (value? item) (data ms) := by
  apply (sorted_data _).ext (Table.sorted_put (sorted_data ms))
  intro name
  rw [lookup_data (nodup_put h), item?_put, Table.lookup_put, lookup_data h]
  split <;> rfl

theorem data_erase (name : String) : data (erase name ms) = Entries.erase name (data ms) := by
  apply (sorted_data _).ext (sorted_data ms).erase
  intro other
  rw [lookup_data (nodup_erase h), Entries.lookup_erase, lookup_data h]
  split
  · rename_i eq
    rw [← eq, item?_erase_self h, Option.bind_none]
  · rename_i ne
    rw [item?_erase_of_ne ne]

theorem data_put_vacant {key : Key} (hk : item? key.name ms = none) :
    data (put key .vacant ms) = data ms := by
  apply (sorted_data _).ext (sorted_data ms)
  intro name
  rw [lookup_data (nodup_put h), item?_put, lookup_data h]
  split
  · rename_i eq
    rw [← eq, hk]
    rfl
  · rfl

theorem table?_lookup_data (name : String) :
    (Entries.lookup name (data ms)).bind Value.table? =
      ((item? name ms).bind members?).map data := by
  rw [lookup_data h]
  cases item? name ms with
  | none => rfl
  | some item => exact table?_value? item

theorem below_data (name : String) : Table.below name (data ms) = data (below name ms) := by
  rw [Table.below, table?_lookup_data h, below]
  cases (item? name ms).bind members? <;> rfl

end

namespace Distinct

variable {ms : Members}

theorem nil : Distinct [] := ⟨List.nodup_nil, by simp⟩

theorem put (h : ms.Distinct) {key : Key} {item : Item} (hi : item.Distinct) :
    Distinct (put key item ms) := by
  refine ⟨nodup_put h.1, fun m hm => ?_⟩
  rcases mem_put hm with ⟨_, eq⟩ | hm
  · exact eq ▸ hi
  · exact h.2 m hm

theorem erase (h : ms.Distinct) (name : String) : Distinct (erase name ms) :=
  ⟨nodup_erase h.1, fun m hm => h.2 m ((erase_sublist name ms).subset hm)⟩

theorem of_item? (h : ms.Distinct) {name : String} {item : Item} (hi : item? name ms = some item) :
    item.Distinct := by
  obtain ⟨key, hm, _⟩ := mem_of_item? hi
  exact h.2 _ hm

theorem of_members? (h : ms.Distinct) {name : String} {sub : Members}
    (hs : (item? name ms).bind members? = some sub) : sub.Distinct := by
  obtain ⟨item, hitem, hsub⟩ := Option.bind_eq_some_iff.1 hs
  exact distinct_iff.1 (h.of_item? hitem) sub hsub

theorem below (h : ms.Distinct) (name : String) : (below name ms).Distinct := by
  cases hs : (item? name ms).bind members? with
  | none =>
    rw [below_of_not_table hs]
    exact nil
  | some sub =>
    rw [Members.below, hs]
    exact h.of_members? hs

theorem store (h : ms.Distinct) {value : Item} (hv : value.Distinct) (inline : Bool)
    (path : List String) : (store value inline path ms).Distinct := by
  induction path generalizing inline ms with
  | nil => exact h
  | cons name rest ih =>
    by_cases hrest : rest = []
    · subst hrest
      obtain ⟨item, eq, members, _⟩ := store_singleton value inline name ms
      rw [eq]
      exact h.put (distinct_iff.2 fun sub hsub => distinct_iff.1 hv sub (members ▸ hsub))
    · obtain ⟨item, inner, eq, members⟩ := store_cons name hrest value inline ms
      rw [eq]
      exact h.put (.of_members? members (ih (h.below name) inner))

theorem remove (h : ms.Distinct) (path : List String) : (remove path ms).Distinct := by
  induction path generalizing ms with
  | nil => exact h
  | cons name rest ih =>
    by_cases hrest : rest = []
    · subst hrest
      exact h.erase name
    · obtain ⟨sub, item, hsub, eq, members⟩ | ⟨_, eq | ⟨_, eq⟩⟩ := remove_cons name hrest ms
      · rw [eq]
        exact h.put (.of_members? members (ih (h.of_members? hsub)))
      · rw [eq]
        exact h
      · rw [eq]
        exact h.put (.of_no_members rfl)

end Distinct

section

variable {ms : Members} (h : ms.Distinct)

include h

theorem data_store {value : Item} {v : Value} (hv : value? value = some v) (inline : Bool)
    (path : List String) : data (store value inline path ms) = Table.insertPath v path (data ms) := by
  induction path generalizing inline ms with
  | nil => rfl
  | cons name rest ih =>
    by_cases hrest : rest = []
    · subst hrest
      obtain ⟨item, eq, same⟩ := store_here value inline name ms
      have filled : value? item = some v := by
        rcases same with rfl | ⟨d, rfl⟩
        · exact hv
        · rw [value?_withDecor, hv]
      rw [eq, data_put h.1, filled]
      rfl
    · obtain ⟨item, inner, eq, members⟩ := store_cons name hrest value inline ms
      rw [eq, data_put h.1, value?_of_members? members, ih (h.below name),
        Table.insertPath_cons hrest, below_data h.1]
      rfl

theorem data_remove (path : List String) :
    data (remove path ms) = Table.erasePath path (data ms) := by
  induction path generalizing ms with
  | nil => rfl
  | cons name rest ih =>
    by_cases hrest : rest = []
    · subst hrest
      exact data_erase h.1 name
    · rw [Table.erasePath_cons hrest, table?_lookup_data h.1]
      obtain ⟨sub, item, hsub, eq, members⟩ | ⟨hsub, eq | ⟨absent, eq⟩⟩ := remove_cons name hrest ms
      · rw [hsub, eq, data_put h.1, value?_of_members? members, ih (h.of_members? hsub)]
        rfl
      · rw [hsub, eq]
        rfl
      · rw [hsub, eq, data_put_vacant h.1 absent]
        rfl

end

end Members

theorem Document.distinct_read? {text : String} {d : Document} (h : read? text = some d) :
    d.members.Distinct := by
  have tidy := tidy_read? h
  exact ⟨tidy.1, fun m hm => (tidy.2 m hm).distinct⟩

end DottedPatch.Toml
