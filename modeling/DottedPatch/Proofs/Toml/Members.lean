import DottedPatch.Proofs.Toml.Tables
import DottedPatch.Toml.Denotation
import DottedPatch.Toml.Edit

namespace DottedPatch.Toml

namespace Item

def members? : Item → Option Members
  | .inline _ _ entries _ | .table _ entries => some entries
  | _ => none

@[simp] theorem members?_withDecor (d : Decor) (item : Item) :
    (item.withDecor d).members? = item.members? := by
  cases item <;> rfl

@[simp] theorem denoted?_withDecor (d : Decor) (item : Item) :
    denoted? (item.withDecor d) = denoted? item := by
  cases item <;> simp only [withDecor, denoted?]

theorem denoted?_of_members? {item : Item} {ms : Members} (h : item.members? = some ms)
    (hs : spelling? ms = none) : denoted? item = (denotedEntries? ms).map .table := by
  cases item with
  | vacant | scalar | array | tables => simp [members?] at h
  | inline | table =>
    obtain rfl := Option.some.inj h
    rw [denoted?, hs]

theorem exists_scalar_of_spelling? {item : Item} {ms : Members} (h : item.members? = some ms)
    {spelling : Item} (hs : spelling? ms = some spelling) {v : Value} (hv : denoted? item = some v) :
    ∃ s, v = .scalar s := by
  cases item with
  | vacant | scalar | array | tables => cases h
  | inline | table =>
    obtain rfl := Option.some.inj h
    rw [denoted?, hs] at hv
    obtain ⟨d, _, rfl⟩ := Option.map_eq_some_iff.1 hv
    exact ⟨_, rfl⟩

theorem table?_of_members?_eq_none {item : Item} (h : item.members? = none) {v : Value}
    (hv : denoted? item = some v) : v.table? = none := by
  cases item with
  | vacant => simp [denoted?] at hv
  | scalar =>
    obtain rfl := Option.some.inj hv
    rfl
  | array | tables =>
    rw [denoted?] at hv
    obtain ⟨_, _, rfl⟩ := Option.map_eq_some_iff.1 hv
    rfl
  | inline | table => simp [members?] at h

theorem denotedEntries?_cons {key : Key} {item : Item} (h : item ≠ .vacant) (ms : Members) :
    denotedEntries? ((key, item) :: ms) =
      (denoted? item).bind fun v => (denotedEntries? ms).map (Entries.insert key.name v) := by
  have unfolded : denotedEntries? ((key, item) :: ms) = do
      return Entries.insert key.name (← denoted? item) (← denotedEntries? ms) := by
    cases item with
    | vacant => exact absurd rfl h
    | scalar | array | inline | table | tables => rw [denotedEntries?]; intro eq; cases eq
  rw [unfolded]
  cases denoted? item with
  | none => rfl
  | some v => cases denotedEntries? ms <;> rfl

mutual

theorem ordered_of_denoted? : (item : Item) → {v : Value} → denoted? item = some v → v.Ordered
  | .vacant, _, h => by simp [denoted?] at h
  | .scalar s _ _, _, h => by
    obtain rfl := Option.some.inj h
    exact .scalar s
  | .array items _ _ _, _, h => by
    rw [denoted?] at h
    obtain ⟨vs, hvs, rfl⟩ := Option.map_eq_some_iff.1 h
    exact .array (ordered_of_denotedItems? items hvs)
  | .inline _ _ entries _, _, h | .table _ entries, _, h => by
    rw [denoted?] at h
    split at h
    · obtain ⟨d, _, rfl⟩ := Option.map_eq_some_iff.1 h
      exact .scalar _
    · obtain ⟨t, ht, rfl⟩ := Option.map_eq_some_iff.1 h
      exact ordered_of_denotedEntries? entries ht
  | .tables elements, _, h => by
    rw [denoted?] at h
    obtain ⟨vs, hvs, rfl⟩ := Option.map_eq_some_iff.1 h
    exact .array (ordered_of_denotedElements? elements hvs)

theorem ordered_of_denotedItems? : (items : List Item) → {vs : List Value} →
    denotedItems? items = some vs → ∀ v ∈ vs, v.Ordered
  | [], _, h => by
    obtain rfl := Option.some.inj h
    simp
  | item :: items, _, h => by
    simp only [denotedItems?, Option.bind_eq_bind, Option.bind_eq_some_iff, Option.pure_def] at h
    obtain ⟨v, hv, vs, hvs, eq⟩ := h
    obtain rfl := Option.some.inj eq
    intro w hw
    rcases List.mem_cons.1 hw with rfl | hw
    · exact ordered_of_denoted? item hv
    · exact ordered_of_denotedItems? items hvs w hw

theorem ordered_of_denotedEntries? : (ms : List (Key × Item)) → {t : List (String × Value)} →
    denotedEntries? ms = some t → Table.Ordered t
  | [], _, h => by
    obtain rfl := Option.some.inj h
    exact .empty
  | (key, item) :: ms, t, h => by
    by_cases hv : item = .vacant
    · subst hv
      exact ordered_of_denotedEntries? ms (by simpa only [denotedEntries?] using h)
    · rw [denotedEntries?_cons hv, Option.bind_eq_some_iff] at h
      obtain ⟨v, hv, h⟩ := h
      obtain ⟨t, ht, rfl⟩ := Option.map_eq_some_iff.1 h
      exact (ordered_of_denotedEntries? ms ht).insert (ordered_of_denoted? item hv)

theorem ordered_of_denotedElements? : (elements : List (Head × List (Key × Item))) →
    {vs : List Value} → denotedElements? elements = some vs → ∀ v ∈ vs, v.Ordered
  | [], _, h => by
    obtain rfl := Option.some.inj h
    simp
  | (head, entries) :: elements, _, h => by
    -- An element denotes what a table with the same members does.
    have element : denotedElements? ((head, entries) :: elements) =
        (denoted? (.table head entries)).bind fun v => (denotedElements? elements).map (v :: ·) := by
      simp only [denotedElements?, denoted?]
      cases spelling? entries with
      | none => cases denotedEntries? entries <;> cases denotedElements? elements <;> rfl
      | some item => cases item.datetime? <;> cases denotedElements? elements <;> rfl
    rw [element, Option.bind_eq_some_iff] at h
    obtain ⟨v, hv, h⟩ := h
    obtain ⟨vs, hvs, rfl⟩ := Option.map_eq_some_iff.1 h
    intro w hw
    rcases List.mem_cons.1 hw with rfl | hw
    · rw [denoted?] at hv
      split at hv
      · obtain ⟨d, _, rfl⟩ := Option.map_eq_some_iff.1 hv
        exact .scalar _
      · obtain ⟨t, ht, rfl⟩ := Option.map_eq_some_iff.1 hv
        exact ordered_of_denotedEntries? entries ht
    · exact ordered_of_denotedElements? elements hvs w hw

end

end Item

namespace Members

open Item

def names (ms : Members) : List String := ms.map fun m => m.1.name

def item? (name : String) (ms : Members) : Option Item := (find? name ms).map Prod.snd

theorem item?_of_find? {name : String} {key : Key} {item : Item} {ms : Members}
    (h : find? name ms = some (key, item)) : item? name ms = some item := by
  rw [item?, h]
  rfl

theorem item?_eq_none_of_find? {name : String} {ms : Members} (h : find? name ms = none) :
    item? name ms = none := by
  rw [item?, h]
  rfl

theorem split_of_find? {key k : Key} {i : Item} {ms : Members}
    (h : find? key.name ms = some (k, i)) :
    ∃ before after, ms = before ++ (k, i) :: after ∧ k.name = key.name ∧
      (∀ item, put key item ms = before ++ (k, item) :: after) ∧
      erase key.name ms = before ++ after := by
  induction ms with
  | nil => cases h
  | cons m ms ih =>
    obtain ⟨k', i'⟩ := m
    rw [find?] at h
    split at h
    · rename_i eq
      obtain ⟨rfl, rfl⟩ := Prod.mk.inj (Option.some.inj h)
      exact ⟨[], ms, rfl, eq, fun item => by simp [put, eq], by simp [erase, eq]⟩
    · rename_i ne
      obtain ⟨before, after, rfl, name, hput, herase⟩ := ih h
      exact ⟨(k', i') :: before, after, rfl, name,
        fun item => by simp [put, ne, hput], by simp [erase, ne, herase]⟩

@[simp] theorem item?_nil (name : String) : item? name [] = none := rfl

theorem item?_cons (name : String) (key : Key) (item : Item) (ms : Members) :
    item? name ((key, item) :: ms) = if key.name = name then some item else item? name ms := by
  simp only [item?, find?]
  split <;> rfl

theorem item?_eq_none_iff {name : String} {ms : Members} : item? name ms = none ↔ name ∉ ms.names := by
  induction ms with
  | nil => simp [names]
  | cons m ms ih =>
    obtain ⟨key, item⟩ := m
    rw [item?_cons]
    split
    · rename_i eq
      simp [names, eq]
    · rename_i ne
      rw [ih]
      simp [names, Ne.symm ne]

theorem mem_of_item? {name : String} {item : Item} {ms : Members} (h : item? name ms = some item) :
    ∃ key, (key, item) ∈ ms ∧ key.name = name := by
  induction ms with
  | nil => simp at h
  | cons m ms ih =>
    obtain ⟨k, i⟩ := m
    rw [item?_cons] at h
    split at h
    · rename_i eq
      obtain rfl := Option.some.inj h
      exact ⟨k, List.mem_cons_self, eq⟩
    · obtain ⟨key, hm, hk⟩ := ih h
      exact ⟨key, List.mem_cons_of_mem _ hm, hk⟩

theorem item?_put (key : Key) (item : Item) (name : String) (ms : Members) :
    item? name (put key item ms) = if key.name = name then some item else item? name ms := by
  induction ms with
  | nil => rw [put, item?_cons]
  | cons m ms ih =>
    obtain ⟨k, i⟩ := m
    simp only [put]
    split
    · rename_i eq
      simp only [item?_cons, eq]
      split <;> rfl
    · rename_i ne
      simp only [item?_cons, ih]
      split
      · rename_i eq
        rw [if_neg fun h => ne (eq.trans h.symm)]
      · rfl

theorem item?_erase_of_ne {name other : String} (h : name ≠ other) (ms : Members) :
    item? other (erase name ms) = item? other ms := by
  induction ms with
  | nil => rfl
  | cons m ms ih =>
    obtain ⟨k, i⟩ := m
    simp only [erase]
    split
    · rename_i eq
      rw [item?_cons, if_neg fun e => h (eq.symm.trans e)]
    · simp only [item?_cons, ih]

theorem mem_put {key : Key} {item : Item} {ms : Members} {m : Key × Item}
    (h : m ∈ put key item ms) : m.1.name = key.name ∧ m.2 = item ∨ m ∈ ms := by
  induction ms with
  | nil =>
    obtain rfl := List.mem_singleton.1 h
    exact .inl ⟨rfl, rfl⟩
  | cons e ms ih =>
    obtain ⟨k, i⟩ := e
    simp only [put] at h
    split at h
    · rename_i eq
      rcases List.mem_cons.1 h with rfl | h
      · exact .inl ⟨eq, rfl⟩
      · exact .inr (List.mem_cons_of_mem _ h)
    · rcases List.mem_cons.1 h with rfl | h
      · exact .inr List.mem_cons_self
      · exact (ih h).imp_right (List.mem_cons_of_mem _)

theorem erase_sublist (name : String) (ms : Members) : (erase name ms).Sublist ms := by
  induction ms with
  | nil => exact .slnil
  | cons m ms ih =>
    obtain ⟨k, i⟩ := m
    simp only [erase]
    split
    · exact List.sublist_cons_self _ _
    · exact ih.cons_cons _

theorem nodup_put {key : Key} {item : Item} {ms : Members} (h : ms.names.Nodup) :
    (put key item ms).names.Nodup := by
  induction ms with
  | nil => simp [put, names]
  | cons m ms ih =>
    obtain ⟨k, i⟩ := m
    simp only [put]
    split
    · exact h
    · rename_i ne
      simp only [names, List.map_cons, List.nodup_cons] at h ⊢
      refine ⟨fun hm => ?_, ih h.2⟩
      obtain ⟨m, hm, eq⟩ := List.mem_map.1 hm
      rcases mem_put hm with ⟨hk, _⟩ | hm
      · exact ne (eq.symm.trans hk)
      · exact h.1 (eq ▸ List.mem_map_of_mem hm)

theorem nodup_erase {name : String} {ms : Members} (h : ms.names.Nodup) :
    (erase name ms).names.Nodup :=
  h.sublist ((erase_sublist name ms).map _)

theorem item?_erase_self {name : String} {ms : Members} (h : ms.names.Nodup) :
    item? name (erase name ms) = none := by
  induction ms with
  | nil => rfl
  | cons m ms ih =>
    obtain ⟨k, i⟩ := m
    simp only [names, List.map_cons, List.nodup_cons] at h
    simp only [erase]
    split
    · rename_i eq
      exact item?_eq_none_iff.2 (eq ▸ h.1)
    · rename_i ne
      rw [item?_cons, if_neg ne]
      exact ih h.2

theorem denotedEntries?_eq_some_iff {ms : Members} (h : ms.names.Nodup) {t : Table} :
    denotedEntries? ms = some t ↔ Entries.Sorted t ∧
      (∀ m ∈ ms, m.2 = .vacant ∨ (denoted? m.2).isSome) ∧
      ∀ name, Entries.lookup name t = (item? name ms).bind denoted? := by
  induction ms generalizing t with
  | nil =>
    simp only [denotedEntries?, Option.some.injEq, item?_nil, Option.bind_none]
    constructor
    · rintro rfl
      exact ⟨.nil, by simp, fun _ => rfl⟩
    · rintro ⟨sorted, _, hlookup⟩
      exact (sorted.ext .nil hlookup).symm
  | cons m ms ih =>
    obtain ⟨key, item⟩ := m
    simp only [names, List.map_cons, List.nodup_cons] at h
    have fresh : item? key.name ms = none := item?_eq_none_iff.2 h.1
    simp only [List.mem_cons, forall_eq_or_imp, item?_cons]
    by_cases hv : item = .vacant
    · subst hv
      rw [show denotedEntries? ((key, .vacant) :: ms) = denotedEntries? ms by
        simp only [denotedEntries?], ih h.2]
      refine and_congr_right fun _ => and_congr (by simp) (forall_congr' fun name => ?_)
      split
      · rename_i eq
        rw [← eq, fresh]
        simp [denoted?]
      · rfl
    · rw [denotedEntries?_cons hv]
      constructor
      · intro ht
        obtain ⟨v, hitem, ht⟩ := Option.bind_eq_some_iff.1 ht
        obtain ⟨u, hu, rfl⟩ := Option.map_eq_some_iff.1 ht
        obtain ⟨sorted, denoted, hlookup⟩ := (ih h.2).1 hu
        refine ⟨sorted.insert, ⟨.inr (by simp [hitem]), denoted⟩, fun name => ?_⟩
        rw [Entries.lookup_insert]
        split
        · exact hitem.symm
        · exact hlookup name
      · rintro ⟨sorted, ⟨denoted, rest⟩, hlookup⟩
        obtain ⟨v, hitem⟩ := Option.isSome_iff_exists.1 (denoted.resolve_left hv)
        have hu : denotedEntries? ms = some (Entries.erase key.name t) := by
          refine (ih h.2).2 ⟨sorted.erase, rest, fun name => ?_⟩
          rw [Entries.lookup_erase]
          split
          · rename_i eq
            rw [← eq, fresh]
            rfl
          · rename_i ne
            rw [hlookup, if_neg ne]
        have here : Entries.lookup key.name t = some v := by
          rw [hlookup, if_pos rfl]
          exact hitem
        rw [hitem, hu, Option.bind_some, Option.map_some, sorted.insert_erase here]

section

variable {ms : Members} (hd : ms.names.Nodup) {t : Table} (ht : denotedEntries? ms = some t)

include hd ht

theorem lookup_of_denotedEntries? (name : String) :
    Entries.lookup name t = (item? name ms).bind denoted? :=
  ((denotedEntries?_eq_some_iff hd).1 ht).2.2 name

theorem denotedEntries?_put (key : Key) {item : Item} {v : Value} (hv : denoted? item = some v) :
    denotedEntries? (put key item ms) = some (Entries.insert key.name v t) := by
  obtain ⟨sorted, denoted, hlookup⟩ := (denotedEntries?_eq_some_iff hd).1 ht
  refine (denotedEntries?_eq_some_iff (nodup_put hd)).2 ⟨sorted.insert, fun m hm => ?_, fun name => ?_⟩
  · rcases mem_put hm with ⟨_, eq⟩ | hm
    · exact .inr (by simp [eq, hv])
    · exact denoted m hm
  · rw [Entries.lookup_insert, item?_put, hlookup]
    split
    · exact hv.symm
    · rfl

theorem denotedEntries?_erase (name : String) :
    denotedEntries? (erase name ms) = some (Entries.erase name t) := by
  obtain ⟨sorted, denoted, hlookup⟩ := (denotedEntries?_eq_some_iff hd).1 ht
  refine (denotedEntries?_eq_some_iff (nodup_erase hd)).2
    ⟨sorted.erase, fun m hm => denoted m ((erase_sublist name ms).subset hm), fun other => ?_⟩
  rw [Entries.lookup_erase, hlookup]
  split
  · rename_i eq
    rw [← eq, item?_erase_self hd]
    rfl
  · rename_i ne
    rw [item?_erase_of_ne ne]

theorem denotedEntries?_put_vacant {key : Key} (hk : item? key.name ms = none) :
    denotedEntries? (put key .vacant ms) = some t := by
  obtain ⟨sorted, denoted, hlookup⟩ := (denotedEntries?_eq_some_iff hd).1 ht
  refine (denotedEntries?_eq_some_iff (nodup_put hd)).2 ⟨sorted, fun m hm => ?_, fun name => ?_⟩
  · rcases mem_put hm with ⟨_, eq⟩ | hm
    · exact .inl eq
    · exact denoted m hm
  · rw [item?_put, hlookup]
    split
    · rename_i eq
      rw [← eq, hk]
      simp [denoted?]
    · rfl

end

end Members

end DottedPatch.Toml
