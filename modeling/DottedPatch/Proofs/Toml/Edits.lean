import DottedPatch.Proofs.Toml.Members

namespace DottedPatch.Toml.Members

open Item

def below (name : String) (ms : Members) : Members := ((item? name ms).bind members?).getD []

theorem below_of_members? {name : String} {item : Item} {sub ms : Members}
    (h : item? name ms = some item) (hi : item.members? = some sub) : below name ms = sub := by
  simp [below, h, hi]

theorem below_of_not_table {name : String} {ms : Members}
    (h : (item? name ms).bind members? = none) : below name ms = [] := by
  simp [below, h]

theorem below_put (key : Key) {item : Item} {sub : Members} (hi : item.members? = some sub)
    (ms : Members) : below key.name (put key item ms) = sub := by
  rw [below, item?_put, if_pos rfl, Option.bind_some, hi]
  rfl

theorem below_put_of_ne {key : Key} {name : String} (h : key.name ≠ name) (item : Item)
    (ms : Members) : below name (put key item ms) = below name ms := by
  rw [below, item?_put, if_neg h]
  rfl

theorem store_here (value : Item) (inline : Bool) (name : String) (ms : Members) :
    ∃ item, store value inline [name] ms = put { name } item ms ∧
      (item = value ∨ ∃ d, item = value.withDecor d) := by
  rw [store]
  cases find? name ms with
  | none => exact ⟨value, rfl, .inl rfl⟩
  | some m =>
    refine ⟨replace m.2 value, rfl, ?_⟩
    rw [replace]
    cases m.2.decor? with
    | none => exact .inl rfl
    | some d => exact .inr ⟨d, rfl⟩

theorem store_singleton (value : Item) (inline : Bool) (name : String) (ms : Members) :
    ∃ item, store value inline [name] ms = put { name } item ms ∧
      item.members? = value.members? ∧ denoted? item = denoted? value := by
  obtain ⟨item, eq, rfl | ⟨d, rfl⟩⟩ := store_here value inline name ms
  · exact ⟨_, eq, rfl, rfl⟩
  · exact ⟨_, eq, members?_withDecor d value, denoted?_withDecor d value⟩

theorem store_cons (name : String) {rest : List String} (hrest : rest ≠ []) (value : Item)
    (inline : Bool) (ms : Members) :
    ∃ item inner, store value inline (name :: rest) ms = put { name } item ms ∧
      item.members? = some (store value inner rest (below name ms)) := by
  cases rest with
  | nil => exact absurd rfl hrest
  | cons next rest =>
    cases h : find? name ms with
    | none =>
      refine ⟨_, inline, by simp only [store, h]; rfl, ?_⟩
      rw [below_of_not_table (by simp [item?_eq_none_of_find? h])]
      cases inline <;> rfl
    | some m =>
      obtain ⟨key, item⟩ := m
      have found := item?_of_find? h
      cases item with
      | vacant | scalar | array | tables =>
        refine ⟨_, inline, by simp only [store, h]; rfl, ?_⟩
        rw [below_of_not_table (by simp [found, members?])]
        cases inline <;> rfl
      | inline =>
        refine ⟨_, true, by simp only [store, h]; rfl, ?_⟩
        rw [below_of_members? found rfl]
        rfl
      | table =>
        refine ⟨_, false, by simp only [store, h]; rfl, ?_⟩
        rw [below_of_members? found rfl]
        rfl

theorem remove_cons (name : String) {rest : List String} (hrest : rest ≠ []) (ms : Members) :
    (∃ sub item, (item? name ms).bind members? = some sub ∧
      remove (name :: rest) ms = put { name } item ms ∧ item.members? = some (remove rest sub)) ∨
    (item? name ms).bind members? = none ∧
      (remove (name :: rest) ms = ms ∨
        item? name ms = none ∧ remove (name :: rest) ms = put { name } .vacant ms) := by
  cases rest with
  | nil => exact absurd rfl hrest
  | cons next rest =>
    cases h : find? name ms with
    | none =>
      rw [item?_eq_none_of_find? h]
      exact .inr ⟨rfl, .inr ⟨rfl, by simp only [remove, h]⟩⟩
    | some m =>
      obtain ⟨key, item⟩ := m
      rw [item?_of_find? h, Option.bind_some]
      cases item with
      | vacant | scalar | array | tables => exact .inr ⟨rfl, .inl (by simp only [remove, h])⟩
      | inline | table => exact .inl ⟨_, _, rfl, by simp only [remove, h]; rfl, rfl⟩

def itemAt? : (path : List String) → Members → Option Item
  | [], _ => none
  | [name], ms => item? name ms
  | name :: rest, ms => itemAt? rest (below name ms)

theorem itemAt?_cons {name : String} {rest : List String} (h : rest ≠ []) (ms : Members) :
    itemAt? (name :: rest) ms = itemAt? rest (below name ms) := by
  cases rest with
  | nil => exact absurd rfl h
  | cons => rfl

theorem itemAt?_put_of_ne {key : Key} {name : String} (h : key.name ≠ name) (q : List String)
    (item : Item) (ms : Members) : itemAt? (name :: q) (put key item ms) = itemAt? (name :: q) ms := by
  by_cases hq : q = []
  · subst hq
    rw [itemAt?, itemAt?, item?_put, if_neg h]
  · rw [itemAt?_cons hq, itemAt?_cons hq, below_put_of_ne h]

theorem itemAt?_store {path : List String} (hp : path ≠ []) (value : Item) (inline : Bool)
    (ms : Members) :
    ∃ item, itemAt? path (store value inline path ms) = some item ∧
      denoted? item = denoted? value := by
  induction path generalizing inline ms with
  | nil => exact absurd rfl hp
  | cons name rest ih =>
    by_cases hrest : rest = []
    · subst hrest
      obtain ⟨item, eq, _, same⟩ := store_singleton value inline name ms
      refine ⟨item, ?_, same⟩
      rw [eq, itemAt?, item?_put, if_pos rfl]
    · obtain ⟨item, inner, eq, members⟩ := store_cons name hrest value inline ms
      rw [eq, itemAt?_cons hrest, below_put { name } members]
      exact ih hrest inner _

theorem exists_store (name : String) (rest : List String) (value : Item) (inline : Bool)
    (ms : Members) : ∃ item, store value inline (name :: rest) ms = put { name } item ms := by
  by_cases hrest : rest = []
  · subst hrest
    obtain ⟨item, eq, _⟩ := store_singleton value inline name ms
    exact ⟨item, eq⟩
  · obtain ⟨item, _, eq, _⟩ := store_cons name hrest value inline ms
    exact ⟨item, eq⟩

theorem itemAt?_store_of_apart {path q : List String} (h : Table.Apart path q) (value : Item)
    (inline : Bool) (ms : Members) :
    itemAt? q (store value inline path ms) = itemAt? q ms := by
  induction h using Table.Apart.induction generalizing inline ms with
  | @parted name other ne path q =>
    obtain ⟨item, eq⟩ := exists_store name path value inline ms
    rw [eq]
    exact itemAt?_put_of_ne ne q item ms
  | @shared name path q h ih =>
    have hq : q ≠ [] := h.symm.ne_nil
    obtain ⟨item, inner, eq, members⟩ := store_cons name h.ne_nil value inline ms
    rw [eq, itemAt?_cons hq, below_put { name } members, ih, itemAt?_cons hq]

theorem itemAt?_erase_of_ne {name other : String} (ne : name ≠ other) (q : List String)
    (ms : Members) : itemAt? (other :: q) (erase name ms) = itemAt? (other :: q) ms := by
  by_cases hq : q = []
  · subst hq
    rw [itemAt?, itemAt?, item?_erase_of_ne ne]
  · rw [itemAt?_cons hq, itemAt?_cons hq, below, item?_erase_of_ne ne]
    rfl

theorem itemAt?_remove_of_ne {name other : String} (ne : name ≠ other) (rest q : List String)
    (ms : Members) : itemAt? (other :: q) (remove (name :: rest) ms) = itemAt? (other :: q) ms := by
  by_cases hrest : rest = []
  · subst hrest
    rw [remove]
    exact itemAt?_erase_of_ne ne q ms
  · obtain ⟨_, item, _, eq, _⟩ | ⟨_, eq | ⟨_, eq⟩⟩ := remove_cons name hrest ms
    · rw [eq]
      exact itemAt?_put_of_ne ne q item ms
    · rw [eq]
    · rw [eq]
      exact itemAt?_put_of_ne ne q _ ms

theorem itemAt?_remove_of_apart {path q : List String} (h : Table.Apart path q) (ms : Members) :
    itemAt? q (remove path ms) = itemAt? q ms := by
  induction h using Table.Apart.induction generalizing ms with
  | parted ne path q => exact itemAt?_remove_of_ne ne path q ms
  | @shared name path q h ih =>
    have hq : q ≠ [] := h.symm.ne_nil
    rw [itemAt?_cons hq, itemAt?_cons hq]
    obtain ⟨sub, item, hsub, eq, members⟩ | ⟨hsub, eq | ⟨_, eq⟩⟩ := remove_cons name h.ne_nil ms
    · rw [eq, below_put { name } members, ih, below, hsub]
      rfl
    · rw [eq]
    · rw [below_of_not_table hsub, eq, below, item?_put, if_pos rfl]
      rfl

end DottedPatch.Toml.Members
