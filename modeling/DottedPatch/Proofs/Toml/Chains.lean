import DottedPatch.Proofs.Toml.Reading
import DottedPatch.Proofs.Toml.Relaid

namespace DottedPatch.Toml

namespace Item

mutual

/-- No two dotted keys of an inline table go through one table. -/
def unshared : Item → Bool
  | .array items _ _ _ => itemsUnshared items
  | .inline _ dotted entries _ => (!dotted || entries.length ≤ 1) && entriesUnshared entries
  | .vacant | .scalar _ _ _ | .table _ _ | .tables _ => true

def itemsUnshared : List Item → Bool
  | [] => true
  | item :: items => unshared item && itemsUnshared items

def entriesUnshared : List (Key × Item) → Bool
  | [] => true
  | (_, item) :: entries => unshared item && entriesUnshared entries

end

inductive Bare : Item → Prop
  | scalar (v : Scalar) (written : Option String) : Bare (.scalar v written {})
  | array (items : List Item) (closing : String) (comma : Bool) : Bare (.array items closing comma {})
  | inline (opening : String) (entries : List (Key × Item)) : Bare (.inline opening false entries {})

inductive Whole : Item → Prop
  | scalar (v : Scalar) (written : Option String) (d : Decor) : Whole (.scalar v written d)
  | array (items : List Item) (closing : String) (comma : Bool) (d : Decor) :
      Whole (.array items closing comma d)
  | inline (opening : String) (entries : List (Key × Item)) (d : Decor) :
      Whole (.inline opening false entries d)

theorem Bare.whole {item : Item} (h : item.Bare) (d : Decor) : (item.withDecor d).Whole := by
  cases h <;> constructor

theorem Bare.text_withDecor {item : Item} (h : item.Bare) (before after : String) (m : Margin) :
    text (item.withDecor ⟨some before, some after⟩) m = before ++ text item .none ++ after := by
  cases h <;>
    simp [withDecor, text, scalarText, arrayText, inlineText, Decor.around, Margin.none]

theorem unshared_withDecor (item : Item) (d : Decor) :
    (item.withDecor d).unshared = item.unshared := by
  cases item <;> simp [withDecor, unshared]

theorem Whole.assigned {item : Item} (h : item.Whole) (path : List Key) :
    assigned path item = [(path, text item)] := by
  cases h <;> simp [Item.assigned, text]

end Item

namespace Item

theorem assignments_append (path : List Key) (es fs : List (Key × Item)) :
    assignments path (es ++ fs) = assignments path es ++ assignments path fs := by
  induction es with
  | nil => simp [assignments]
  | cons e es ih => simp [assignments, ih]

theorem entriesUnshared_append (es fs : List (Key × Item)) :
    entriesUnshared (es ++ fs) = (entriesUnshared es && entriesUnshared fs) := by
  induction es with
  | nil => simp [entriesUnshared]
  | cons e es ih => simp [entriesUnshared, ih, Bool.and_assoc]

end Item

namespace Members

open Item

def chain (item : Item) : List Key → Members
  | [] => []
  | [key] => [(key, item)]
  | key :: path => [(key, .inline "" true (chain item path) {})]

def chains (assignments : List (List Key × Item)) : Members :=
  assignments.flatMap fun a => chain a.2 a.1

theorem chain_cons (item : Item) (key : Key) {path : List Key} (h : path ≠ []) :
    chain item (key :: path) = [(key, .inline "" true (chain item path) {})] := by
  obtain ⟨next, path, rfl⟩ := List.exists_cons_of_ne_nil h
  rfl

theorem length_chain (item : Item) {path : List Key} (h : path ≠ []) :
    (chain item path).length = 1 := by
  fun_cases chain item path with
  | case1 => exact absurd rfl h
  | case2 => rfl
  | case3 => rfl

theorem assignments_chain {item : Item} (h : item.Whole) {path : List Key} (hp : path ≠ [])
    (above : List Key) : assignments above (chain item path) = [(above ++ path, text item)] := by
  induction path generalizing above with
  | nil => exact absurd rfl hp
  | cons key path ih =>
    cases path with
    | nil => simp [chain, assignments, h.assigned]
    | cons next path => simp [chain, assignments, assigned, ih]

theorem assignments_chains {as : List (List Key × Item)}
    (h : ∀ a ∈ as, a.1 ≠ [] ∧ a.2.Whole) (above : List Key) :
    assignments above (chains as) = as.map fun a => (above ++ a.1, text a.2) := by
  induction as with
  | nil => simp [chains, assignments]
  | cons a as ih =>
    obtain ⟨⟨hp, hw⟩, has⟩ := List.forall_mem_cons.1 h
    rw [chains, List.flatMap_cons, assignments_append, assignments_chain hw hp, ← chains, ih has]
    rfl

theorem unshared_of_assignInline? {item : Item} {entered dotted : Bool} {path : List Key}
    {ms ms' : Members} (h : assignInline? item entered dotted path ms = some ms')
    (hu : entriesUnshared ms') : entriesUnshared ms ∧ ms.length ≤ ms'.length := by
  fun_induction assignInline? item entered dotted path ms generalizing ms' with
  | case1 | case2 | case6 => cases h
  | case3 =>
    obtain rfl := Option.some.inj h
    rw [entriesUnshared_append, Bool.and_eq_true] at hu
    exact ⟨hu.1, by simp⟩
  | case4 =>
    obtain ⟨sub, _, rfl⟩ := Option.map_eq_some_iff.1 h
    rw [entriesUnshared_append, Bool.and_eq_true] at hu
    exact ⟨hu.1, by simp⟩
  | case5 _ _ key _ _ _ _ _ _ _ found ih =>
    obtain ⟨sub, hsub, rfl⟩ := Option.map_eq_some_iff.1 h
    obtain ⟨before, after, rfl, _, hput, _⟩ := split_of_find? found
    simp only [hput, entriesUnshared_append, entriesUnshared, unshared, Bool.and_eq_true] at hu
    obtain ⟨hbefore, ⟨hlength, hsub'⟩, hafter⟩ := hu
    obtain ⟨unshared, le⟩ := ih hsub hsub'
    simp only [Bool.not_true, Bool.false_or, decide_eq_true_eq] at hlength
    simp [hput, entriesUnshared_append, entriesUnshared, Item.unshared, hbefore, hafter, unshared,
      le.trans hlength]

theorem exists_of_mem_chain {item : Item} (h : item.Whole) {path : List Key} {k : Key}
    {opening : String} {sub : Members} {d : Decor}
    (hm : (k, .inline opening true sub d) ∈ chain item path) :
    ∃ rest, rest ≠ [] ∧ sub = chain item rest := by
  fun_cases chain item path with
  | case1 => cases hm
  | case2 key =>
    obtain ⟨_, rfl⟩ := Prod.mk.inj (List.mem_singleton.1 hm)
    cases h
  | case3 key path hpath =>
    rw [chain_cons _ _ hpath] at hm
    obtain ⟨_, eq⟩ := Prod.mk.inj (List.mem_singleton.1 hm)
    obtain ⟨_, _, rfl, _⟩ := Item.inline.inj eq
    exact ⟨path, hpath, rfl⟩

theorem unshared_of_foldlM {as : List (List Key × Item)} {ms ms' : Members}
    (h : as.foldlM (fun ms (path, item) => assignInline? item false false path ms) ms = some ms')
    (hu : entriesUnshared ms') : entriesUnshared ms := by
  induction as generalizing ms with
  | nil => exact Option.some.inj h ▸ hu
  | cons a as ih =>
    rw [List.foldlM_cons] at h
    obtain ⟨next, hnext, h⟩ := Option.bind_eq_some_iff.1 h
    exact (unshared_of_assignInline? hnext (ih h)).1

theorem assignInline?_chains {item : Item} {entered dotted : Bool} {path : List Key}
    (as : List (List Key × Item)) (has : ∀ a ∈ as, a.1 ≠ [] ∧ a.2.Whole) {ms' : Members}
    (h : assignInline? item entered dotted path (chains as) = some ms')
    (hu : entriesUnshared ms') : path ≠ [] ∧ ms' = chains as ++ chain item path := by
  generalize hms : chains as = ms at h
  fun_induction assignInline? item entered dotted path ms generalizing as ms' with
  | case1 | case2 | case6 => cases h
  | case3 => exact ⟨List.cons_ne_nil _ _, (Option.some.inj h).symm⟩
  | case4 _ _ key path ms hpath absent ih =>
    obtain ⟨sub, hsub, rfl⟩ := Option.map_eq_some_iff.1 h
    simp only [entriesUnshared_append, entriesUnshared, unshared, Bool.and_eq_true] at hu
    obtain ⟨_, rfl⟩ := ih [] (by simp) hu.2.1.2 rfl hsub
    exact ⟨List.cons_ne_nil _ _, by rw [chain_cons _ _ hpath]; rfl⟩
  | case5 _ _ key path ms hpath k opening sub d found ih =>
    obtain ⟨sub', hsub, rfl⟩ := Option.map_eq_some_iff.1 h
    obtain ⟨before, after, rfl, _, hput, _⟩ := split_of_find? found
    -- The table is entered again, which makes it two members long.
    have hmem : (k, Item.inline opening true sub d) ∈ chains as := by simp [hms]
    obtain ⟨a, ha, hmem⟩ := List.mem_flatMap.1 hmem
    obtain ⟨rest, hrest, rfl⟩ := exists_of_mem_chain (has a ha).2 hmem
    simp only [hput, entriesUnshared_append, entriesUnshared, unshared, Bool.and_eq_true] at hu
    obtain ⟨_, ⟨hlength, hsub'⟩, _⟩ := hu
    obtain ⟨hp, rfl⟩ := ih [(rest, a.2)] (by simpa using ⟨hrest, (has a ha).2⟩) hsub'
      (by simp [chains]) hsub
    simp [length_chain _ hrest, length_chain _ hp] at hlength

theorem unshared_of_chain {item : Item} {path : List Key} (hp : path ≠ [])
    (hu : entriesUnshared (chain item path)) : item.unshared := by
  induction path with
  | nil => exact absurd rfl hp
  | cons key path ih =>
    cases path with
    | nil => simpa [chain, entriesUnshared] using hu
    | cons next path =>
      simp only [chain, entriesUnshared, unshared, Bool.and_eq_true] at hu
      exact ih (List.cons_ne_nil _ _) hu.1.2

theorem unshared_of_chains {as : List (List Key × Item)} (has : ∀ a ∈ as, a.1 ≠ [])
    (hu : entriesUnshared (chains as)) : ∀ a ∈ as, a.2.unshared := by
  induction as with
  | nil => simp
  | cons a as ih =>
    obtain ⟨hp, has⟩ := List.forall_mem_cons.1 has
    rw [chains, List.flatMap_cons, entriesUnshared_append, Bool.and_eq_true] at hu
    exact List.forall_mem_cons.2 ⟨unshared_of_chain hp hu.1, ih has hu.2⟩

theorem foldlM_chains (before : List (List Key × Item)) {as : List (List Key × Item)}
    (hb : ∀ a ∈ before, a.1 ≠ [] ∧ a.2.Whole) (has : ∀ a ∈ as, a.2.Whole) {ms : Members}
    (h : as.foldlM (fun ms (path, item) => assignInline? item false false path ms)
      (chains before) = some ms) (hu : entriesUnshared ms) :
    (∀ a ∈ before ++ as, a.1 ≠ [] ∧ a.2.Whole) ∧ ms = chains (before ++ as) := by
  induction as generalizing before with
  | nil =>
    obtain rfl := Option.some.inj h
    rw [List.append_nil]
    exact ⟨hb, rfl⟩
  | cons a as ih =>
    obtain ⟨ha, has⟩ := List.forall_mem_cons.1 has
    rw [List.foldlM_cons] at h
    obtain ⟨next, hnext, h⟩ := Option.bind_eq_some_iff.1 h
    obtain ⟨hp, rfl⟩ := assignInline?_chains _ hb hnext (unshared_of_foldlM h hu)
    have step : chains before ++ chain a.2 a.1 = chains (before ++ [a]) := by simp [chains]
    rw [step] at h
    simpa using ih (before ++ [a]) (List.forall_mem_append.2 ⟨hb, by simpa using ⟨hp, ha⟩⟩) has h

theorem ofAssignments?_chains {as : List (List Key × Item)} (has : ∀ a ∈ as, a.2.Whole)
    {ms : Members} (h : ofAssignments? as = some ms) (hu : entriesUnshared ms) :
    (∀ a ∈ as, a.1 ≠ [] ∧ a.2.Whole) ∧ ms = chains as :=
  foldlM_chains [] (by simp) has h hu

end Members

end DottedPatch.Toml
