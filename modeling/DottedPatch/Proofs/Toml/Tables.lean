import DottedPatch.Proofs.Toml.Entries
import DottedPatch.Proofs.Toml.Paths
import DottedPatch.Schema.LeafValue

namespace DottedPatch.Toml

/-- Every table in the value has its keys in order. -/
inductive Value.Ordered : Value → Prop
  | scalar (s : Scalar) : Ordered (.scalar s)
  | array {items : List Value} : (∀ v ∈ items, Ordered v) → Ordered (.array items)
  | table {entries : List (String × Value)} : Entries.Sorted entries →
      (∀ e ∈ entries, Ordered e.2) → Ordered (.table entries)

theorem Value.table?_eq_some {v : Value} {t : Table} : v.table? = some t ↔ v = .table t := by
  cases v <;> simp [Value.table?]

namespace Table

def Ordered (t : Table) : Prop := Value.Ordered (.table t)

namespace Ordered

theorem sorted {t : Table} : t.Ordered → Entries.Sorted t
  | .table h _ => h

theorem of_mem {t : Table} {e : String × Value} : t.Ordered → e ∈ t → e.2.Ordered
  | .table _ h, he => h e he

theorem of_lookup {t : Table} {key : String} {v : Value} (h : t.Ordered)
    (hv : Entries.lookup key t = some v) : v.Ordered :=
  h.of_mem (Entries.mem_of_lookup hv)

@[elab_as_elim]
theorem induction {motive : ∀ t : Table, t.Ordered → Prop}
    (table : ∀ {t : Table} (h : t.Ordered),
      (∀ {key sub} (hl : Entries.lookup key t = some (.table sub)), motive sub (h.of_lookup hl)) →
        motive t h)
    {t : Table} (h : t.Ordered) : motive t h := by
  have value : (Value.table t).Ordered := h
  generalize eq : Value.table t = v at value
  induction value generalizing t with
  | scalar | array => cases eq
  | table _ _ ih =>
    obtain rfl := Value.table.inj eq
    exact table h fun hl => ih _ (Entries.mem_of_lookup hl) (h.of_lookup hl) rfl

theorem empty : Table.empty.Ordered := .table Entries.Sorted.nil fun _ h => nomatch h

theorem insert {t : Table} {key : String} {v : Value} (h : t.Ordered) (hv : v.Ordered) :
    Ordered (Entries.insert key v t) := by
  refine .table h.sorted.insert fun e he => ?_
  rcases Entries.mem_insert he with rfl | he
  · exact hv
  · exact h.of_mem he

theorem erase {t : Table} {key : String} (h : t.Ordered) : Ordered (Entries.erase key t) :=
  .table h.sorted.erase fun _ he => h.of_mem (Entries.mem_of_mem_erase he)

end Ordered

@[simp] theorem lookupPath_nil (t : Table) : lookupPath [] t = none := rfl

@[simp] theorem lookupPath_singleton (key : String) (t : Table) :
    lookupPath [key] t = Entries.lookup key t := rfl

theorem lookupPath_cons {key : String} {rest : List String} (h : rest ≠ []) (t : Table) :
    lookupPath (key :: rest) t =
      ((Entries.lookup key t).bind Value.table?).bind (lookupPath rest) := by
  cases rest with
  | nil => exact absurd rfl h
  | cons next rest =>
    simp only [lookupPath]
    split
    · rename_i sub eq
      simp [eq, Value.table?]
    · rename_i other
      cases eq : Entries.lookup key t with
      | none => rfl
      | some v =>
        cases v with
        | scalar | array => rfl
        | table sub => exact absurd eq (other sub)

@[simp] theorem lookupPath_empty (path : List String) : lookupPath path empty = none := by
  cases path with
  | nil => rfl
  | cons key rest =>
    cases rest with
    | nil => rfl
    | cons next rest => rw [lookupPath_cons (by simp)]; rfl

def below (key : String) (t : Table) : Table := ((Entries.lookup key t).bind Value.table?).getD empty

theorem below_of_table {key : String} {t sub : Table} (h : Entries.lookup key t = some (.table sub)) :
    below key t = sub := by
  simp [below, h, Value.table?]

theorem below_of_not_table {key : String} {t : Table}
    (h : (Entries.lookup key t).bind Value.table? = none) : below key t = empty := by
  simp [below, h]

theorem lookupPath_cons_below {key : String} {rest : List String} (hrest : rest ≠ []) (t : Table) :
    lookupPath (key :: rest) t = lookupPath rest (below key t) := by
  rw [lookupPath_cons hrest, below]
  cases (Entries.lookup key t).bind Value.table? with
  | none => simp
  | some sub => rfl

theorem lookupPath_cons_of_table {key : String} {rest : List String} (hrest : rest ≠ []) {t sub : Table}
    (h : Entries.lookup key t = some (.table sub)) :
    lookupPath (key :: rest) t = lookupPath rest sub := by
  rw [lookupPath_cons_below hrest, below_of_table h]

theorem lookupPath_cons_eq_some_iff {key : String} {rest : List String} (hrest : rest ≠ []) {t : Table}
    {v : Value} : lookupPath (key :: rest) t = some v ↔
      ∃ sub, Entries.lookup key t = some (.table sub) ∧ lookupPath rest sub = some v := by
  constructor
  · intro h
    rw [lookupPath_cons hrest] at h
    obtain ⟨sub, hsub, h⟩ := Option.bind_eq_some_iff.1 h
    obtain ⟨u, hu, hut⟩ := Option.bind_eq_some_iff.1 hsub
    obtain rfl := Value.table?_eq_some.1 hut
    exact ⟨sub, hu, h⟩
  · rintro ⟨sub, hsub, h⟩
    rwa [lookupPath_cons_of_table hrest hsub]

theorem exists_lookup_of_lookupPath {key : String} {rest : List String} {t : Table} {v : Value}
    (h : lookupPath (key :: rest) t = some v) : ∃ w, Entries.lookup key t = some w := by
  by_cases hrest : rest = []
  · subst hrest
    exact ⟨v, h⟩
  · obtain ⟨sub, hsub, _⟩ := (lookupPath_cons_eq_some_iff hrest).1 h
    exact ⟨_, hsub⟩

theorem Ordered.of_lookupPath {path : List String} {t : Table} (h : t.Ordered) {v : Value}
    (hv : lookupPath path t = some v) : v.Ordered := by
  induction path generalizing t with
  | nil => cases hv
  | cons key rest ih =>
    by_cases hrest : rest = []
    · subst hrest
      exact h.of_lookup hv
    · obtain ⟨sub, hsub, hv⟩ := (lookupPath_cons_eq_some_iff hrest).1 hv
      exact ih (h.of_lookup hsub) hv

theorem below_insert (key : String) (sub t : Table) :
    below key (Entries.insert key (.table sub) t) = sub :=
  below_of_table (Entries.lookup_insert_self key _ t)

theorem lookupPath_congr {key : String} {t u : Table}
    (h : Entries.lookup key t = Entries.lookup key u) (rest : List String) :
    lookupPath (key :: rest) t = lookupPath (key :: rest) u := by
  cases rest with
  | nil => exact h
  | cons next rest => rw [lookupPath_cons (by simp), lookupPath_cons (by simp), h]

theorem lookupPath_append_eq {path rest : List String} (hp : path ≠ []) (hrest : rest ≠ []) (t : Table) :
    lookupPath (path ++ rest) t =
      ((lookupPath path t).bind Value.table?).bind (lookupPath rest) := by
  induction path generalizing t with
  | nil => exact absurd rfl hp
  | cons key path ih =>
    rw [List.cons_append, lookupPath_cons (by simp [hrest])]
    by_cases hpath : path = []
    · subst hpath
      rfl
    · rw [lookupPath_cons hpath]
      cases (Entries.lookup key t).bind Value.table? with
      | none => rfl
      | some sub => exact ih hpath sub

theorem lookupPath_append {path rest : List String} {t sub : Table} (hrest : rest ≠ [])
    (h : lookupPath path t = some (.table sub)) :
    lookupPath (path ++ rest) t = lookupPath rest sub := by
  have hp : path ≠ [] := by
    rintro rfl
    cases h
  rw [lookupPath_append_eq hp hrest, h]
  rfl

theorem lookupPath_of_not_table {before path : List String} {t : Table} {v : Value}
    (h : lookupPath before t = some v) (hv : v.table? = none) (hp : before <+: path)
    (ne : before ≠ path) : lookupPath path t = none := by
  obtain ⟨rest, rfl⟩ := hp
  have hrest : rest ≠ [] := by
    rintro rfl
    exact ne (List.append_nil before).symm
  have hbefore : before ≠ [] := by
    rintro rfl
    cases h
  rw [lookupPath_append_eq hbefore hrest, h, Option.bind_some, hv, Option.bind_none]

theorem eq_of_not_table {before other path : List String} {t : Table} {v w : Value}
    (hv : lookupPath before t = some v) (hvt : v.table? = none)
    (hw : lookupPath other t = some w) (hwt : w.table? = none) (hp : before <+: path)
    (hp' : other <+: path) : before = other := by
  refine Classical.byContradiction fun ne => ?_
  rcases List.prefix_or_prefix_of_prefix hp hp' with within | within
  · cases hw.symm.trans (lookupPath_of_not_table hv hvt within ne)
  · cases hv.symm.trans (lookupPath_of_not_table hw hwt within (Ne.symm ne))

theorem lookup_of_section {key : String} {rest : List String} {t : Table}
    (h : key :: rest = [] ∨ ∃ sub, lookupPath (key :: rest) t = some (.table sub)) :
    ∃ sub, Entries.lookup key t = some (.table sub) ∧
      (rest = [] ∨ ∃ inner, lookupPath rest sub = some (.table inner)) := by
  obtain ⟨sub, h⟩ := h.resolve_left (by simp)
  cases rest with
  | nil => exact ⟨sub, h, .inl rfl⟩
  | cons next rest =>
    obtain ⟨u, hu, h⟩ := (lookupPath_cons_eq_some_iff (by simp)).1 h
    exact ⟨u, hu, .inr ⟨sub, h⟩⟩

def put (key : String) : Option Value → Table → Table
  | some v => Entries.insert key v
  | none => Entries.erase key

theorem lookup_put (key other : String) (v : Option Value) (t : Table) :
    Entries.lookup other (put key v t) = if key = other then v else Entries.lookup other t := by
  cases v with
  | none => exact Entries.lookup_erase key other t
  | some v => exact Entries.lookup_insert key other v t

theorem sorted_put {t : Table} {key : String} {v : Option Value} (h : Entries.Sorted t) :
    Entries.Sorted (put key v t) := by
  cases v with
  | none => exact h.erase
  | some v => exact h.insert

theorem Ordered.put {t : Table} {key : String} {v : Option Value} (h : t.Ordered)
    (hv : ∀ w, v = some w → w.Ordered) : Ordered (put key v t) := by
  cases v with
  | none => exact h.erase
  | some v => exact h.insert (hv v rfl)

/-- Changes the table at a path, which is empty if missing, unless the way there holds another value. -/
def updateSection? (f : Table → Table) : (path : List String) → Table → Option Table
  | [], t => some (f t)
  | key :: rest, t =>
    match Entries.lookup key t with
    | none => (updateSection? f rest empty).map fun sub => Entries.insert key (.table sub) t
    | some (.table sub) => (updateSection? f rest sub).map fun sub => Entries.insert key (.table sub) t
    | some _ => none

/-- A value for the entry `name` of the table at a path, or no value. -/
structure Write where
  parents : List String
  name : String
  value : Option Value

namespace Write

def path (w : Write) : List String := w.parents ++ [w.name]

def run? (w : Write) (t : Table) : Option Table := updateSection? (put w.name w.value) w.parents t

def apply (w : Write) (t : Table) : Table := (w.run? t).getD t

def below (key : String) (w : Write) : Write := { w with parents := key :: w.parents }

@[simp] theorem path_ne_nil (w : Write) : w.path ≠ [] := by simp [path]

@[simp] theorem path_below (key : String) (w : Write) : (w.below key).path = key :: w.path := rfl

theorem run?_here (name : String) (v : Option Value) (t : Table) :
    run? ⟨[], name, v⟩ t = some (put name v t) := rfl

theorem run?_below_none {key : String} {t : Table} (h : Entries.lookup key t = none) (w : Write) :
    (w.below key).run? t = (w.run? empty).map fun sub => Entries.insert key (.table sub) t := by
  simp only [run?, below, updateSection?, h]

theorem run?_below_table {key : String} {t sub : Table}
    (h : Entries.lookup key t = some (.table sub)) (w : Write) :
    (w.below key).run? t = (w.run? sub).map fun sub => Entries.insert key (.table sub) t := by
  simp only [run?, below, updateSection?, h]

theorem run?_below_blocked {key : String} {t : Table} {v : Value}
    (h : Entries.lookup key t = some v) (hv : v.table? = none) (w : Write) :
    (w.below key).run? t = none := by
  cases v with
  | table sub => simp [Value.table?] at hv
  | scalar s => simp only [run?, below, updateSection?, h]
  | array vs => simp only [run?, below, updateSection?, h]

theorem run?_empty (w : Write) : w.run? empty = some (w.apply empty) := by
  obtain ⟨parents, name, v⟩ := w
  suffices h : (run? ⟨parents, name, v⟩ empty).isSome by
    obtain ⟨t, ht⟩ := Option.isSome_iff_exists.1 h
    rw [apply, ht, Option.getD_some]
  induction parents with
  | nil => rfl
  | cons key parents ih =>
    change ((below key ⟨parents, name, v⟩).run? empty).isSome
    rw [run?_below_none rfl, Option.isSome_map]
    exact ih

theorem run?_below_eq_some {key : String} {w : Write} {t t' : Table}
    (h : (w.below key).run? t = some t') :
    ∃ sub sub', w.run? sub = some sub' ∧ t' = Entries.insert key (.table sub') t ∧
      (Entries.lookup key t = some (.table sub) ∨ Entries.lookup key t = none ∧ sub = empty) := by
  cases hl : Entries.lookup key t with
  | none =>
    rw [run?_below_none hl] at h
    obtain ⟨sub', hs, rfl⟩ := Option.map_eq_some_iff.1 h
    exact ⟨empty, sub', hs, rfl, .inr ⟨rfl, rfl⟩⟩
  | some v =>
    cases hv : v.table? with
    | none => simp [run?_below_blocked hl hv] at h
    | some sub =>
      obtain rfl := Value.table?_eq_some.1 hv
      rw [run?_below_table hl] at h
      obtain ⟨sub', hs, rfl⟩ := Option.map_eq_some_iff.1 h
      exact ⟨sub, sub', hs, rfl, .inl rfl⟩

theorem ordered_run? {w : Write} {t t' : Table} (ht : t.Ordered)
    (hw : ∀ v, w.value = some v → v.Ordered) (h : w.run? t = some t') : t'.Ordered := by
  obtain ⟨parents, name, v⟩ := w
  induction parents generalizing t t' with
  | nil =>
    obtain rfl := Option.some.inj h
    exact ht.put hw
  | cons key parents ih =>
    obtain ⟨sub, sub', hs, rfl, hsub⟩ := run?_below_eq_some (w := ⟨parents, name, v⟩) h
    have hsub : sub.Ordered := by
      rcases hsub with hl | ⟨_, rfl⟩
      · exact ht.of_lookup hl
      · exact .empty
    exact ht.insert (ih hsub hw hs)

theorem ordered_apply {w : Write} {t : Table} (ht : t.Ordered)
    (hw : ∀ v, w.value = some v → v.Ordered) : (w.apply t).Ordered := by
  rw [apply]
  cases h : w.run? t with
  | none => exact ht
  | some t' => exact ordered_run? ht hw h

theorem run?_of_section {parents : List String} {t : Table}
    (h : parents = [] ∨ ∃ sub, lookupPath parents t = some (.table sub)) (name : String)
    (v : Option Value) : ∃ t', run? ⟨parents, name, v⟩ t = some t' := by
  induction parents generalizing t with
  | nil => exact ⟨_, rfl⟩
  | cons key parents ih =>
    obtain ⟨sub, hl, hsub⟩ := lookup_of_section h
    obtain ⟨sub', hs⟩ := ih hsub
    have run := run?_below_table hl ⟨parents, name, v⟩
    rw [hs] at run
    exact ⟨_, run⟩

theorem lookupPath_run? {w : Write} {t t' : Table} (h : w.run? t = some t') :
    lookupPath w.path t' = w.value := by
  obtain ⟨parents, name, v⟩ := w
  induction parents generalizing t t' with
  | nil =>
    obtain rfl := Option.some.inj h
    simp [path, lookup_put]
  | cons key parents ih =>
    obtain ⟨sub, sub', hs, rfl, _⟩ := run?_below_eq_some (w := ⟨parents, name, v⟩) h
    rw [show path ⟨key :: parents, name, v⟩ = key :: path ⟨parents, name, v⟩ from rfl,
      lookupPath_cons (path_ne_nil _), Entries.lookup_insert_self]
    exact ih hs

theorem lookupPath_run?_of_apart {w : Write} {t t' : Table} {q : List String}
    (h : w.run? t = some t') (apart : Apart w.path q) : lookupPath q t' = lookupPath q t := by
  obtain ⟨parents, name, v⟩ := w
  induction parents generalizing t t' q with
  | nil =>
    obtain rfl := Option.some.inj h
    cases q with
    | nil => rfl
    | cons k rest =>
      apply lookupPath_congr
      rw [lookup_put, if_neg]
      rintro rfl
      exact apart.1 (by simp [path])
  | cons key parents ih =>
    obtain ⟨sub, sub', hs, rfl, hsub⟩ := run?_below_eq_some (w := ⟨parents, name, v⟩) h
    cases q with
    | nil => rfl
    | cons k rest =>
      by_cases hk : key = k
      · subst k
        have hrest : rest ≠ [] := apart.of_cons.symm.ne_nil
        rw [lookupPath_cons_of_table hrest (Entries.lookup_insert_self _ _ _), ih hs apart.of_cons]
        rcases hsub with hl | ⟨hl, rfl⟩
        · rw [lookupPath_cons_of_table hrest hl]
        · rw [lookupPath_cons_below hrest, below_of_not_table (by rw [hl]; rfl)]
      · exact lookupPath_congr (Entries.lookup_insert_of_ne hk _ _) rest

end Write

end Table

end DottedPatch.Toml

namespace DottedPatch

open Toml

theorem LeafValue.ordered_toValue (v : LeafValue) : v.toValue.Ordered := by
  cases v with
  | boolean | integer | string => exact .scalar _
  | set items =>
    refine .array fun v hv => ?_
    obtain ⟨s, _, rfl⟩ := List.mem_map.1 hv
    exact .scalar _
  | list items =>
    refine .array fun v hv => ?_
    obtain ⟨s, _, rfl⟩ := List.mem_map.1 hv
    exact .scalar _
  | map entries =>
    refine .table ?_ fun e he => ?_
    · exact List.pairwise_map.2 entries.sorted
    · obtain ⟨e, _, rfl⟩ := List.mem_map.1 he
      exact .scalar _

end DottedPatch
