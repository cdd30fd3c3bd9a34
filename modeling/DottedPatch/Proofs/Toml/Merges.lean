import DottedPatch.Proofs.Toml.Tables

namespace DottedPatch.Toml.Table

theorem sorted_merge {lower upper : Table} (h : Entries.Sorted lower) :
    Entries.Sorted (merge lower upper) := by
  induction upper generalizing lower with
  | nil => simpa [merge] using h
  | cons e upper ih =>
    rw [merge]
    exact ih h.insert

theorem lookup_merge {lower upper : Table} (h : Entries.Sorted upper) (key : String) :
    Entries.lookup key (merge lower upper) =
      match Entries.lookup key upper with
      | some v => some (cover (Entries.lookup key lower) v)
      | none => Entries.lookup key lower := by
  induction upper generalizing lower with
  | nil => simp [merge]
  | cons e upper ih =>
    obtain ⟨k, v⟩ := e
    rw [merge, ih h.tail]
    simp only [Entries.lookup, Entries.lookup_insert]
    by_cases eq : k = key
    · subst eq
      simp [h.lookup_head_tail]
    · simp [eq]

theorem cover_of_not_table {v : Value} (h : v.table? = none) (lower : Option Value) :
    cover lower v = v := by
  cases v with
  | scalar | array =>
    cases lower with
    | none => rfl
    | some l => cases l <;> rfl
  | table es => simp [Value.table?] at h

theorem cover_none (v : Value) : cover none v = v := by
  cases v <;> rfl

theorem merge_empty {upper : Table} (h : Entries.Sorted upper) : merge empty upper = upper := by
  apply (sorted_merge Entries.Sorted.nil).ext h
  intro key
  rw [lookup_merge h]
  cases Entries.lookup key upper with
  | none => rfl
  | some v => exact congrArg some (cover_none v)

theorem cover_table {upper : Table} (h : Entries.Sorted upper) (lower : Option Value) :
    cover lower (.table upper) = .table (merge ((lower.bind Value.table?).getD empty) upper) := by
  cases lower with
  | none => rw [cover_none, Option.bind_none, Option.getD_none, merge_empty h]
  | some l =>
    cases l with
    | scalar | array => simp [cover, Value.table?, merge_empty h]
    | table lower => simp [cover, Value.table?]

theorem ordered_merge_of {upper : Table}
    (h : ∀ e ∈ upper, ∀ lower : Option Value, (∀ l, lower = some l → l.Ordered) →
      (cover lower e.2).Ordered) {lower : Table} (hl : lower.Ordered) :
    Ordered (merge lower upper) := by
  induction upper generalizing lower with
  | nil => simpa [merge] using hl
  | cons e upper ih =>
    obtain ⟨key, v⟩ := e
    rw [merge]
    apply ih fun d hd => h d (List.mem_cons_of_mem _ hd)
    exact hl.insert (h (key, v) List.mem_cons_self _ fun l hlookup => hl.of_lookup hlookup)

theorem ordered_getD_table? {lower : Option Value} (hl : ∀ l, lower = some l → l.Ordered) :
    Ordered ((lower.bind Value.table?).getD empty) := by
  cases hlt : lower.bind Value.table? with
  | none => exact .empty
  | some l =>
    obtain ⟨v, hv, hvt⟩ := Option.bind_eq_some_iff.1 hlt
    obtain rfl := Value.table?_eq_some.1 hvt
    exact hl _ hv

theorem ordered_cover {v : Value} (h : v.Ordered) {lower : Option Value}
    (hl : ∀ l, lower = some l → l.Ordered) : (cover lower v).Ordered := by
  induction h generalizing lower with
  | scalar s =>
    rw [cover_of_not_table rfl]
    exact .scalar s
  | array hitems =>
    rw [cover_of_not_table rfl]
    exact .array hitems
  | table sorted _ ih =>
    rw [cover_table sorted]
    exact ordered_merge_of (fun e he _ hl => ih e he hl) (ordered_getD_table? hl)

theorem Ordered.merge {lower upper : Table} (hl : lower.Ordered) (hu : upper.Ordered) :
    Ordered (Table.merge lower upper) :=
  ordered_merge_of (fun _ he _ hl => ordered_cover (hu.of_mem he) hl) hl

theorem lookup_merge_of_table {lower upper sub : Table} (hu : upper.Ordered) {key : String}
    (h : Entries.lookup key upper = some (.table sub)) :
    Entries.lookup key (merge lower upper) = some (.table (merge (below key lower) sub)) := by
  have ordered : Ordered sub := hu.of_lookup h
  rw [lookup_merge hu.sorted, h]
  exact congrArg some (cover_table ordered.sorted _)

/-- What is not a table stands on the way that a path takes. -/
def blocked : (path : List String) → Table → Bool
  | key :: next :: rest, t =>
    match Entries.lookup key t with
    | some (.table sub) => blocked (next :: rest) sub
    | some _ => true
    | none => false
  | _, _ => false

@[simp] theorem blocked_singleton (key : String) (t : Table) : blocked [key] t = false := rfl

theorem blocked_of_none {key : String} {rest : List String} {t : Table}
    (h : Entries.lookup key t = none) : blocked (key :: rest) t = false := by
  cases rest with
  | nil => rfl
  | cons next rest => rw [blocked, h]

theorem blocked_of_table {key : String} {rest : List String} (hrest : rest ≠ []) {t sub : Table}
    (h : Entries.lookup key t = some (.table sub)) : blocked (key :: rest) t = blocked rest sub := by
  cases rest with
  | nil => exact absurd rfl hrest
  | cons next rest => rw [blocked, h]

theorem blocked_of_not_table {key : String} {rest : List String} (hrest : rest ≠ []) {t : Table}
    {v : Value} (h : Entries.lookup key t = some v) (hv : v.table? = none) :
    blocked (key :: rest) t = true := by
  cases rest with
  | nil => exact absurd rfl hrest
  | cons next rest =>
    cases v with
    | scalar | array => rw [blocked, h]
    | table sub => simp [Value.table?] at hv

theorem blocked_congr {key : String} {t u : Table} (h : Entries.lookup key t = Entries.lookup key u)
    (rest : List String) : blocked (key :: rest) t = blocked (key :: rest) u := by
  cases rest with
  | nil => rfl
  | cons next rest => rw [blocked, blocked, h]

theorem blocked_below {key : String} {rest : List String} (hrest : rest ≠ []) {t : Table}
    (h : blocked (key :: rest) t = false) : blocked rest (below key t) = false := by
  cases hl : Entries.lookup key t with
  | none =>
    rw [below_of_not_table (by rw [hl]; rfl)]
    cases rest with
    | nil => rfl
    | cons next rest => exact blocked_of_none rfl
  | some v =>
    cases hv : v.table? with
    | none => simp [blocked_of_not_table hrest hl hv] at h
    | some sub =>
      obtain rfl := Value.table?_eq_some.1 hv
      rwa [below_of_table hl, ← blocked_of_table hrest hl]

theorem blocked_append {before rest : List String} (hrest : rest ≠ []) {t : Table} {v : Value}
    (h : lookupPath before t = some v) (hv : v.table? = none) : blocked (before ++ rest) t = true := by
  induction before generalizing t with
  | nil => simp at h
  | cons key before ih =>
    rw [List.cons_append]
    by_cases hbefore : before = []
    · subst hbefore
      exact blocked_of_not_table hrest h hv
    · obtain ⟨sub, hsub, h⟩ := (lookupPath_cons_eq_some_iff hbefore).1 h
      rw [blocked_of_table (by simp [hrest]) hsub]
      exact ih h

theorem exists_of_blocked {path : List String} {t : Table} (h : blocked path t = true) :
    ∃ before v, before <+: path ∧ before ≠ path ∧ lookupPath before t = some v ∧ v.table? = none := by
  induction path generalizing t with
  | nil => simp [blocked] at h
  | cons key rest ih =>
    have hrest : rest ≠ [] := by
      rintro rfl
      simp at h
    cases hl : Entries.lookup key t with
    | none => simp [blocked_of_none hl] at h
    | some v =>
      cases hv : v.table? with
      | none => exact ⟨[key], v, by simp, by simpa using hrest.symm, hl, hv⟩
      | some sub =>
        obtain rfl := Value.table?_eq_some.1 hv
        rw [blocked_of_table hrest hl] at h
        obtain ⟨before, w, hpre, ne, hw, hwt⟩ := ih h
        have hbefore : before ≠ [] := by
          rintro rfl
          cases hw
        exact ⟨key :: before, w, List.cons_prefix_cons.2 ⟨rfl, hpre⟩, by simpa using ne,
          (lookupPath_cons_of_table hbefore hl).trans hw, hwt⟩

theorem blocked_iff {path : List String} {t : Table} :
    blocked path t ↔
      ∃ before v, before <+: path ∧ before ≠ path ∧ lookupPath before t = some v ∧ v.table? = none := by
  refine ⟨exists_of_blocked, ?_⟩
  rintro ⟨before, v, ⟨rest, rfl⟩, ne, hv, hvt⟩
  exact blocked_append (by simpa using ne) hv hvt

theorem lookupPath_merge_of_some {path : List String} {lower upper : Table} {v : Value}
    (hu : upper.Ordered) (h : lookupPath path upper = some v) :
    lookupPath path (merge lower upper) = some (cover (lookupPath path lower) v) := by
  induction path generalizing lower upper with
  | nil => simp at h
  | cons key rest ih =>
    by_cases hrest : rest = []
    · subst hrest
      rw [lookupPath_singleton] at h ⊢
      rw [lookup_merge hu.sorted, h]
      rfl
    · obtain ⟨u, hlookup, h⟩ := (lookupPath_cons_eq_some_iff hrest).1 h
      rw [lookupPath_cons_of_table hrest (lookup_merge_of_table hu hlookup), lookupPath_cons_below hrest]
      exact ih (hu.of_lookup hlookup) h

theorem lookupPath_merge_of_none {path : List String} {lower upper : Table} (hu : upper.Ordered)
    (h : lookupPath path upper = none) (hb : blocked path upper = false) :
    lookupPath path (merge lower upper) = lookupPath path lower := by
  induction path generalizing lower upper with
  | nil => rfl
  | cons key rest ih =>
    cases hlookup : Entries.lookup key upper with
    | none =>
      apply lookupPath_congr
      rw [lookup_merge hu.sorted, hlookup]
    | some u =>
      by_cases hrest : rest = []
      · subst hrest
        rw [lookupPath_singleton, hlookup] at h
        cases h
      · cases hut : u.table? with
        | none => simp [blocked_of_not_table hrest hlookup hut] at hb
        | some sub =>
          obtain rfl := Value.table?_eq_some.1 hut
          rw [blocked_of_table hrest hlookup] at hb
          rw [lookupPath_cons_of_table hrest hlookup] at h
          rw [lookupPath_cons_of_table hrest (lookup_merge_of_table hu hlookup),
            lookupPath_cons_below hrest]
          exact ih (hu.of_lookup hlookup) h hb

theorem blocked_merge {path : List String} {lower upper : Table} (hu : upper.Ordered)
    (hl : blocked path lower = false) (hb : blocked path upper = false) :
    blocked path (merge lower upper) = false := by
  induction path generalizing lower upper with
  | nil => rfl
  | cons key rest ih =>
    by_cases hrest : rest = []
    · rw [hrest, blocked_singleton]
    · cases hlookup : Entries.lookup key upper with
      | none =>
        have same : Entries.lookup key (merge lower upper) = Entries.lookup key lower := by
          rw [lookup_merge hu.sorted, hlookup]
        rwa [blocked_congr same]
      | some u =>
        cases hut : u.table? with
        | none => simp [blocked_of_not_table hrest hlookup hut] at hb
        | some sub =>
          obtain rfl := Value.table?_eq_some.1 hut
          rw [blocked_of_table hrest hlookup] at hb
          rw [blocked_of_table hrest (lookup_merge_of_table hu hlookup)]
          exact ih (hu.of_lookup hlookup) (blocked_below hrest hl) hb

end DottedPatch.Toml.Table
