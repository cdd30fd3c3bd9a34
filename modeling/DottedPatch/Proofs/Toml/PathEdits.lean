import DottedPatch.Proofs.Toml.Merges

namespace DottedPatch.Toml.Table

theorem insertPath_cons {key : String} {rest : List String} (hrest : rest ≠ []) (v : Value) (t : Table) :
    insertPath v (key :: rest) t = Entries.insert key (.table (insertPath v rest (below key t))) t := by
  cases rest with
  | nil => exact absurd rfl hrest
  | cons next rest =>
    cases h : Entries.lookup key t with
    | none => simp only [insertPath, below, h, Option.bind_none, Option.getD_none]
    | some u => cases u <;> simp [insertPath, below, h, Value.table?]

theorem exists_insertPath_cons (key : String) (rest : List String) (v : Value) :
    ∃ entry : Option Value → Value,
      ∀ t, insertPath v (key :: rest) t = Entries.insert key (entry (Entries.lookup key t)) t := by
  by_cases hrest : rest = []
  · subst hrest
    exact ⟨fun _ => v, fun _ => rfl⟩
  · exact ⟨fun u => .table (insertPath v rest ((u.bind Value.table?).getD empty)),
      fun t => insertPath_cons hrest v t⟩

theorem erasePath_cons {key : String} {rest : List String} (hrest : rest ≠ []) (t : Table) :
    erasePath (key :: rest) t =
      match (Entries.lookup key t).bind Value.table? with
      | some sub => Entries.insert key (.table (erasePath rest sub)) t
      | none => t := by
  cases rest with
  | nil => exact absurd rfl hrest
  | cons next rest =>
    cases h : Entries.lookup key t with
    | none => simp only [erasePath, h, Option.bind_none]
    | some u => cases u <;> simp [erasePath, h, Value.table?]

theorem lookup_erasePath_of_ne {key other : String} (ne : key ≠ other) (rest : List String)
    (t : Table) : Entries.lookup other (erasePath (key :: rest) t) = Entries.lookup other t := by
  by_cases hrest : rest = []
  · subst hrest
    exact Entries.lookup_erase_of_ne ne t
  · rw [erasePath_cons hrest]
    split
    · exact Entries.lookup_insert_of_ne ne _ t
    · rfl

theorem lookupPath_insertPath {path : List String} (hp : path ≠ []) (v : Value) (t : Table) :
    lookupPath path (insertPath v path t) = some v := by
  induction path generalizing t with
  | nil => exact absurd rfl hp
  | cons key rest ih =>
    by_cases hrest : rest = []
    · subst hrest
      exact Entries.lookup_insert_self key v t
    · rw [insertPath_cons hrest, lookupPath_cons_below hrest, below_insert]
      exact ih hrest (below key t)

theorem lookupPath_erasePath (path : List String) (t : Table) :
    lookupPath path (erasePath path t) = none := by
  induction path generalizing t with
  | nil => rfl
  | cons key rest ih =>
    by_cases hrest : rest = []
    · subst hrest
      exact Entries.lookup_erase_self key t
    · rw [erasePath_cons hrest]
      cases h : (Entries.lookup key t).bind Value.table? with
      | none => rw [lookupPath_cons hrest, h, Option.bind_none]
      | some sub =>
        rw [lookupPath_cons_below hrest, below_insert]
        exact ih sub

theorem lookupPath_insertPath_of_apart {path q : List String} {v : Value} {t : Table}
    (h : Apart path q) : lookupPath q (insertPath v path t) = lookupPath q t := by
  induction h using Apart.induction generalizing t with
  | @parted key other ne path q =>
    obtain ⟨entry, stored⟩ := exists_insertPath_cons key path v
    rw [stored]
    exact lookupPath_congr (Entries.lookup_insert_of_ne ne _ t) q
  | @shared key path q h ih =>
    have hq : q ≠ [] := h.symm.ne_nil
    rw [insertPath_cons h.ne_nil, lookupPath_cons_below hq, below_insert, ih, lookupPath_cons_below hq]

theorem lookupPath_erasePath_of_apart {path q : List String} {t : Table}
    (h : Apart path q) : lookupPath q (erasePath path t) = lookupPath q t := by
  induction h using Apart.induction generalizing t with
  | parted ne path q => exact lookupPath_congr (lookup_erasePath_of_ne ne path t) q
  | @shared key path q h ih =>
    have hq : q ≠ [] := h.symm.ne_nil
    rw [erasePath_cons h.ne_nil]
    cases hsub : (Entries.lookup key t).bind Value.table? with
    | none => rfl
    | some sub =>
      rw [lookupPath_cons_below hq, below_insert, ih, lookupPath_cons hq, hsub]
      rfl

theorem lookupPath_insertPath_of_prefix {path q : List String} {v : Value} {t : Table} (hq : q ≠ [])
    (h : q <+: path) (ne : q ≠ path) : ∃ sub, lookupPath q (insertPath v path t) = some (.table sub) := by
  obtain ⟨rest, rfl⟩ := h
  have hrest : rest ≠ [] := by simpa using ne
  induction q generalizing t with
  | nil => exact absurd rfl hq
  | cons key q ih =>
    rw [List.cons_append, insertPath_cons (by simp [hrest])]
    by_cases hnil : q = []
    · subst hnil
      exact ⟨_, Entries.lookup_insert_self key _ t⟩
    · rw [lookupPath_cons_below hnil, below_insert]
      exact ih hnil (by simpa using hrest)

theorem lookupPath_of_insertPath {path q : List String} {v w : Value} {t : Table}
    (hv : v.table? = none) (hw : w.table? = none) (h : lookupPath q (insertPath v path t) = some w) :
    (q = path ∧ w = v) ∨ lookupPath q t = some w := by
  have hq : q ≠ [] := by
    rintro rfl
    cases h
  by_cases hqp : q <+: path
  · by_cases eq : q = path
    · subst eq
      rw [lookupPath_insertPath hq] at h
      exact .inl ⟨rfl, (Option.some.inj h).symm⟩
    · obtain ⟨sub, hsub⟩ := lookupPath_insertPath_of_prefix (v := v) (t := t) hq hqp eq
      obtain rfl := Option.some.inj (hsub.symm.trans h)
      cases hw
  · by_cases hpq : path <+: q
    · by_cases hp : path = []
      · subst hp
        exact .inr h
      · have ne : path ≠ q := fun eq => hqp (eq ▸ List.prefix_rfl)
        rw [lookupPath_of_not_table (lookupPath_insertPath hp v t) hv hpq ne] at h
        cases h
    · rw [lookupPath_insertPath_of_apart ⟨hpq, hqp⟩] at h
      exact .inr h

theorem lookupPath_erasePath_before {path q : List String} (hq : q ≠ []) (h : q <+: path)
    (ne : q ≠ path) (t : Table) :
    lookupPath q (erasePath path t) = lookupPath q t ∨
      ∃ sub sub', lookupPath q t = some (.table sub) ∧
        lookupPath q (erasePath path t) = some (.table sub') := by
  obtain ⟨rest, rfl⟩ := h
  have hrest : rest ≠ [] := by simpa using ne
  induction q generalizing t with
  | nil => exact absurd rfl hq
  | cons key q ih =>
    rw [List.cons_append, erasePath_cons (by simp [hrest])]
    cases hsub : (Entries.lookup key t).bind Value.table? with
    | none => exact .inl rfl
    | some sub =>
      obtain ⟨u, hu, hut⟩ := Option.bind_eq_some_iff.1 hsub
      obtain rfl := Value.table?_eq_some.1 hut
      by_cases hnil : q = []
      · subst hnil
        exact .inr ⟨sub, _, hu, Entries.lookup_insert_self key _ t⟩
      · rw [lookupPath_cons_below hnil, below_insert, lookupPath_cons_of_table hnil hu]
        exact ih hnil sub (by simpa using hrest)

theorem lookupPath_erasePath_of_prefix {path q : List String} {t : Table} (hq : q ≠ [])
    (h : q <+: path) (ne : q ≠ path) {v : Value} (hv : v.table? = none) :
    lookupPath q (erasePath path t) = some v ↔ lookupPath q t = some v := by
  rcases lookupPath_erasePath_before hq h ne t with same | ⟨sub, sub', before, after⟩
  · rw [same]
  · have other (s : Table) : Value.table s ≠ v := fun eq => by simp [← eq, Value.table?] at hv
    simp [before, after, other]

theorem Ordered.below {t : Table} (h : t.Ordered) (key : String) : (below key t).Ordered :=
  ordered_getD_table? fun _ hl => h.of_lookup hl

theorem Ordered.insertPath {t : Table} (h : t.Ordered) {v : Value} (hv : v.Ordered)
    (path : List String) : Ordered (insertPath v path t) := by
  induction path generalizing t with
  | nil => exact h
  | cons key rest ih =>
    by_cases hrest : rest = []
    · subst hrest
      exact h.insert hv
    · rw [insertPath_cons hrest]
      exact h.insert (ih (h.below key))

def setPath (path : List String) : Option Value → Table → Table
  | some v, t => insertPath v path t
  | none, t => erasePath path t

theorem lookupPath_setPath {path : List String} (hp : path ≠ []) (v : Option Value) (t : Table) :
    lookupPath path (setPath path v t) = v := by
  cases v with
  | none => exact lookupPath_erasePath path t
  | some v => exact lookupPath_insertPath hp v t

theorem lookupPath_setPath_of_apart {path q : List String} (h : Apart path q) (v : Option Value)
    (t : Table) : lookupPath q (setPath path v t) = lookupPath q t := by
  cases v with
  | none => exact lookupPath_erasePath_of_apart h
  | some v => exact lookupPath_insertPath_of_apart h

theorem lookupPath_setPath_before {path q : List String} (hq : q ≠ []) (h : ¬path <+: q)
    {v : Option Value} {t : Table} {w : Value} (hw : w.table? = none) :
    lookupPath q (setPath path v t) = some w ↔
      lookupPath q t = some w ∧ (q <+: path → v = none) := by
  by_cases hqp : q <+: path
  · have ne : q ≠ path := fun eq => h (eq ▸ List.prefix_rfl)
    cases v with
    | none =>
      rw [setPath, lookupPath_erasePath_of_prefix hq hqp ne hw]
      simp
    | some v =>
      obtain ⟨sub, hsub⟩ := lookupPath_insertPath_of_prefix (v := v) (t := t) hq hqp ne
      rw [setPath, hsub]
      constructor
      · intro eq
        obtain rfl := Option.some.inj eq
        simp [Value.table?] at hw
      · rintro ⟨_, none⟩
        cases none hqp
  · rw [lookupPath_setPath_of_apart ⟨h, hqp⟩]
    simp [hqp]

def setPaths (value : List String → Option Value) (paths : List (List String)) (t : Table) : Table :=
  paths.foldl (fun t path => setPath path (value path) t) t

section

variable {value : List String → Option Value} {paths : List (List String)} {q : List String}

theorem lookupPath_setPaths_of_apart (h : ∀ p ∈ paths, Apart p q) (t : Table) :
    lookupPath q (setPaths value paths t) = lookupPath q t := by
  induction paths generalizing t with
  | nil => rfl
  | cons p paths ih =>
    exact (ih (fun p hp => h p (List.mem_cons_of_mem _ hp)) _).trans
      (lookupPath_setPath_of_apart (h p List.mem_cons_self) _ t)

theorem lookupPath_setPaths_of_mem (apart : ∀ p ∈ paths, p ≠ q → Apart p q) (hq : q ≠ [])
    (hm : q ∈ paths) (t : Table) : lookupPath q (setPaths value paths t) = value q := by
  induction paths generalizing t with
  | nil => cases hm
  | cons p paths ih =>
    have rest : ∀ p ∈ paths, p ≠ q → Apart p q := fun p hp => apart p (List.mem_cons_of_mem _ hp)
    by_cases later : q ∈ paths
    · exact ih rest later _
    · obtain rfl : q = p := (List.mem_cons.1 hm).resolve_right later
      have others (p : List String) (hp : p ∈ paths) : Apart p q :=
        rest p hp fun eq => later (eq ▸ hp)
      exact (lookupPath_setPaths_of_apart others _).trans (lookupPath_setPath hq (value q) t)

theorem lookupPath_setPaths_before (hq : q ≠ []) (h : ∀ p ∈ paths, ¬p <+: q) {t : Table}
    {w : Value} (hw : w.table? = none) :
    lookupPath q (setPaths value paths t) = some w ↔
      lookupPath q t = some w ∧ ∀ p ∈ paths, q <+: p → value p = none := by
  induction paths generalizing t with
  | nil => simp [setPaths]
  | cons p paths ih =>
    have rest := ih (fun p hp => h p (List.mem_cons_of_mem _ hp)) (t := setPath p (value p) t)
    rw [lookupPath_setPath_before hq (h p List.mem_cons_self) hw, and_assoc] at rest
    rw [List.forall_mem_cons]
    exact rest

end

end DottedPatch.Toml.Table
