import DottedPatch.Proofs.Toml.Tables

/-! Lists of writes. Done a second time, they change nothing.

A write may be blocked the first time and go through the second, so that single writes say nothing
about a list of them. What counts is the entry of one key: a write to the entry itself makes what
was there before irrelevant, and without such a write only tables under the key change. -/

namespace DottedPatch.Toml.Table

/-- What a write does to the entry of one key: it sets it, or writes below it. -/
inductive EntryWrite
  | put (v : Option Value)
  | below (w : Write)

namespace EntryWrite

def apply : EntryWrite → Option Value → Option Value
  | .put v, _ => v
  | .below w, none => some (.table (w.apply empty))
  | .below w, some (.table t) => some (.table (w.apply t))
  | .below _, some v => some v

def applyAll (es : List EntryWrite) (v : Option Value) : Option Value :=
  es.foldl (fun v e => e.apply v) v

end EntryWrite

namespace Write

def applyAll (ws : List Write) (t : Table) : Table := ws.foldl (fun t w => w.apply t) t

@[simp] theorem applyAll_nil (t : Table) : applyAll [] t = t := rfl

@[simp] theorem applyAll_cons (w : Write) (ws : List Write) (t : Table) :
    applyAll (w :: ws) t = applyAll ws (w.apply t) := rfl

theorem ordered_applyAll {ws : List Write} {t : Table} (ht : t.Ordered)
    (hw : ∀ w ∈ ws, ∀ v, w.value = some v → v.Ordered) : (applyAll ws t).Ordered := by
  induction ws generalizing t with
  | nil => exact ht
  | cons w ws ih =>
    have ht' := ordered_apply ht (hw w List.mem_cons_self)
    exact ih ht' fun u hu => hw u (List.mem_cons_of_mem _ hu)

def effect? (key : String) (w : Write) : Option EntryWrite :=
  match w.parents with
  | [] => if w.name = key then some (.put w.value) else none
  | k :: parents => if k = key then some (.below { w with parents }) else none

theorem eq_below_of_effect? {key : String} {u w : Write} (h : u.effect? key = some (.below w)) :
    u = w.below key := by
  obtain ⟨parents, name, v⟩ := u
  cases parents with
  | nil =>
    simp only [effect?] at h
    split at h <;> cases h
  | cons k parents =>
    simp only [effect?] at h
    split at h
    · rename_i eq
      obtain rfl := EntryWrite.below.inj (Option.some.inj h)
      rw [below, eq]
    · cases h

theorem lookup_apply_below_self (key : String) (w : Write) (t : Table) :
    Entries.lookup key ((w.below key).apply t) =
      (EntryWrite.below w).apply (Entries.lookup key t) := by
  cases hl : Entries.lookup key t with
  | none =>
    rw [apply, run?_below_none hl, run?_empty, Option.map_some, Option.getD_some,
      Entries.lookup_insert_self]
    rfl
  | some u =>
    cases u with
    | scalar | array =>
      rw [apply, run?_below_blocked hl rfl, Option.getD_none, hl]
      rfl
    | table sub =>
      rw [apply, run?_below_table hl]
      cases hs : w.run? sub with
      | none => simp [EntryWrite.apply, apply, hs, hl]
      | some sub' => simp [EntryWrite.apply, apply, hs]

theorem lookup_apply_below_of_ne {k key : String} (ne : k ≠ key) (w : Write) (t : Table) :
    Entries.lookup key ((w.below k).apply t) = Entries.lookup key t := by
  rw [apply]
  cases h : (w.below k).run? t with
  | none => rfl
  | some t' =>
    obtain ⟨_, _, _, rfl, _⟩ := run?_below_eq_some h
    exact Entries.lookup_insert_of_ne ne _ t

theorem lookup_apply (key : String) (w : Write) (t : Table) :
    Entries.lookup key (w.apply t) =
      match w.effect? key with
      | some e => e.apply (Entries.lookup key t)
      | none => Entries.lookup key t := by
  obtain ⟨parents, name, v⟩ := w
  cases parents with
  | nil =>
    rw [apply, run?_here, Option.getD_some, lookup_put]
    simp only [effect?]
    split <;> rfl
  | cons k parents =>
    simp only [effect?]
    by_cases eq : k = key
    · subst eq
      rw [if_pos rfl]
      exact lookup_apply_below_self k ⟨parents, name, v⟩ t
    · rw [if_neg eq]
      exact lookup_apply_below_of_ne eq ⟨parents, name, v⟩ t

theorem lookup_applyAll (key : String) (ws : List Write) (t : Table) :
    Entries.lookup key (applyAll ws t) =
      EntryWrite.applyAll (ws.filterMap (effect? key)) (Entries.lookup key t) := by
  induction ws generalizing t with
  | nil => rfl
  | cons w ws ih =>
    rw [applyAll_cons, ih, lookup_apply, List.filterMap_cons]
    cases w.effect? key with
    | none => rfl
    | some e => rfl

end Write

namespace EntryWrite

theorem applyAll_eq_of_put {es : List EntryWrite} (h : ∃ v, put v ∈ es) (x y : Option Value) :
    applyAll es x = applyAll es y := by
  induction es generalizing x y with
  | nil => simp at h
  | cons e es ih =>
    by_cases later : ∃ v, put v ∈ es
    · exact ih later (e.apply x) (e.apply y)
    · obtain ⟨v, hv⟩ := h
      rcases List.mem_cons.1 hv with rfl | hv
      · rfl
      · exact absurd ⟨v, hv⟩ later

theorem exists_map_below {es : List EntryWrite} (h : ¬∃ v, put v ∈ es) :
    ∃ ws : List Write, es = ws.map below := by
  induction es with
  | nil => exact ⟨[], rfl⟩
  | cons e es ih =>
    obtain ⟨ws, rfl⟩ := ih fun ⟨v, hv⟩ => h ⟨v, List.mem_cons_of_mem _ hv⟩
    cases e with
    | put v => exact absurd ⟨v, List.mem_cons_self⟩ h
    | below w => exact ⟨w :: ws, rfl⟩

theorem applyAll_below_table (ws : List Write) (t : Table) :
    applyAll (ws.map below) (some (.table t)) = some (.table (Write.applyAll ws t)) := by
  induction ws generalizing t with
  | nil => rfl
  | cons w ws ih => exact ih (w.apply t)

theorem applyAll_below_blocked (ws : List Write) {v : Value} (hv : v.table? = none) :
    applyAll (ws.map below) (some v) = some v := by
  induction ws with
  | nil => rfl
  | cons w ws ih =>
    cases v with
    | table t => simp [Value.table?] at hv
    | scalar | array => exact ih

theorem applyAll_below_applyAll_below {ws : List Write} {v : Option Value}
    (hv : ∀ t : Table, v = some (.table t) → t.Ordered)
    (twice : ∀ t : Table, t.Ordered →
      Write.applyAll ws (Write.applyAll ws t) = Write.applyAll ws t) :
    applyAll (ws.map below) (applyAll (ws.map below) v) = applyAll (ws.map below) v := by
  cases v with
  | none =>
    cases ws with
    | nil => rfl
    | cons w ws =>
      -- The first write makes the table, as if it had been there without entries.
      have made : applyAll ((w :: ws).map below) none =
          applyAll ((w :: ws).map below) (some (.table empty)) := rfl
      rw [made, applyAll_below_table, applyAll_below_table, twice empty .empty]
  | some v =>
    cases v with
    | table t => rw [applyAll_below_table, applyAll_below_table, twice t (hv t rfl)]
    | scalar | array => rw [applyAll_below_blocked ws rfl, applyAll_below_blocked ws rfl]

end EntryWrite

namespace Write

theorem applyAll_applyAll_of_length {n : Nat} {ws : List Write} {t : Table}
    (hn : ∀ w ∈ ws, w.parents.length < n) (hw : ∀ w ∈ ws, ∀ v, w.value = some v → v.Ordered)
    (ht : t.Ordered) : applyAll ws (applyAll ws t) = applyAll ws t := by
  -- what a list of writes does below a key, shorter writes do to the table there
  induction n generalizing ws t with
  | zero =>
    cases ws with
    | nil => rfl
    | cons w ws => exact absurd (hn w List.mem_cons_self) (Nat.not_lt_zero _)
  | succ n ih =>
    have once := ordered_applyAll ht hw
    apply (ordered_applyAll once hw).sorted.ext once.sorted
    intro key
    rw [lookup_applyAll, lookup_applyAll]
    by_cases set : ∃ v, EntryWrite.put v ∈ ws.filterMap (effect? key)
    · exact EntryWrite.applyAll_eq_of_put set _ _
    obtain ⟨below, eq⟩ := EntryWrite.exists_map_below set
    rw [eq]
    have mem : ∀ w ∈ below, w.below key ∈ ws := by
      intro w hw
      have hw : EntryWrite.below w ∈ ws.filterMap (effect? key) := eq ▸ List.mem_map_of_mem hw
      obtain ⟨u, hu, he⟩ := List.mem_filterMap.1 hw
      rwa [← eq_below_of_effect? he]
    apply EntryWrite.applyAll_below_applyAll_below
    · intro sub hl
      exact ht.of_lookup hl
    · intro sub hsub
      apply ih _ _ hsub
      · intro w h
        exact Nat.lt_of_succ_lt_succ (hn _ (mem w h))
      · intro w h
        exact hw (w.below key) (mem w h)

theorem applyAll_applyAll {ws : List Write} {t : Table}
    (hw : ∀ w ∈ ws, ∀ v, w.value = some v → v.Ordered) (ht : t.Ordered) :
    applyAll ws (applyAll ws t) = applyAll ws t := by
  have bound : ∀ w ∈ ws, w.parents.length < (ws.map (·.parents.length)).max?.getD 0 + 1 := by
    intro w h
    exact Nat.lt_succ_of_le (List.le_max?_getD_of_mem (List.mem_map_of_mem h))
  exact applyAll_applyAll_of_length bound hw ht

end Write

end DottedPatch.Toml.Table
