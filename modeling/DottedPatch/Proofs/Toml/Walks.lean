import DottedPatch.Proofs.Toml.PathEdits

/-! Walks that make what is missing on their way to a table.

A walk that ends early has made nothing: below a table that it made nothing is in the way. -/

namespace DottedPatch.Toml.Table

def HasTable (path : List String) (t : Table) : Prop :=
  path = [] ∨ ∃ sub, lookupPath path t = some (.table sub)

theorem setPath_cons_of_table {key : String} {rest : List String} (hrest : rest ≠ []) {t sub : Table}
    (h : Entries.lookup key t = some (.table sub)) (v : Option Value) :
    setPath (key :: rest) v t = Entries.insert key (.table (setPath rest v sub)) t := by
  cases v with
  | none => simp [setPath, erasePath_cons hrest, h, Value.table?]
  | some v => simp only [setPath, insertPath_cons hrest, below_of_table h]

namespace Write

theorem run?_eq_setPath {parents : List String} {t : Table} (h : HasTable parents t) (name : String)
    (v : Option Value) : run? ⟨parents, name, v⟩ t = some (setPath (parents ++ [name]) v t) := by
  induction parents generalizing t with
  | nil => cases v <;> rfl
  | cons key parents ih =>
    obtain ⟨sub, hl, hsub⟩ := lookup_of_section h
    have run := run?_below_table hl ⟨parents, name, v⟩
    rw [ih hsub] at run
    rw [List.cons_append, setPath_cons_of_table (by simp) hl]
    exact run

theorem run?_of_blocked {above : List String} {key : String} {rest : List String} {t : Table}
    {u : Value} (h : lookupPath (above ++ [key]) t = some u) (hu : u.table? = none) (name : String)
    (v : Option Value) : run? ⟨above ++ key :: rest, name, v⟩ t = none := by
  induction above generalizing t with
  | nil => exact run?_below_blocked h hu ⟨rest, name, v⟩
  | cons k above ih =>
    obtain ⟨sub, hl, hsub⟩ := (lookupPath_cons_eq_some_iff (by simp)).1 h
    have run := run?_below_table hl ⟨above ++ key :: rest, name, v⟩
    rw [ih hsub] at run
    exact run

theorem run?_of_missing {above : List String} {key : String} {t : Table} (ha : HasTable above t)
    (h : lookupPath (above ++ [key]) t = none) (rest : List String) (name : String)
    (v : Option Value) :
    ∃ t', run? ⟨above ++ key :: rest, name, v⟩ t = some t' ∧
      run? ⟨above ++ key :: rest, name, v⟩ (insertPath (.table empty) (above ++ [key]) t) = some t' := by
  induction above generalizing t with
  | nil =>
    have run := run?_below_none h ⟨rest, name, v⟩
    have made := run?_below_table (Entries.lookup_insert_self key (.table empty) t) ⟨rest, name, v⟩
    simp only [Entries.insert_insert] at made
    rw [run?_empty] at run made
    exact ⟨_, run, made⟩
  | cons k above ih =>
    obtain ⟨sub, hl, hsub⟩ := lookup_of_section ha
    rw [List.cons_append, lookupPath_cons_of_table (by simp) hl] at h
    obtain ⟨sub', hs, hs'⟩ := ih hsub h
    have run := run?_below_table hl ⟨above ++ key :: rest, name, v⟩
    have made := run?_below_table
      (Entries.lookup_insert_self k (.table (insertPath (.table empty) (above ++ [key]) sub)) t)
      ⟨above ++ key :: rest, name, v⟩
    simp only [Entries.insert_insert] at made
    rw [hs] at run
    rw [hs'] at made
    rw [show k :: above ++ [key] = k :: (above ++ [key]) from rfl, insertPath_cons (by simp),
      below_of_table hl]
    exact ⟨_, run, made⟩

end Write

/-- How a walk ends: at its table, and then writes there do what they do without it; or before
another value, and then it has made nothing and writes there are blocked. -/
theorem walk_cases {above : List String} (path : List String) {t : Table} (ha : HasTable above t) :
    ((walk above path t).arrived = true ∧ HasTable (above ++ path) (walk above path t).table ∧
      ∀ name v, Write.run? ⟨above ++ path, name, v⟩ (walk above path t).table =
        Write.run? ⟨above ++ path, name, v⟩ t) ∨
    ((walk above path t).arrived = false ∧ (walk above path t).table = t ∧
      ∀ name v, Write.run? ⟨above ++ path, name, v⟩ t = none) := by
  induction path generalizing above t with
  | nil => exact .inl ⟨rfl, by simpa [walk] using ha, fun _ _ => rfl⟩
  | cons key rest ih =>
    rw [show above ++ key :: rest = (above ++ [key]) ++ rest by simp]
    cases h : lookupPath (above ++ [key]) t with
    | none =>
      have steps : walk above (key :: rest) t =
          walk (above ++ [key]) rest (insertPath (.table empty) (above ++ [key]) t) := by
        simp only [walk, h]
      have made : HasTable (above ++ [key]) (insertPath (.table empty) (above ++ [key]) t) :=
        .inr ⟨_, lookupPath_insertPath (by simp) _ t⟩
      have same (name : String) (v : Option Value) := Write.run?_of_missing ha h rest name v
      simp only [← List.singleton_append (l := rest), ← List.append_assoc] at same
      rw [steps]
      rcases ih made with ⟨arrived, there, writes⟩ | ⟨_, _, blocked⟩
      · refine .inl ⟨arrived, there, fun name v => ?_⟩
        obtain ⟨t', hrun, hmade⟩ := same name v
        rw [writes, hrun, hmade]
      · obtain ⟨t', _, hmade⟩ := same key none
        rw [blocked] at hmade
        cases hmade
    | some u =>
      cases hu : u.table? with
      | some sub =>
        obtain rfl := Value.table?_eq_some.1 hu
        have steps : walk above (key :: rest) t = walk (above ++ [key]) rest t := by
          simp only [walk, h]
        rw [steps]
        exact ih (.inr ⟨sub, h⟩)
      | none =>
        have ends : walk above (key :: rest) t = ⟨t, false⟩ := by
          cases u with
          | table => cases hu
          | scalar | array => simp only [walk, h]
        rw [ends]
        refine .inr ⟨rfl, rfl, fun name v => ?_⟩
        rw [List.append_assoc, List.singleton_append]
        exact Write.run?_of_blocked h hu name v

theorem walk_run? (w : Write) (t : Table) :
    ((walk [] w.parents t).arrived = true ∧
      w.run? t = some (setPath w.path w.value (walk [] w.parents t).table)) ∨
    ((walk [] w.parents t).arrived = false ∧ (walk [] w.parents t).table = t ∧ w.run? t = none) := by
  have whole : HasTable [] t := .inl rfl
  rcases walk_cases w.parents whole with
    ⟨arrived, there, writes⟩ | ⟨ended, same, blocked⟩
  · exact .inl ⟨arrived, (writes _ _).symm.trans (Write.run?_eq_setPath there _ _)⟩
  · exact .inr ⟨ended, same, blocked _ _⟩

theorem arrived_walk (w : Write) (t : Table) : (walk [] w.parents t).arrived = (w.run? t).isSome := by
  rcases walk_run? w t with ⟨arrived, run⟩ | ⟨ended, -, blocked⟩
  · rw [arrived, run]
    rfl
  · rw [ended, blocked]
    rfl

end DottedPatch.Toml.Table
