import DottedPatch.Proofs.Toml.Walks
import DottedPatch.Proofs.Toml.Writes

namespace DottedPatch.Toml.Table

theorem insertPath_comm {p q : List String} (h : Apart p q) (v w : Value) (t : Table) :
    insertPath v p (insertPath w q t) = insertPath w q (insertPath v p t) := by
  induction h using Apart.induction generalizing t with
  | @parted key other ne p q =>
    obtain ⟨entry, hp⟩ := exists_insertPath_cons key p v
    obtain ⟨entry', hq⟩ := exists_insertPath_cons other q w
    rw [hp, hq, hq, hp, Entries.lookup_insert_of_ne (Ne.symm ne), Entries.lookup_insert_of_ne ne,
      Entries.insert_comm ne]
  | @shared key p q h ih =>
    have hp : p ≠ [] := h.ne_nil
    have hq : q ≠ [] := h.symm.ne_nil
    rw [insertPath_cons hp, insertPath_cons hq, insertPath_cons hq, insertPath_cons hp,
      below_insert, below_insert, Entries.insert_insert, Entries.insert_insert, ih]

/-- What was set at a path, beside what there was before. -/
structure SetAt (path : List String) (value : Option Value) (before after : Table) : Prop where
  holds : lookupPath path after = value
  sections : ∀ q, q <+: path → q ≠ path → HasTable q after
  others : ∀ q, Apart path q → lookupPath q after = lookupPath q before

namespace Write

variable {w u : Write} {t t' : Table}

theorem hasTable_run? (h : w.run? t = some t') {q : List String} (hq : q <+: w.parents) :
    HasTable q t' := by
  obtain ⟨parents, name, v⟩ := w
  induction parents generalizing t t' q with
  | nil => exact .inl (List.prefix_nil.1 hq)
  | cons key parents ih =>
    obtain ⟨sub, sub', hs, rfl, -⟩ := run?_below_eq_some (w := ⟨parents, name, v⟩) h
    cases q with
    | nil => exact .inl rfl
    | cons k rest =>
      obtain ⟨rfl, hrest⟩ := List.cons_prefix_cons.1 hq
      rcases ih hs hrest with rfl | ⟨inner, hinner⟩
      · exact .inr ⟨sub', Entries.lookup_insert_self _ _ _⟩
      · have ne : rest ≠ [] := by
          rintro rfl
          cases hinner
        exact .inr ⟨inner, (lookupPath_cons_of_table ne (Entries.lookup_insert_self _ _ _)).trans hinner⟩

theorem setAt_run? (h : w.run? t = some t') : SetAt w.path w.value t t' where
  holds := lookupPath_run? h
  sections _ hq ne := hasTable_run? h ((List.prefix_concat_iff.1 hq).resolve_left ne)
  others _ hq := lookupPath_run?_of_apart h hq

theorem path_of_effect?_put {key : String} {v : Option Value} (h : w.effect? key = some (.put v)) :
    w.path = [key] := by
  obtain ⟨parents, name, value⟩ := w
  cases parents with
  | nil =>
    simp only [effect?] at h
    split at h
    · rename_i eq
      rw [path, eq]
      rfl
    · cases h
  | cons k parents =>
    simp only [effect?] at h
    split at h <;> cases h

theorem head_of_effect? {key : String} {e : EntryWrite} (h : w.effect? key = some e) :
    [key] <+: w.path := by
  cases e with
  | put v => exact path_of_effect?_put h ▸ List.prefix_rfl
  | below w' =>
    rw [eq_below_of_effect? h]
    exact ⟨w'.path, rfl⟩

theorem below_of_apart (h : Apart w.path u.path) {key : String} {e f : EntryWrite}
    (he : w.effect? key = some e) (hf : u.effect? key = some f) :
    ∃ w' u', e = .below w' ∧ f = .below u' ∧ w = w'.below key ∧ u = u'.below key ∧
      Apart w'.path u'.path := by
  cases e with
  | put v => exact absurd (path_of_effect?_put he ▸ head_of_effect? hf) h.1
  | below w' =>
    cases f with
    | put v => exact absurd (path_of_effect?_put hf ▸ head_of_effect? he) h.2
    | below u' =>
      obtain rfl := eq_below_of_effect? he
      obtain rfl := eq_below_of_effect? hf
      exact ⟨w', u', rfl, rfl, rfl, rfl, h.of_cons⟩

theorem isSome_run?_below (key : String) (u : Write) (t : Table) :
    ((u.below key).run? t).isSome =
      match Entries.lookup key t with
      | none => true
      | some (.table sub) => (u.run? sub).isSome
      | some _ => false := by
  cases hl : Entries.lookup key t with
  | none => rw [run?_below_none hl, run?_empty]; rfl
  | some v =>
    cases v with
    | table sub => rw [run?_below_table hl, Option.isSome_map]
    | scalar | array => rw [run?_below_blocked hl rfl]; rfl

theorem isSome_run? (u : Write) (t : Table) : (u.run? t).isSome = !blocked u.path t := by
  obtain ⟨parents, name, v⟩ := u
  induction parents generalizing t with
  | nil => rfl
  | cons key parents ih =>
    have below := isSome_run?_below key ⟨parents, name, v⟩ t
    have ne : path ⟨parents, name, v⟩ ≠ [] := by simp [path]
    rw [show Write.below key ⟨parents, name, v⟩ = ⟨key :: parents, name, v⟩ from rfl] at below
    rw [below, show path ⟨key :: parents, name, v⟩ = key :: path ⟨parents, name, v⟩ from rfl]
    cases hl : Entries.lookup key t with
    | none => rw [blocked_of_none hl]; rfl
    | some x =>
      cases x with
      | table sub => rw [blocked_of_table ne hl]; exact ih sub
      | scalar | array => rw [blocked_of_not_table ne hl rfl]; rfl

theorem isSome_run?_iff {u : Write} {t : Table} :
    (u.run? t).isSome ↔ ∀ q v, q <+: u.parents → lookupPath q t = some v → v.isTable := by
  rw [isSome_run?, Bool.not_eq_true', ← Bool.not_eq_true, blocked_iff]
  constructor
  · intro h q v hq hv
    refine Option.isSome_iff_ne_none.2 fun hvt => h ⟨q, v, ?_, ?_, hv, hvt⟩
    · exact hq.trans (List.prefix_append _ _)
    · rintro rfl
      exact absurd hq.length_le (by simp [path])
  · rintro h ⟨q, v, hq, ne, hv, hvt⟩
    have isTable := h q v ((List.prefix_concat_iff.1 hq).resolve_left ne) hv
    simp [Value.isTable, hvt] at isTable

theorem isSome_run?_apply (h : Apart w.path u.path) (t : Table) :
    (u.run? (w.apply t)).isSome = (u.run? t).isSome := by
  obtain ⟨parents, name, v⟩ := u
  induction parents generalizing w t with
  | nil => rfl
  | cons key parents ih =>
    have run := isSome_run?_below key ⟨parents, name, v⟩
    rw [show below key ⟨parents, name, v⟩ = ⟨key :: parents, name, v⟩ from rfl] at run
    rw [run, run, lookup_apply]
    cases he : w.effect? key with
    | none => rfl
    | some e =>
      have hu : effect? key ⟨key :: parents, name, v⟩ = some (.below ⟨parents, name, v⟩) := if_pos rfl
      obtain ⟨w', u', rfl, hu', -, -, apart⟩ := below_of_apart h he hu
      obtain rfl := EntryWrite.below.inj hu'
      cases Entries.lookup key t with
      | none =>
        have made := ih empty apart
        rwa [run?_empty ⟨parents, name, v⟩] at made
      | some x =>
        cases x with
        | table sub => exact ih sub apart
        | scalar | array => rfl

theorem apply_comm_of_below (ht : t.Ordered) (hw : ∀ v, w.value = some v → v.Ordered)
    (hu : ∀ v, u.value = some v → v.Ordered) (h : Apart w.path u.path)
    (sub : ∀ key w' u', w = below key w' → u = below key u' → ∀ s : Table, s.Ordered →
      u'.apply (w'.apply s) = w'.apply (u'.apply s)) : u.apply (w.apply t) = w.apply (u.apply t) := by
  have left := ordered_apply (ordered_apply ht hw) hu
  have right := ordered_apply (ordered_apply ht hu) hw
  refine left.sorted.ext right.sorted fun key => ?_
  rw [lookup_apply key u, lookup_apply key w, lookup_apply key w, lookup_apply key u]
  cases he : w.effect? key with
  | none => rfl
  | some e =>
    cases hf : u.effect? key with
    | none => rfl
    | some f =>
      obtain ⟨w', u', rfl, rfl, eq, eq', -⟩ := below_of_apart h he hf
      cases hl : Entries.lookup key t with
      | none => exact congrArg (some ∘ Value.table) (sub key w' u' eq eq' empty .empty)
      | some x =>
        cases x with
        | table s => exact congrArg (some ∘ Value.table) (sub key w' u' eq eq' s (ht.of_lookup hl))
        | scalar | array => rfl

theorem apply_comm (ht : t.Ordered) (hw : ∀ v, w.value = some v → v.Ordered)
    (hu : ∀ v, u.value = some v → v.Ordered) (h : Apart w.path u.path) :
    u.apply (w.apply t) = w.apply (u.apply t) := by
  obtain ⟨parents, name, v⟩ := w
  -- along the path of the first write, which the second one shares as far as it goes
  induction parents generalizing u t with
  | nil => exact apply_comm_of_below ht hw hu h fun _ _ _ eq => nomatch eq
  | cons key parents ih =>
    refine apply_comm_of_below ht hw hu h fun k w' u' eq eq' s hs => ?_
    obtain ⟨⟨⟩, rfl⟩ : key = k ∧ w' = ⟨parents, name, v⟩ := by
      obtain ⟨_, _, _⟩ := w'
      cases eq
      exact ⟨rfl, rfl⟩
    subst eq'
    exact ih hs hu hw h.of_cons

end Write

end DottedPatch.Toml.Table
