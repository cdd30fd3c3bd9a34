namespace DottedPatch.Toml

abbrev Entries (α : Type) := List (String × α)

namespace Entries

variable {α : Type}

def lookup (key : String) : Entries α → Option α
  | [] => none
  | (k, v) :: es => if k = key then some v else lookup key es

def insert (key : String) (value : α) : Entries α → Entries α
  | [] => [(key, value)]
  | (k, v) :: es =>
    if k = key then (key, value) :: es
    else if key < k then (key, value) :: (k, v) :: es
    else (k, v) :: insert key value es

def erase (key : String) : Entries α → Entries α
  | [] => []
  | (k, v) :: es => if k = key then erase key es else (k, v) :: erase key es

def ofList (es : List (String × α)) : Entries α := es.foldl (fun acc (k, v) => insert k v acc) []

def Sorted (es : Entries α) : Prop := es.Pairwise (·.1 < ·.1)

instance (es : Entries α) : Decidable (Sorted es) :=
  inferInstanceAs (Decidable (es.Pairwise (·.1 < ·.1)))

theorem lt_of_not_lt {a b : String} (h : ¬a < b) (ne : a ≠ b) : b < a := by
  by_cases k : b < a
  · exact k
  · exact absurd (String.le_antisymm (String.not_lt.1 k) (String.not_lt.1 h)) ne

theorem key_of_mem_insert {key : String} {value : α} {e : String × α} {es : Entries α}
    (h : e ∈ insert key value es) : e.1 = key ∨ e ∈ es := by
  induction es with
  | nil => simp only [insert, List.mem_singleton] at h; exact .inl (h ▸ rfl)
  | cons d es ih =>
    obtain ⟨k, v⟩ := d
    simp only [insert] at h
    split at h
    · rcases List.mem_cons.1 h with rfl | h
      · exact .inl rfl
      · exact .inr (List.mem_cons_of_mem _ h)
    · split at h
      · rcases List.mem_cons.1 h with rfl | h
        · exact .inl rfl
        · exact .inr h
      · rcases List.mem_cons.1 h with rfl | h
        · exact .inr List.mem_cons_self
        · exact (ih h).imp_right (List.mem_cons_of_mem _)

theorem Sorted.insert {key : String} {value : α} {es : Entries α} (h : Sorted es) :
    Sorted (insert key value es) := by
  induction es with
  | nil => simp [Sorted, Entries.insert]
  | cons d es ih =>
    obtain ⟨k, v⟩ := d
    simp only [Sorted, List.pairwise_cons] at h
    simp only [Entries.insert]
    split
    · subst k; exact List.pairwise_cons.2 h
    · rename_i ne
      split
      · rename_i lt
        refine List.pairwise_cons.2 ⟨fun e he => ?_, List.pairwise_cons.2 h⟩
        rcases List.mem_cons.1 he with rfl | he
        · exact lt
        · exact String.lt_trans lt (h.1 e he)
      · rename_i nlt
        refine List.pairwise_cons.2 ⟨fun e he => ?_, ih h.2⟩
        rcases key_of_mem_insert he with eq | he
        · exact eq ▸ lt_of_not_lt nlt (Ne.symm ne)
        · exact h.1 e he

theorem sorted_foldl (es acc : Entries α) (h : Sorted acc) :
    Sorted (es.foldl (fun acc (k, v) => insert k v acc) acc) := by
  induction es generalizing acc with
  | nil => exact h
  | cons e es ih => exact ih _ h.insert

theorem sorted_ofList (es : List (String × α)) : Sorted (ofList es) :=
  sorted_foldl es [] List.Pairwise.nil

@[simp] theorem lookup_nil (key : String) : lookup key ([] : Entries α) = none := rfl

theorem lookup_insert (key other : String) (value : α) (es : Entries α) :
    lookup other (insert key value es) = if key = other then some value else lookup other es := by
  induction es with
  | nil => simp [insert, lookup]
  | cons e es ih =>
    obtain ⟨k, v⟩ := e
    simp only [insert]
    split
    · subst k; simp only [lookup]; split <;> rfl
    · split
      · simp only [lookup]
      · simp only [lookup, ih]
        split
        · split
          · simp_all
          · rfl
        · rfl

theorem lookup_erase (key other : String) (es : Entries α) :
    lookup other (erase key es) = if key = other then none else lookup other es := by
  induction es with
  | nil => simp [erase]
  | cons e es ih =>
    obtain ⟨k, v⟩ := e
    simp only [erase]
    split
    · subst k; simp only [ih, lookup]; split <;> rfl
    · simp only [lookup, ih]
      split
      · split
        · simp_all
        · rfl
      · rfl

end Entries

end DottedPatch.Toml
