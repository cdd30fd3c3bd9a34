import DottedPatch.Toml.Entries
import Mathlib.Data.List.Induction

namespace DottedPatch.Toml.Entries

variable {α β : Type}

@[simp] theorem lookup_insert_self (key : String) (v : α) (es : Entries α) :
    lookup key (insert key v es) = some v := by
  simp [lookup_insert]

theorem lookup_insert_of_ne {key other : String} (h : key ≠ other) (v : α) (es : Entries α) :
    lookup other (insert key v es) = lookup other es := by
  simp [lookup_insert, h]

theorem insert_insert (key : String) (v w : α) (es : Entries α) :
    insert key w (insert key v es) = insert key w es := by
  induction es with
  | nil => simp [insert]
  | cons e es ih =>
    obtain ⟨k, u⟩ := e
    by_cases same : k = key
    · simp [insert, same]
    · by_cases before : key < k
      · simp [insert, same, before]
      · simp [insert, same, before, ih]

theorem insert_comm_of_lt {a b : String} (lt : a < b) (v w : α) (es : Entries α) :
    insert a v (insert b w es) = insert b w (insert a v es) := by
  have ne : a ≠ b := fun eq => String.lt_irrefl b (eq ▸ lt)
  have nlt : ¬b < a := fun gt => String.lt_irrefl a (String.lt_trans lt gt)
  induction es with
  | nil => simp [insert, ne, Ne.symm ne, lt, nlt]
  | cons e es ih =>
    obtain ⟨k, u⟩ := e
    by_cases ha : k = a
    · subst ha
      simp [insert, ne, nlt]
    by_cases hb : k = b
    · subst hb
      simp [insert, ne, Ne.symm ne, lt, nlt]
    by_cases before : a < k
    · by_cases behind : b < k
      · simp [insert, ne, Ne.symm ne, ha, hb, before, behind, lt, nlt]
      · simp [insert, ne, ha, hb, before, behind, nlt]
    · have behind : ¬b < k := fun hbk => before (String.lt_trans lt hbk)
      simp [insert, ha, hb, before, behind, ih]

theorem insert_comm {a b : String} (ne : a ≠ b) (v w : α) (es : Entries α) :
    insert a v (insert b w es) = insert b w (insert a v es) := by
  by_cases lt : a < b
  · exact insert_comm_of_lt lt v w es
  · exact (insert_comm_of_lt (lt_of_not_lt lt ne) w v es).symm

@[simp] theorem lookup_erase_self (key : String) (es : Entries α) :
    lookup key (erase key es) = none := by
  simp [lookup_erase]

theorem lookup_erase_of_ne {key other : String} (h : key ≠ other) (es : Entries α) :
    lookup other (erase key es) = lookup other es := by
  simp [lookup_erase, h]

theorem mem_of_lookup {key : String} {v : α} {es : Entries α} (h : lookup key es = some v) :
    (key, v) ∈ es := by
  induction es with
  | nil => simp at h
  | cons e es ih =>
    obtain ⟨k, w⟩ := e
    simp only [lookup] at h
    split at h
    · rename_i eq
      simp_all
    · exact List.mem_cons_of_mem _ (ih h)

theorem lookup_eq_none_of_forall_ne {key : String} {es : Entries α} (h : ∀ e ∈ es, e.1 ≠ key) :
    lookup key es = none := by
  induction es with
  | nil => rfl
  | cons e es ih =>
    obtain ⟨k, w⟩ := e
    simp only [lookup]
    rw [if_neg (h (k, w) List.mem_cons_self)]
    exact ih fun e he => h e (List.mem_cons_of_mem _ he)

theorem mem_of_mem_erase {key : String} {e : String × α} {es : Entries α} (h : e ∈ erase key es) :
    e ∈ es := by
  induction es with
  | nil => simp [erase] at h
  | cons d es ih =>
    obtain ⟨k, w⟩ := d
    simp only [erase] at h
    split at h
    · exact List.mem_cons_of_mem _ (ih h)
    · rcases List.mem_cons.1 h with rfl | h
      · exact List.mem_cons_self
      · exact List.mem_cons_of_mem _ (ih h)

theorem mem_insert {key : String} {v : α} {e : String × α} {es : Entries α}
    (h : e ∈ insert key v es) : e = (key, v) ∨ e ∈ es := by
  induction es with
  | nil => simpa [insert] using h
  | cons d es ih =>
    obtain ⟨k, w⟩ := d
    simp only [insert] at h
    split at h
    · rcases List.mem_cons.1 h with rfl | h
      · exact .inl rfl
      · exact .inr (List.mem_cons_of_mem _ h)
    · split at h
      · exact List.mem_cons.1 h
      · rcases List.mem_cons.1 h with rfl | h
        · exact .inr List.mem_cons_self
        · exact (ih h).imp_right (List.mem_cons_of_mem _)

namespace Sorted

theorem nil : Sorted ([] : Entries α) := List.Pairwise.nil

theorem tail {e : String × α} {es : Entries α} (h : Sorted (e :: es)) : Sorted es :=
  (List.pairwise_cons.1 h).2

theorem head_lt {e d : String × α} {es : Entries α} (h : Sorted (e :: es)) (hd : d ∈ es) :
    e.1 < d.1 :=
  (List.pairwise_cons.1 h).1 d hd

theorem erase {key : String} {es : Entries α} (h : Sorted es) : Sorted (erase key es) := by
  induction es with
  | nil => exact nil
  | cons e es ih =>
    obtain ⟨k, w⟩ := e
    simp only [Entries.erase]
    split
    · exact ih h.tail
    · exact List.pairwise_cons.2 ⟨fun d hd => h.head_lt (mem_of_mem_erase hd), ih h.tail⟩

theorem lookup_head_tail {key : String} {v : α} {es : Entries α} (h : Sorted ((key, v) :: es)) :
    lookup key es = none :=
  lookup_eq_none_of_forall_ne fun _ he eq => String.lt_irrefl key (eq ▸ h.head_lt he)

theorem insert_head {key : String} {v : α} {es : Entries α} (h : Sorted ((key, v) :: es)) :
    Entries.insert key v es = (key, v) :: es := by
  cases es with
  | nil => rfl
  | cons e es =>
    have lt : key < e.1 := h.head_lt List.mem_cons_self
    have ne : e.1 ≠ key := fun eq => String.lt_irrefl key (eq ▸ lt)
    rw [Entries.insert, if_neg ne, if_pos lt]

theorem lookup_eq_some_iff {key : String} {v : α} {es : Entries α} (h : Sorted es) :
    lookup key es = some v ↔ (key, v) ∈ es := by
  refine ⟨mem_of_lookup, fun hm => ?_⟩
  induction es with
  | nil => simp at hm
  | cons e es ih =>
    obtain ⟨k, w⟩ := e
    simp only [lookup]
    rcases List.mem_cons.1 hm with eq | hm
    · simp_all
    · rw [if_neg fun eq => String.lt_irrefl key (by simpa [eq] using h.head_lt hm)]
      exact ih h.tail hm

theorem ext {es fs : Entries α} (he : Sorted es) (hf : Sorted fs)
    (h : ∀ key, lookup key es = lookup key fs) : es = fs := by
  induction es generalizing fs with
  | nil =>
    cases fs with
    | nil => rfl
    | cons f fs =>
      obtain ⟨k, w⟩ := f
      simpa [lookup] using h k
  | cons e es ih =>
    obtain ⟨k, v⟩ := e
    cases fs with
    | nil => simpa [lookup] using h k
    | cons f fs =>
      obtain ⟨l, w⟩ := f
      have hk : k = l := Classical.byContradiction fun ne => by
        have hk : lookup k ((l, w) :: fs) = some v := by rw [← h k]; simp [lookup]
        have hl : lookup l ((k, v) :: es) = some w := by rw [h l]; simp [lookup]
        have hkf : (k, v) ∈ fs := by simpa [ne] using mem_of_lookup hk
        have hle : (l, w) ∈ es := by simpa [Ne.symm ne] using mem_of_lookup hl
        exact String.lt_irrefl k (String.lt_trans (he.head_lt hle) (hf.head_lt hkf))
      subst l
      have hv : v = w := by simpa [lookup] using h k
      subst w
      rw [ih he.tail hf.tail fun key => ?_]
      by_cases eq : k = key
      · subst key
        rw [he.lookup_head_tail, hf.lookup_head_tail]
      · simpa [lookup, eq] using h key

theorem insert_erase {key : String} {v : α} {es : Entries α} (h : Sorted es)
    (hv : lookup key es = some v) : Entries.insert key v (Entries.erase key es) = es := by
  apply h.erase.insert.ext h
  intro other
  rw [lookup_insert, lookup_erase]
  split
  · rename_i eq
    rw [← eq, hv]
  · rfl

end Sorted

theorem ofList_concat (es : List (String × α)) (key : String) (v : α) :
    ofList (es ++ [(key, v)]) = insert key v (ofList es) := by
  simp [ofList, List.foldl_append]

def valueFor (key : String) (e : String × α) : Option α := if e.1 = key then some e.2 else none

theorem bind_valueFor_eq_some_iff {e : Option (String × α)} {key : String} {v : α} :
    e.bind (valueFor key) = some v ↔ e = some (key, v) := by
  cases e with
  | none => simp
  | some e =>
    obtain ⟨k, w⟩ := e
    by_cases eq : k = key <;> simp [valueFor, eq]

theorem bind_valueFor_eq_none_iff {e : Option (String × α)} {key : String} :
    e.bind (valueFor key) = none ↔ ∀ v, e ≠ some (key, v) := by
  rw [Option.eq_none_iff_forall_ne_some]
  exact forall_congr' fun v => not_congr bind_valueFor_eq_some_iff

variable {β : Type} {f : β → Option (String × α)} {xs : List β} {key : String} {v : α}

theorem lookup_ofList_filterMap (f : β → Option (String × α)) (xs : List β) (key : String) :
    lookup key (ofList (xs.filterMap f)) =
      xs.reverse.findSome? fun x => (f x).bind (valueFor key) := by
  induction xs using List.reverseRecOn with
  | nil => rfl
  | append_singleton xs x ih =>
    rw [List.filterMap_append, List.reverse_append, List.reverse_singleton, List.singleton_append,
      List.findSome?_cons]
    cases h : f x with
    | none => simpa [h] using ih
    | some e =>
      obtain ⟨k, w⟩ := e
      rw [List.filterMap_cons_some h, List.filterMap_nil, ofList_concat, lookup_insert, ih]
      by_cases eq : k = key <;> simp [valueFor, eq]

theorem lookup_ofList_eq_none_iff :
    lookup key (ofList (xs.filterMap f)) = none ↔ ∀ x ∈ xs, ∀ w, f x ≠ some (key, w) := by
  rw [lookup_ofList_filterMap, List.findSome?_eq_none_iff]
  simp only [List.mem_reverse, bind_valueFor_eq_none_iff]

theorem lookup_ofList_eq_some_iff :
    lookup key (ofList (xs.filterMap f)) = some v ↔
      ∃ before x after, xs = before ++ x :: after ∧ f x = some (key, v) ∧
        ∀ y ∈ after, ∀ w, f y ≠ some (key, w) := by
  rw [lookup_ofList_filterMap, List.findSome?_eq_some_iff]
  simp only [bind_valueFor_eq_some_iff, bind_valueFor_eq_none_iff, List.reverse_eq_iff]
  constructor
  · rintro ⟨after, x, before, rfl, hx, later⟩
    exact ⟨before.reverse, x, after.reverse, by simp, hx, fun y hy => later y (List.mem_reverse.1 hy)⟩
  · rintro ⟨before, x, after, rfl, hx, later⟩
    exact ⟨after.reverse, x, before.reverse, by simp, hx, fun y hy => later y (List.mem_reverse.1 hy)⟩

end DottedPatch.Toml.Entries
