import DottedPatch.Proofs.Text.Pieces
import DottedPatch.Toml.Path

namespace DottedPatch.Toml

/-- A key that a dotted path gives back as it is. -/
def DotFree (key : String) : Prop := '.' ∉ key.toList

instance (key : String) : Decidable (DotFree key) := inferInstanceAs (Decidable (_ ∉ _))

theorem DotFree.pathOf {key : String} (h : DotFree key) : pathOf key = [key] := by
  simp [Toml.pathOf, Text.splitOn, List.splitOn_eq_singleton h]

theorem pathOf_ne_nil (text : String) : pathOf text ≠ [] := by simp [pathOf, Text.splitOn]

theorem exists_pathOf {key : String} (h : ¬DotFree key) :
    ∃ first next rest, pathOf key = first :: next :: rest := by
  have dot : '.' ∈ key.toList := Classical.not_not.1 h
  obtain ⟨before, after, eq⟩ := List.append_of_mem dot
  have pieces : pathOf key =
      ((before.splitOn '.') ++ (after.splitOn '.')).map String.ofList := by
    rw [pathOf, Text.splitOn, eq, List.splitOn_append_cons_self]
  rw [pieces]
  cases hb : before.splitOn '.' with
  | nil => simp at hb
  | cons first bs =>
    cases ha : after.splitOn '.' with
    | nil => simp at ha
    | cons next as =>
      cases bs with
      | nil => exact ⟨_, _, _, rfl⟩
      | cons other bs => exact ⟨_, _, _, rfl⟩

theorem pathOf_append (above key : String) : pathOf (above ++ "." ++ key) = pathOf above ++ pathOf key :=
  Text.splitOn_append ..

@[simp] theorem dotted_singleton (key : String) : dotted [key] = key := by
  simp [dotted, Text.join]

theorem dotted_append {above path : List String} (ha : above ≠ []) (hp : path ≠ []) :
    dotted (above ++ path) = dotted above ++ "." ++ dotted path :=
  Text.join_append ha hp

theorem dotted_concat_inj {above : List String} {key key' : String} :
    dotted (above ++ [key]) = dotted (above ++ [key']) ↔ key = key' := by
  by_cases ha : above = []
  · simp [ha]
  · simp [dotted_append ha]

theorem pathOf_dotted_append {above : List String} (ha : above ≠ []) (key : String) :
    pathOf (dotted (above ++ [key])) = pathOf (dotted above) ++ pathOf key := by
  rw [dotted_append ha (by simp), dotted_singleton, pathOf_append]

theorem pathOf_dotted {path : List String} (hp : path ≠ []) (h : ∀ key ∈ path, DotFree key) :
    pathOf (dotted path) = path := Text.splitOn_join hp h

namespace Table

/-- Neither path lies within the other. -/
def Apart (p q : List String) : Prop := ¬p <+: q ∧ ¬q <+: p

instance : DecidableRel Apart := fun _ _ => inferInstanceAs (Decidable (_ ∧ _))

theorem Apart.symm {p q : List String} (h : Apart p q) : Apart q p := ⟨h.2, h.1⟩

theorem Apart.of_cons {key : String} {p q : List String} (h : Apart (key :: p) (key :: q)) : Apart p q :=
  ⟨fun hp => h.1 (List.cons_prefix_cons.2 ⟨rfl, hp⟩), fun hp => h.2 (List.cons_prefix_cons.2 ⟨rfl, hp⟩)⟩

theorem Apart.cons {p q : List String} (h : Apart p q) (key : String) : Apart (key :: p) (key :: q) :=
  ⟨fun hp => h.1 (List.cons_prefix_cons.1 hp).2, fun hp => h.2 (List.cons_prefix_cons.1 hp).2⟩

theorem apart_of_ne {key other : String} (ne : key ≠ other) (p q : List String) :
    Apart (key :: p) (other :: q) :=
  ⟨fun hp => ne (List.cons_prefix_cons.1 hp).1, fun hp => ne (List.cons_prefix_cons.1 hp).1.symm⟩

theorem Apart.ne_nil {p q : List String} (h : Apart p q) : p ≠ [] := by
  rintro rfl
  exact h.1 List.nil_prefix

@[elab_as_elim]
theorem Apart.induction {motive : ∀ p q, Apart p q → Prop}
    (parted : ∀ {key other} (ne : key ≠ other) (p q),
      motive (key :: p) (other :: q) (apart_of_ne ne p q))
    (shared : ∀ key {p q} (h : Apart p q), motive p q h →
      motive (key :: p) (key :: q) (h.cons key))
    {p q : List String} (h : Apart p q) : motive p q h := by
  induction p generalizing q with
  | nil => exact absurd rfl h.ne_nil
  | cons key p ih =>
    cases q with
    | nil => exact absurd rfl h.symm.ne_nil
    | cons other q =>
      by_cases same : key = other
      · subst same
        exact shared key h.of_cons (ih h.of_cons)
      · exact parted same p q

end Table

end DottedPatch.Toml
