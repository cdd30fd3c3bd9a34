import DottedPatch.Proofs.Text.Pieces
import DottedPatch.Settings.Environment
import Mathlib.Data.List.Infix

namespace DottedPatch.Settings

/-- A text and its pieces between two underscores. Each cut is the first one from the left. -/
inductive Cut : List Char → List (List Char) → Prop
  | whole {cs : List Char} : ¬['_', '_'] <:+: cs → Cut cs [cs]
  | cons {piece cs : List Char} {pieces : List (List Char)} : ¬['_', '_'] <:+: piece ++ ['_'] →
      Cut cs pieces → Cut (piece ++ '_' :: '_' :: cs) (piece :: pieces)

theorem levels_cons {c : Char} {cs : List Char} (h : ¬['_', '_'] <+: c :: cs) :
    levels (c :: cs) = (levels cs).modifyHead (c :: ·) := by
  rw [levels]
  rintro cs rfl rfl
  exact h (by simp)

theorem levels_append {piece : List Char} (free : ¬['_', '_'] <:+: piece ++ ['_']) (cs : List Char) :
    levels (piece ++ '_' :: '_' :: cs) = piece :: levels cs := by
  induction piece with
  | nil => rfl
  | cons c piece ih =>
    rw [List.cons_append, List.infix_cons_iff, not_or] at free
    -- A cut within the piece would show with one more underscore already.
    have later : c :: (piece ++ ['_']) <+: c :: (piece ++ '_' :: '_' :: cs) := ⟨'_' :: cs, by simp⟩
    have start : ¬['_', '_'] <+: c :: (piece ++ '_' :: '_' :: cs) := fun h =>
      free.1 (List.prefix_of_prefix_length_le h later (by simp))
    rw [List.cons_append, levels_cons start, ih free.2, List.modifyHead_cons]

theorem levels_of_free {cs : List Char} (free : ¬['_', '_'] <:+: cs) : levels cs = [cs] := by
  induction cs with
  | nil => rfl
  | cons c cs ih =>
    rw [List.infix_cons_iff, not_or] at free
    rw [levels_cons free.1, ih free.2, List.modifyHead_cons]

theorem Cut.levels_eq {cs : List Char} {pieces : List (List Char)} (h : Cut cs pieces) :
    levels cs = pieces := by
  induction h with
  | whole free => exact levels_of_free free
  | cons free _ ih => rw [levels_append free, ih]

theorem Cut.push {c : Char} {cs : List Char} {pieces : List (List Char)}
    (start : ¬['_', '_'] <+: c :: cs) (h : Cut cs pieces) :
    Cut (c :: cs) (pieces.modifyHead (c :: ·)) := by
  cases h with
  | whole free =>
    refine .whole ?_
    rw [List.infix_cons_iff, not_or]
    exact ⟨start, free⟩
  | @cons piece cs pieces free later =>
    have longer : ¬['_', '_'] <:+: c :: piece ++ ['_'] := by
      rw [List.cons_append, List.infix_cons_iff, not_or]
      exact ⟨fun h => start (h.trans ⟨'_' :: cs, by simp⟩), free⟩
    exact .cons longer later

theorem cut_levels (cs : List Char) : Cut cs (levels cs) := by
  fun_induction levels cs with
  | case1 => exact .whole (by simp)
  | case2 cs ih =>
    have free : ¬['_', '_'] <:+: [] ++ ['_'] := by decide
    exact .cons free ih
  | case3 c cs other ih =>
    refine ih.push fun start => ?_
    obtain ⟨rest, eq⟩ := start
    cases eq
    exact other rest rfl rfl

theorem lowercase_eq_empty_iff {s : String} : Text.lowercase s = "" ↔ s = "" := by
  constructor
  · intro h
    have none : Text.lowerChars [] s.toList = [] := by simpa [Text.lowercase] using h
    cases hs : s.toList with
    | nil => simpa using hs
    | cons c cs =>
      rw [hs, Text.lowerChars] at none
      split at none
      · cases none
      · split at none <;> cases none
  · rintro rfl
    rfl

/-- A variable names the path of a setting: after the mark and two underscores come its keys in any case,
none of them empty, with two underscores between them. -/
def Names (mark name : String) (path : List String) : Prop :=
  ∃ rest pieces, name = mark ++ "__" ++ rest ∧ Cut rest.toList pieces ∧ [] ∉ pieces ∧
    path = pieces.map fun piece => Text.lowercase (.ofList piece)

theorem variablePath?_append (mark rest : String) :
    variablePath? mark (mark ++ "__" ++ rest) =
      if [] ∈ levels rest.toList then none
      else some ((levels rest.toList).map fun piece => Text.lowercase (.ofList piece)) := by
  have empty : ((levels rest.toList).map fun piece => Text.lowercase (.ofList piece)).contains "" ↔
      [] ∈ levels rest.toList := by
    simp [lowercase_eq_empty_iff]
  rw [variablePath?, Text.stripLead?_append]
  exact if_congr empty rfl rfl

theorem variablePath?_eq_some_iff {mark name : String} {path : List String} :
    variablePath? mark name = some path ↔ Names mark name path := by
  constructor
  · intro h
    obtain ⟨rest, hrest, -⟩ := Option.bind_eq_some_iff.1 h
    obtain rfl := Text.append_of_stripLead? hrest
    rw [variablePath?_append, Option.ite_none_left_eq_some] at h
    exact ⟨rest, _, rfl, cut_levels _, h.1, (Option.some.inj h.2).symm⟩
  · rintro ⟨rest, pieces, rfl, cut, filled, rfl⟩
    obtain rfl := cut.levels_eq
    rw [variablePath?_append, if_neg filled]

theorem Names.ne_nil {mark name : String} {path : List String} (h : Names mark name path) :
    path ≠ [] := by
  obtain ⟨rest, pieces, -, cut, -, rfl⟩ := h
  generalize rest.toList = cs at cut
  cases cut <;> simp

end DottedPatch.Settings
