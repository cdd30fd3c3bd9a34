import DottedPatch.Toml.Entries

namespace DottedPatch.Config

open Toml

structure StringSet where
  toList : List String := []
  sorted : toList.Pairwise (· < ·) := by decide
  deriving DecidableEq

structure StringMap where
  entries : Entries String := []
  sorted : Entries.Sorted entries := by decide
  deriving DecidableEq

namespace StringSet

def insert (s : String) : List String → List String
  | [] => [s]
  | t :: ts => if s = t then t :: ts else if s < t then s :: t :: ts else t :: insert s ts

theorem mem_insert {s u : String} {ts : List String} : u ∈ insert s ts ↔ u = s ∨ u ∈ ts := by
  induction ts with
  | nil => simp [insert]
  | cons t ts ih =>
    simp only [insert]
    split
    · subst s; simp
    · split <;> simp [ih, or_left_comm]

theorem sorted_insert (s : String) {ts : List String} (h : ts.Pairwise (· < ·)) :
    (insert s ts).Pairwise (· < ·) := by
  induction ts with
  | nil => simp [insert]
  | cons t ts ih =>
    rw [List.pairwise_cons] at h
    simp only [insert]
    split
    · exact List.pairwise_cons.2 h
    · split
      · rename_i hlt
        refine List.pairwise_cons.2 ⟨fun u hu => ?_, List.pairwise_cons.2 h⟩
        rcases List.mem_cons.1 hu with rfl | hu
        · exact hlt
        · exact String.lt_trans hlt (h.1 u hu)
      · rename_i hne hlt
        refine List.pairwise_cons.2 ⟨fun u hu => ?_, ih h.2⟩
        rcases mem_insert.1 hu with rfl | hu
        · exact Entries.lt_of_not_lt hlt hne
        · exact h.1 u hu

theorem sorted_ofList (ss : List String) : (ss.foldr insert []).Pairwise (· < ·) := by
  induction ss with
  | nil => simp
  | cons s ss ih => exact sorted_insert s ih

def ofList (ss : List String) : StringSet := ⟨ss.foldr insert [], sorted_ofList ss⟩

end StringSet

def StringMap.ofList (es : List (String × String)) : StringMap :=
  ⟨Entries.ofList es, Entries.sorted_ofList es⟩

end DottedPatch.Config
