import DottedPatch.Proofs.Text.Pieces
import Mathlib.Logic.Relation

/-! Surplus delimiters: those at the ends of a text, and those beside another one. Every text is a join of
pieces that are not empty, padded with them. -/

namespace DottedPatch.Text

variable {d : Char}

/-- A delimiter more, at an end of the text or beside another one. -/
inductive Pads (d : Char) : (short long : String) → Prop
  | front (s : String) : Pads d s (.singleton d ++ s)
  | back (s : String) : Pads d s (s ++ .singleton d)
  | beside (before after : String) :
    Pads d (before ++ .singleton d ++ after) (before ++ .singleton d ++ (.singleton d ++ after))

def Padded (d : Char) : (short long : String) → Prop := Relation.ReflTransGen (Pads d)

theorem Pads.ne_empty {s u : String} (h : Pads d s u) : u ≠ "" := by
  cases h with
  | front | back | beside => simp

theorem Pads.behind {s u : String} (h : Pads d s u) (before : String) :
    Pads d (before ++ .singleton d ++ s) (before ++ .singleton d ++ u) := by
  cases h with
  | front => exact .beside before s
  | back => simpa only [String.append_assoc] using Pads.back (before ++ .singleton d ++ s)
  | beside mid after =>
    simpa only [String.append_assoc] using Pads.beside (before ++ .singleton d ++ mid) after

theorem Padded.behind {s u : String} (h : Padded d s u) (before : String) :
    Padded d (before ++ .singleton d ++ s) (before ++ .singleton d ++ u) := by
  induction h with
  | refl => exact .refl
  | tail _ pads ih => exact ih.tail (pads.behind before)

theorem padded_join_filter {pieces : List String} (h : pieces ≠ []) :
    Padded d (join d (pieces.filter (· ≠ ""))) (join d pieces) := by
  induction pieces with
  | nil => exact absurd rfl h
  | cons piece pieces ih =>
    by_cases rest : pieces = []
    · subst rest
      by_cases empty : piece = ""
      · subst empty
        exact .refl
      · rw [List.filter_cons_of_pos (by simpa using empty)]
        exact .refl
    · rw [join_cons rest]
      by_cases empty : piece = ""
      · subst empty
        rw [List.filter_cons_of_neg (by simp), String.empty_append]
        exact (ih rest).tail (.front _)
      · rw [List.filter_cons_of_pos (by simpa using empty)]
        by_cases none : pieces.filter (· ≠ "") = []
        · -- The piece is the last one, and a delimiter follows it.
          have first : Padded d piece (piece ++ .singleton d) := .single (.back piece)
          have below := (ih rest).behind piece
          rw [none, show join d [] = "" from rfl, String.append_empty] at below
          rw [none]
          exact first.trans below
        · rw [join_cons none]
          exact (ih rest).behind piece

theorem splitOn_front (d : Char) (s : String) :
    splitOn d (.singleton d ++ s) = "" :: splitOn d s := by
  simpa [splitOn] using @splitOn_append d "" s

theorem empty_mem_splitOn {s u : String} (h : Pads d s u) : "" ∈ splitOn d u := by
  cases h with
  | front => simp [splitOn_front]
  | back =>
    have pieces := @splitOn_append d s ""
    rw [String.append_empty] at pieces
    rw [pieces]
    exact List.mem_append_right _ (by simp [splitOn])
  | beside before after =>
    rw [splitOn_append, splitOn_front]
    exact List.mem_append_right _ List.mem_cons_self

theorem not_pads_join {items : List String} (h : ∀ item ∈ items, item ≠ "" ∧ d ∉ item.toList)
    (s : String) : ¬Pads d s (join d items) := by
  intro pads
  have empty := empty_mem_splitOn pads
  by_cases none : items = []
  · subst none
    exact pads.ne_empty rfl
  · rw [splitOn_join none fun item hi => (h item hi).2] at empty
    exact (h "" empty).1 rfl

end DottedPatch.Text
