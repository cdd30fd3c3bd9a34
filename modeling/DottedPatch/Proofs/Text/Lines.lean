import DottedPatch.Proofs.Text.Pieces

namespace DottedPatch.Text

theorem stripReturn_of_getLast? {s : String} (h : s.toList.getLast? ≠ some '\r') :
    stripReturn s = s := by
  rw [stripReturn, dropReturn, if_neg h, String.ofList_toList]

theorem stripReturn_concat (s : String) : stripReturn (s ++ "\r") = s := by
  apply String.toList_injective
  simp [stripReturn, dropReturn]

theorem lines_append {line : String} (h : '\n' ∉ line.toList) (rest : String) :
    lines (line ++ "\n" ++ rest) = stripReturn line :: lines rest := by
  have letters : (line ++ "\n" ++ rest).toList = line.toList ++ '\n' :: rest.toList := by simp
  have pieces : (line ++ "\n" ++ rest).toList.splitOn '\n' =
      line.toList :: rest.toList.splitOn '\n' := by
    rw [letters, List.splitOn_append_cons_self, List.splitOn_eq_singleton h, List.singleton_append]
  have ne : rest.toList.splitOn '\n' ≠ [] := by simp
  simp only [lines, pieces, List.dropLast_cons_of_ne_nil ne, List.getLast?_cons_of_ne_nil ne,
    List.map_cons, List.cons_append, stripReturn]

theorem lines_of_not_mem {line : String} (h : '\n' ∉ line.toList) :
    lines line = if line = "" then [] else [line] := by
  rw [lines, List.splitOn_eq_singleton h]
  by_cases empty : line = ""
  · simp [empty]
  · have some : line.toList ≠ [] := by simpa using empty
    simp [empty, Option.filter, some]

theorem dropReturn_cons {cs : List Char} (c : Char) (h : cs ≠ []) :
    dropReturn (c :: cs) = c :: dropReturn cs := by
  rw [dropReturn, dropReturn, List.getLast?_cons_of_ne_nil h, List.dropLast_cons_of_ne_nil h]
  split <;> rfl

theorem dropBlank_cons (c : Char) (cs : List Char) :
    dropBlank (c :: cs) = if isBlank c then dropBlank cs else c :: cs := by
  rw [dropBlank, List.dropWhile_cons]

theorem head?_dropBlank_dropReturn (cs : List Char) :
    (dropBlank (dropReturn cs)).head? = (dropBlank cs).head? := by
  induction cs with
  | nil => rfl
  | cons c cs ih =>
    by_cases last : cs = []
    · subst last
      by_cases ret : c = '\r'
      · subst ret
        rfl
      · simp [dropReturn, ret]
    · rw [dropReturn_cons c last, dropBlank_cons, dropBlank_cons]
      split
      · exact ih
      · rfl

theorem head?_trim (s : String) : (trim s).toList.head? = (dropBlank s.toList).head? := by
  rw [trim, String.toList_ofList]
  cases h : dropBlank s.toList with
  | nil => rfl
  | cons c rest =>
    have plain : isBlank c = false := by
      have first := List.head?_dropWhile_not isBlank s.toList
      rw [← dropBlank, h] at first
      exact first
    rw [List.reverse_cons, dropBlank, List.dropWhile_append]
    split <;> simp [plain]

end DottedPatch.Text
