import DottedPatch.Text.Pieces

namespace DottedPatch.Text

variable {separator : Char}

theorem toList_join (pieces : List String) :
    (join separator pieces).toList = [separator].intercalate (pieces.map String.toList) := by
  simp [join, String.toList_intercalate]

theorem join_cons {piece : String} {pieces : List String} (h : pieces ≠ []) :
    join separator (piece :: pieces) = piece ++ String.singleton separator ++ join separator pieces := by
  have := String.intercalate_append_of_ne_nil (s := String.singleton separator) (l := [piece]) (by simp) h
  simpa [join] using this

theorem join_append {before after : List String} (hb : before ≠ []) (ha : after ≠ []) :
    join separator (before ++ after) =
      join separator before ++ String.singleton separator ++ join separator after :=
  String.intercalate_append_of_ne_nil hb ha

theorem splitOn_ne_nil (separator : Char) (s : String) : splitOn separator s ≠ [] := by
  simp [splitOn]

theorem splitOn_append (before after : String) :
    splitOn separator (before ++ String.singleton separator ++ after) =
      splitOn separator before ++ splitOn separator after := by
  simp [splitOn, List.splitOn_append_cons_self]

theorem splitOn_join {pieces : List String} (hp : pieces ≠ [])
    (h : ∀ piece ∈ pieces, separator ∉ piece.toList) :
    splitOn separator (join separator pieces) = pieces := by
  rw [splitOn, toList_join, List.splitOn_intercalate]
  · simp [Function.comp_def]
  · simpa using h
  · simpa using hp

theorem join_splitOn (separator : Char) (s : String) : join separator (splitOn separator s) = s := by
  apply String.toList_injective
  rw [toList_join, splitOn, List.map_map]
  simp [Function.comp_def, List.intercalate_splitOn]

theorem not_mem_of_mem_splitOn (cs : List Char) :
    ∀ piece ∈ cs.splitOn separator, separator ∉ piece := by
  intro piece hpiece
  by_cases h : separator ∈ cs
  · obtain ⟨before, after, eq, first⟩ := List.eq_append_cons_of_mem h
    rw [eq, List.splitOn_append_cons_self, List.splitOn_eq_singleton first] at hpiece
    rcases List.mem_append.1 hpiece with hpiece | hpiece
    · exact List.mem_singleton.1 hpiece ▸ first
    · have shorter : after.length < cs.length := by simp [eq]; omega
      exact not_mem_of_mem_splitOn after piece hpiece
  · rw [List.splitOn_eq_singleton h] at hpiece
    exact List.mem_singleton.1 hpiece ▸ h
termination_by cs.length

theorem separator_not_mem {s piece : String} (h : piece ∈ splitOn separator s) :
    separator ∉ piece.toList := by
  obtain ⟨cs, hcs, rfl⟩ := List.mem_map.1 h
  simpa using not_mem_of_mem_splitOn _ cs hcs

theorem mem_join {c : Char} {pieces : List String} (hc : c ≠ separator) :
    c ∈ (join separator pieces).toList ↔ ∃ piece ∈ pieces, c ∈ piece.toList := by
  induction pieces with
  | nil => simp [join]
  | cons piece pieces ih =>
    by_cases h : pieces = []
    · simp [h, join]
    · simp [join_cons h, ih, hc]

theorem exists_mem_splitOn {c : Char} (hc : c ≠ separator) {s : String} :
    (∃ piece ∈ splitOn separator s, c ∈ piece.toList) ↔ c ∈ s.toList := by
  rw [← mem_join hc, join_splitOn]

theorem head?_join_cons {c : Char} {piece : String} {pieces : List String} (h : pieces ≠ []) :
    (join c (piece :: pieces)).toList.head? = (piece.toList.head?).or (some c) := by
  rw [join_cons h]
  simp

theorem cut?_eq_none {cs : List Char} (h : separator ∉ cs) : cut? separator cs = none := by
  induction cs with
  | nil => rfl
  | cons c cs ih =>
    obtain ⟨here, later⟩ := not_or.1 (mt List.mem_cons.2 h)
    rw [cut?, if_neg (Ne.symm here), ih later, Option.map_none]

theorem cut?_append {before : List Char} (h : separator ∉ before) (after : List Char) :
    cut? separator (before ++ separator :: after) = some (before, after) := by
  induction before with
  | nil => simp [cut?]
  | cons c before ih =>
    obtain ⟨here, later⟩ := not_or.1 (mt List.mem_cons.2 h)
    rw [List.cons_append, cut?, if_neg (Ne.symm here), ih later, Option.map_some]

theorem splitFirst?_append {before : String} (h : separator ∉ before.toList) (after : String) :
    splitFirst? separator (before ++ String.singleton separator ++ after) = some (before, after) := by
  simp [splitFirst?, cut?_append h]

theorem of_cut? {cs before after : List Char} (h : cut? separator cs = some (before, after)) :
    separator ∉ before ∧ cs = before ++ separator :: after := by
  induction cs generalizing before with
  | nil => cases h
  | cons c cs ih =>
    rw [cut?] at h
    split at h
    · rename_i eq
      subst eq
      obtain ⟨rfl, rfl⟩ := Prod.mk.inj (Option.some.inj h)
      exact ⟨List.not_mem_nil, rfl⟩
    · rename_i ne
      obtain ⟨⟨before', after'⟩, cut, eq⟩ := Option.map_eq_some_iff.1 h
      obtain ⟨rfl, rfl⟩ := Prod.mk.inj eq
      obtain ⟨free, rfl⟩ := ih cut
      exact ⟨by simp [Ne.symm ne, free], rfl⟩

theorem splitFirst?_eq_some_iff {s before after : String} :
    splitFirst? separator s = some (before, after) ↔
      separator ∉ before.toList ∧ s = before ++ .singleton separator ++ after := by
  constructor
  · intro h
    obtain ⟨⟨b, a⟩, cut, eq⟩ := Option.map_eq_some_iff.1 h
    obtain ⟨rfl, rfl⟩ := Prod.mk.inj eq
    obtain ⟨free, text⟩ := of_cut? cut
    refine ⟨by simpa using free, String.toList_injective ?_⟩
    simp [text]
  · rintro ⟨free, rfl⟩
    exact splitFirst?_append free after

theorem splitLast?_cases (separator : Char) (s : String) :
    (splitLast? separator s = none ∧ splitOn separator s = [s]) ∨
      ∃ before last, splitLast? separator s = some (before, last) ∧
        splitOn separator s = splitOn separator before ++ [last] := by
  by_cases h : separator ∈ s.toList
  · obtain ⟨after, before, eq, first⟩ := List.eq_append_cons_of_mem (List.mem_reverse.2 h)
    have text : s.toList = before.reverse ++ separator :: after.reverse := by
      rw [← List.reverse_reverse s.toList, eq]
      simp
    have whole : separator ∉ after.reverse := fun hm => first (List.mem_reverse.1 hm)
    refine .inr ⟨.ofList before.reverse, .ofList after.reverse, ?_, ?_⟩
    · rw [splitLast?, eq, cut?_append first]
      rfl
    · simp [splitOn, text, List.splitOn_append_cons_self, List.splitOn_eq_singleton whole]
  · left
    constructor
    · rw [splitLast?, cut?_eq_none fun hm => h (List.mem_reverse.1 hm), Option.map_none]
    · simp [splitOn, List.splitOn_eq_singleton h]

theorem dropReturn_append {c : Char} (hc : c ≠ '\r') (before after : List Char) :
    dropReturn (before ++ c :: after) = before ++ c :: dropReturn after := by
  cases after with
  | nil => simp [dropReturn, hc]
  | cons d after =>
    have last : (before ++ c :: d :: after).getLast? = (d :: after).getLast? := by
      rw [List.getLast?_append, List.getLast?_cons_cons, Option.or_of_isSome (by simp)]
    rw [dropReturn, dropReturn, last]
    split
    · simp
    · rfl

theorem stripReturn_append (hs : separator ≠ '\r') (before after : String) :
    stripReturn (before ++ String.singleton separator ++ after) =
      before ++ String.singleton separator ++ stripReturn after := by
  apply String.toList_injective
  simp [stripReturn, dropReturn_append hs]

theorem append_of_dropLead? {lead text rest : List Char} (h : dropLead? lead text = some rest) :
    lead ++ rest = text := by
  fun_induction dropLead? lead text with
  | case1 => exact (Option.some.inj h).symm
  | case2 => cases h
  | case3 lead a text ih => exact congrArg (a :: ·) (ih h)
  | case4 => cases h

theorem startsWith_iff {c : Char} {s : String} :
    startsWith (String.singleton c) s ↔ s.toList.head? = some c := by
  rw [startsWith, stripLead?, Option.isSome_map, String.toList_singleton]
  cases s.toList with
  | nil => simp [dropLead?]
  | cons d cs => by_cases h : c = d <;> simp [dropLead?, h, Ne.symm]

theorem dropLead?_append (lead rest : List Char) : dropLead? lead (lead ++ rest) = some rest := by
  induction lead with
  | nil => rfl
  | cons c lead ih => simpa [dropLead?] using ih

theorem stripLead?_append (lead rest : String) : stripLead? lead (lead ++ rest) = some rest := by
  simp [stripLead?, dropLead?_append]

theorem append_of_stripLead? {lead s rest : String} (h : stripLead? lead s = some rest) :
    s = lead ++ rest := by
  obtain ⟨cs, hcs, rfl⟩ := Option.map_eq_some_iff.1 h
  apply String.toList_injective
  simp [append_of_dropLead? hcs]

end DottedPatch.Text
