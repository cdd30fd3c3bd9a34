import DottedPatch.Proofs.Text.Lines

namespace DottedPatch.Text

def Blank (s : String) : Prop := ∀ c ∈ s.toList, isBlank c

instance : DecidablePred Blank := fun s => decidable_of_iff (s.toList.all isBlank) List.all_eq_true

theorem dropBlank_append {cs : List Char} (h : ∀ c ∈ cs, isBlank c) (ds : List Char) :
    dropBlank (cs ++ ds) = dropBlank ds := List.dropWhile_append_of_pos h

theorem dropBlank_eq_nil {cs : List Char} (h : ∀ c ∈ cs, isBlank c) : dropBlank cs = [] := by
  simpa [dropBlank] using dropBlank_append h []

theorem dropBlank_of_head? {cs : List Char} (h : ∀ c, cs.head? = some c → isBlank c = false) :
    dropBlank cs = cs := by
  cases cs with
  | nil => rfl
  | cons c cs => rw [dropBlank_cons, h c rfl, if_neg Bool.false_ne_true]

theorem dropBlank_append_cons {c : Char} (hc : isBlank c = false) (before after : List Char) :
    dropBlank (before ++ c :: after) = dropBlank before ++ c :: after := by
  induction before with
  | nil => exact dropBlank_of_head? fun d hd => Option.some.inj hd ▸ hc
  | cons d before ih =>
    rw [List.cons_append, dropBlank_cons, dropBlank_cons, ih]
    split <;> rfl

theorem mem_dropWhile {α : Type} {p : α → Bool} {a : α} {as : List α} (ha : p a = false) (h : a ∈ as) :
    a ∈ as.dropWhile p := by
  induction as with
  | nil => cases h
  | cons b as ih =>
    rw [List.dropWhile_cons]
    split
    · rename_i hb
      refine ih ((List.mem_cons.1 h).resolve_left fun eq => ?_)
      simp [← eq, ha] at hb
    · exact h

theorem mem_trim {c : Char} {s : String} (hc : isBlank c = false) (h : c ∈ s.toList) :
    c ∈ (trim s).toList := by
  have front := mem_dropWhile hc h
  simpa [trim, dropBlank] using mem_dropWhile hc (List.mem_reverse.2 front)

theorem trim_append_of_blank {lead : String} (h : Blank lead) (s : String) :
    trim (lead ++ s) = trim s := by
  rw [trim, String.toList_append, dropBlank_append h, trim]

theorem trimEnd_of_blank {s : String} (h : Blank s) : trimEnd s = "" := by
  rw [trimEnd, dropBlank_eq_nil fun c hc => h c (List.mem_reverse.1 hc)]
  rfl

theorem trim_append {s : String} {c : Char} (start : ∀ d, s.toList.head? = some d → isBlank d = false)
    (hc : isBlank c = false) (rest : String) :
    trim (s ++ .singleton c ++ rest) = s ++ .singleton c ++ trimEnd rest := by
  apply String.toList_injective
  simp [trim, trimEnd, dropBlank_append_cons hc, dropBlank_of_head? start]

theorem exists_concat {s : String} (h : s ≠ "") : ∃ init c, s = init ++ .singleton c := by
  rcases List.eq_nil_or_concat s.toList with none | ⟨cs, c, eq⟩
  · exact absurd (by simpa using none) h
  · exact ⟨.ofList cs, c, String.toList_injective (by simp [eq])⟩

theorem trim_of_no_blank {before s after : String} (hb : Blank before) (ha : Blank after) (ne : s ≠ "")
    (h : ∀ c ∈ s.toList, isBlank c = false) : trim (before ++ s ++ after) = s := by
  obtain ⟨init, c, rfl⟩ := exists_concat ne
  have start (d : Char) (hd : init.toList.head? = some d) : isBlank d = false :=
    h d (by simp [List.mem_of_head? hd])
  rw [String.append_assoc, trim_append_of_blank hb, trim_append start (h c (by simp)),
    trimEnd_of_blank ha, String.append_empty]

end DottedPatch.Text
