import DottedPatch.Proofs.Toml.Printing
import DottedPatch.Proofs.Toml.Regular

namespace DottedPatch.Toml

open Item

namespace Statement

def Whole : Statement → Prop
  | .assign _ item => item.Whole
  | .header _ _ decor => ∃ before after, decor = ⟨some before, some after⟩

def openRegular? : (position : Nat) → List Statement → Members → Option Members
  | _, [], ms => some ms
  | position, .assign _ _ :: rest, ms => openRegular? position rest ms
  | position, .header path element decor :: rest, ms => do
    if ms.agrees element path then
      let fill := Members.fillRegular? (assignments rest)
      let ms ← Members.openTable? { decor, position := some position } element fill path ms
      openRegular? (position + 1) rest ms
    else none

def blocks : (position : Nat) → List Statement → List (Nat × String)
  | _, [] => []
  | position, .assign _ _ :: rest => blocks position rest
  | position, .header path element decor :: rest =>
    (position, (header path element decor).text ++
        linesText ((assignments rest).map fun a => (a.1, a.2.text))) ::
      blocks (position + 1) rest

end Statement

namespace Document

/-- Reads a text in which every dotted key goes on in the table assigned to last or starts one, every
header writes the keys above its own as they were written before, and no two dotted keys of an inline
table go through one table. -/
def regular? (text : String) : Option Document := do
  let cs := dropMark text.toList
  let (statements, trailing) ← Scan.statements (cs.length + 1) [] cs
  if statements.all Statement.unshared then
    let members ← Members.fillRegular? (Statement.assignments statements) []
    let members ← Statement.openRegular? 1 statements members
    return { members, trailing }
  else none

end Document

namespace Scan

theorem whole_header {before : String} {cs rest : List Char} {s : Statement}
    (h : header before cs = some (s, rest)) : s.Whole := by
  obtain ⟨_, _, after, rfl⟩ := exists_header h
  exact ⟨before, after, rfl⟩

theorem whole_assignment {before : String} {cs rest : List Char} {s : Statement}
    (h : assignment before cs = some (s, rest)) : s.Whole := by
  obtain ⟨_, item, _, _, _, ⟨_, _, hitem⟩, rfl⟩ := exists_assignment h
  exact (bare_value hitem).whole _

end Scan

namespace Members

theorem openTable?_mono {head : Head} {element : Bool} {fill fill' : Members → Option Members}
    (hf : ∀ ms ms', fill ms = some ms' → fill' ms = some ms') {path : List Key} {ms ms' : Members}
    (h : openTable? head element fill path ms = some ms') :
    openTable? head element fill' path ms = some ms' := by
  fun_induction openTable? head element fill path ms generalizing ms' with
  | case1 | case4 | case7 | case11 | case12 => cases h
  | case2 | case3 | case5 | case6 =>
    obtain ⟨sub, hsub, rfl⟩ := Option.map_eq_some_iff.1 h
    simp_all [openTable?, hf _ _ hsub]
  | case8 | case9 | case10 =>
    rename_i ih
    obtain ⟨sub, hsub, rfl⟩ := Option.map_eq_some_iff.1 h
    simp_all [openTable?, ih hsub]

end Members

namespace Statement

variable {position : Nat} {statements : List Statement} {ms ms' : Members}

theorem openTables?_of_openRegular? (h : openRegular? position statements ms = some ms') :
    openTables? position statements ms = some ms' := by
  induction statements generalizing position ms with
  | nil => exact h
  | cons s statements ih =>
    cases s with
    | assign => exact ih h
    | header path element decor =>
      rw [openRegular?] at h
      split at h
      · obtain ⟨next, hnext, h⟩ := Option.bind_eq_some_iff.1 h
        have opened := Members.openTable?_mono (fun _ _ => Members.fill?_of_fillRegular?) hnext
        exact Option.bind_eq_some_iff.2 ⟨next, opened, ih h⟩
      · cases h

theorem blocks_openRegular? (hw : ∀ s ∈ statements, s.Whole)
    (h : openRegular? position statements ms = some ms')
    (hs : ∀ s ∈ sections [] ms, s.Settled) :
    (∀ s ∈ sections [] ms', s.Settled) ∧
      ((sections [] ms').filterMap Section.block?).Perm
        (blocks position statements ++ (sections [] ms).filterMap Section.block?) ∧
      Item.assignments [] ms' = Item.assignments [] ms := by
  induction statements generalizing position ms with
  | nil =>
    obtain rfl := Option.some.inj h
    exact ⟨hs, .refl _, rfl⟩
  | cons s statements ih =>
    obtain ⟨hfirst, hrest⟩ := List.forall_mem_cons.1 hw
    cases s with
    | assign => exact ih hrest h hs
    | header path element decor =>
      rw [openRegular?] at h
      split at h
      · rename_i agrees
        obtain ⟨next, hnext, h⟩ := Option.bind_eq_some_iff.1 h
        have whole := forall_assignments (P := Item.Whole) fun _ _ => hrest _
        have added := Members.addsBlock_openTable?
          (fun _ _ => Members.gains_fillRegular? whole) hfirst position element hnext agrees [] hs
        obtain ⟨settled, blocks, same⟩ := ih hrest h added.settled
        refine ⟨settled, ?_, same.trans (Members.assignments_openTable? rfl hnext [])⟩
        exact blocks.trans ((added.blocks.append_left _).trans List.perm_middle)
      · cases h

theorem text_blocks (position : Nat) (statements : List Statement) :
    linesText ((assignments statements).map fun a => (a.1, a.2.text)) ++
        String.join ((blocks position statements).map Prod.snd) =
      String.join (statements.map text) := by
  induction statements generalizing position with
  | nil => simp [assignments, blocks]
  | cons s statements ih =>
    cases s with
    | assign path item =>
      rw [assignments, blocks, List.map_cons, ← List.singleton_append, linesText_append,
        linesText_singleton, String.append_assoc, ih]
      simp [String.join_cons, lineText, text]
    | header path element decor =>
      simp [assignments, blocks, String.join_cons, ← ih (position + 1), String.append_assoc]

theorem le_of_mem_blocks {b : Nat × String} (h : b ∈ blocks position statements) :
    position ≤ b.1 := by
  induction statements generalizing position with
  | nil => cases h
  | cons s statements ih =>
    cases s with
    | assign => exact ih h
    | header =>
      rcases List.mem_cons.1 h with rfl | h
      · exact Nat.le_refl _
      · exact (Nat.le_succ _).trans (ih h)

theorem pairwise_blocks (position : Nat) (statements : List Statement) :
    (blocks position statements).Pairwise (·.1 < ·.1) := by
  induction statements generalizing position with
  | nil => exact .nil
  | cons s statements ih =>
    cases s with
    | assign => exact ih position
    | header => exact List.pairwise_cons.2 ⟨fun _ hb => le_of_mem_blocks hb, ih (position + 1)⟩

theorem getLast?_text (s : Statement) : s.text.toList.getLast? = some '\n' := by
  cases s <;> simp [text, Section.headerText]

end Statement

namespace Document

variable {text : String} {d : Document}

theorem read?_of_regular? (h : regular? text = some d) : read? text = some d := by
  simp only [regular?, Option.bind_eq_bind, Option.bind_eq_some_iff, Option.pure_def] at h
  obtain ⟨⟨statements, trailing⟩, hscan, h⟩ := h
  split at h
  · simp only [Option.bind_eq_some_iff] at h
    obtain ⟨first, hfirst, ms, hms, eq⟩ := h
    obtain rfl := Option.some.inj eq
    simp [read?, ofStatements?, hscan, Members.fill?_of_fillRegular? hfirst,
      Statement.openTables?_of_openRegular? hms]
  · cases h

theorem exists_statements_of_regular? (h : regular? text = some d) :
    ∃ statements : List Statement,
      d.text = String.join (statements.map Statement.text) ++ d.trailing ∧
      Scan.PrintsAll [] (dropMark text.toList) statements d.trailing := by
  simp only [regular?, Option.bind_eq_bind, Option.bind_eq_some_iff, Option.pure_def] at h
  obtain ⟨⟨statements, trailing⟩, hscan, h⟩ := h
  split at h
  · rename_i unshared
    simp only [Option.bind_eq_some_iff] at h
    obtain ⟨first, hfirst, ms, hms, eq⟩ := h
    obtain rfl := Option.some.inj eq
    have whole := Scan.forall_statements Scan.whole_header Scan.whole_assignment hscan
    have gains := Members.gains_fillRegular? (Statement.forall_assignments fun _ _ => whole _) hfirst
    have none : Item.sections [] first = [] := gains.sections []
    obtain ⟨settled, blocks, same⟩ := Statement.blocks_openRegular? whole hms (by simp [none])
    refine ⟨statements, ?_, Scan.printsAll_statements hscan (List.all_eq_true.1 unshared)⟩
    rw [text_of_blocks settled (by simpa [none] using blocks) (Statement.pairwise_blocks 1 statements)
      fun b hb => Statement.le_of_mem_blocks hb]
    simp only [same, gains.lines, assignments, linesText_nil, String.empty_append,
      Statement.text_blocks]
  · cases h

/-- The line of the last statement ends, with a line end or before what trails. -/
def Ended (cs : List Char) (d : Document) : Prop :=
  cs = [] ∨ cs.getLast? = some '\n' ∨ d.trailing ≠ ""

instance (cs : List Char) (d : Document) : Decidable (d.Ended cs) :=
  inferInstanceAs (Decidable (_ ∨ _ ∨ _))

theorem ended_text (h : regular? text = some d) : d.Ended d.text.toList := by
  obtain ⟨statements, eq, -⟩ := exists_statements_of_regular? h
  by_cases ht : d.trailing = ""
  · rcases List.eq_nil_or_concat statements with rfl | ⟨init, last, rfl⟩
    · exact .inl (by simp [eq, ht])
    · exact .inr (.inl (by simp [eq, ht, String.join_append, Statement.getLast?_text]))
  · exact .inr (.inr ht)

/-- A document that was read from a text is printed as the text, but for a byte order mark, carriage
returns, and the end of the last line where it is missing. -/
theorem text_of_regular? (h : regular? text = some d) :
    ∃ missing, (missing = [] ∨ missing = ['\n'] ∧ ¬d.Ended (dropMark text.toList)) ∧
      Relaid (dropMark text.toList ++ missing) d.text.toList := by
  obtain ⟨statements, eq, missing, hmissing, relaid⟩ := exists_statements_of_regular? h
  refine ⟨missing, hmissing.imp_right fun ⟨hm, ht, hne, hlast⟩ => ⟨hm, ?_⟩, eq ▸ relaid⟩
  rintro (empty | last | trailing)
  · exact hne empty
  · exact hlast last
  · exact trailing ht

theorem dropMark_eq {cs : List Char} (h : cs.head? ≠ some '\ufeff') : dropMark cs = cs := by
  unfold dropMark
  split
  · exact absurd rfl h
  · rfl

theorem mem_of_mem_dropMark {c : Char} {cs : List Char} (h : c ∈ dropMark cs) : c ∈ cs := by
  unfold dropMark at h
  split at h
  · exact List.mem_cons_of_mem _ h
  · exact h

theorem eq_cons_dropMark {cs : List Char} (h : cs.head? = some '\ufeff') :
    cs = '\ufeff' :: dropMark cs := by
  obtain ⟨rest, rfl⟩ := List.head?_eq_some_iff.1 h
  rfl

theorem text_eq_iff (h : regular? text = some d) (hr : '\r' ∉ text.toList) :
    d.text = text ↔ text.toList.head? ≠ some '\ufeff' ∧ d.Ended text.toList := by
  obtain ⟨missing, hmissing, relaid⟩ := text_of_regular? h
  have eq : d.text.toList = dropMark text.toList ++ missing := by
    refine relaid.eq_of_not_mem fun hm => ?_
    rcases List.mem_append.1 hm with hm | hm
    · exact hr (mem_of_mem_dropMark hm)
    · rcases hmissing with rfl | ⟨rfl, -⟩
      · cases hm
      · exact absurd hm (by decide)
  constructor
  · intro same
    refine ⟨fun mark => ?_, same ▸ ended_text h⟩
    have longer : '\ufeff' :: dropMark text.toList = dropMark text.toList ++ missing := by
      rw [← eq_cons_dropMark mark, ← eq, same]
    have newlines := congrArg (List.count '\n') longer
    rcases hmissing with rfl | ⟨rfl, -⟩
    · simp at longer
    · simp at newlines
  · rintro ⟨mark, ended⟩
    rw [dropMark_eq mark] at hmissing eq
    obtain rfl := hmissing.resolve_right fun missing => missing.2 ended
    exact String.toList_injective (by simpa using eq)

end Document

end DottedPatch.Toml
