import DottedPatch.Proofs.Toml.Sections
import DottedPatch.Proofs.Toml.Statements

namespace DottedPatch.Toml

instance (k l : Key) : Decidable (k.Alike l) :=
  decidable_of_iff (k.text = l.text ∧ k.dotted = l.dotted) ⟨fun h => ⟨h.1, h.2⟩, fun h => ⟨h.1, h.2⟩⟩

namespace Members

/-- A dotted path goes on in the table that was assigned to last, with the keys written alike, or
starts a table. -/
def follows : (path : List Key) → Members → Bool
  | key :: next :: path, ms =>
    match find? key.name ms with
    | none => true
    | some (k, .table head sub) =>
      head.dotted && decide (k.Alike key) && (find? key.name ms.dropLast).isNone &&
        follows (next :: path) sub
    | some _ => false
  | _, _ => true

open Item

theorem lineText_congr {above above' : List Key} (h : List.Forall₂ Key.Alike above above')
    {path : List Key} (hp : path ≠ []) (value : Pending) :
    lineText (above ++ path, value) = lineText (above' ++ path, value) := by
  simp only [lineText, assignmentText, Key.pathText_congr h hp]

theorem follows_nil (path : List Key) : follows path [] := by
  unfold follows
  split <;> simp [find?]

theorem eq_nil_of_find?_dropLast {name : String} {before after : Members} {m : Key × Item}
    (hm : m.1.name = name) (h : find? name (before ++ m :: after).dropLast = none) : after = [] := by
  by_contra ne
  have absent := item?_eq_none_iff.1 (item?_eq_none_of_find? h)
  rw [List.dropLast_append_of_ne_nil (List.cons_ne_nil _ _), List.dropLast_cons_of_ne_nil ne] at absent
  exact absent (by simp [names, hm])

theorem assign?_of_follows {item : Item} (hi : item.Whole) {entered dotted : Bool}
    {path : List Key} {ms ms' : Members} (h : assign? item entered dotted path ms = some ms')
    (hf : follows path ms) (above : List Key) :
    linesText (assignments above ms') =
        linesText (assignments above ms) ++ lineText (above ++ path, text item) ∧
      sections above ms' = sections above ms := by
  fun_induction assign? item entered dotted path ms generalizing above ms' with
  | case1 | case2 | case6 | case8 | case9 => cases h
  | case3 =>
    obtain rfl := Option.some.inj h
    simp [assignments_append, assignments, hi.assigned, sections_append, sections, hi.itemSections]
  | case4 _ _ key path ms hpath absent ih =>
    obtain ⟨sub, hsub, rfl⟩ := Option.map_eq_some_iff.1 h
    obtain ⟨lines, none⟩ := ih hsub (follows_nil path) (above ++ [key])
    simp only [assignments, sections] at lines none
    simp [assignments_append, assignments, assigned, sections_append, sections, itemSections,
      Section.listed, lines, none]
  | case5 _ _ key path ms hpath k head sub found himplicit ih =>
    obtain ⟨sub', hsub, rfl⟩ := Option.map_eq_some_iff.1 h
    obtain ⟨next, path, rfl⟩ := List.exists_cons_of_ne_nil hpath
    simp only [follows, found, Bool.and_eq_true, decide_eq_true_eq, Option.isNone_iff_eq_none] at hf
    obtain ⟨⟨⟨hdotted, alike⟩, last⟩, hf⟩ := hf
    obtain ⟨before, after, rfl, name, hput, _⟩ := split_of_find? found
    obtain rfl := eq_nil_of_find?_dropLast name last
    obtain ⟨lines, same⟩ := ih hsub hf (above ++ [k])
    have line := lineText_congr (Key.alike_concat above alike) (List.cons_ne_nil next path) (text item)
    rw [hput]
    simpa [assignments_append, assignments, assigned, sections_append, sections, itemSections,
      Section.listed, hdotted, lines, same, String.append_assoc] using line
  | case7 _ _ _ _ _ hpath _ _ found =>
    obtain ⟨next, path, rfl⟩ := List.exists_cons_of_ne_nil hpath
    simp [follows, found] at hf

def fillRegular? (as : List (List Key × Item)) (ms : Members) : Option Members :=
  as.foldlM (fun ms (path, item) =>
    if follows path ms then assign? item false false path ms else none) ms

theorem fillRegular?_cons_eq_some {a : List Key × Item} {as : List (List Key × Item)}
    {ms ms' : Members} (h : fillRegular? (a :: as) ms = some ms') :
    ∃ next, follows a.1 ms ∧ assign? a.2 false false a.1 ms = some next ∧
      fillRegular? as next = some ms' := by
  rw [fillRegular?, List.foldlM_cons] at h
  obtain ⟨next, hnext, h⟩ := Option.bind_eq_some_iff.1 h
  dsimp only at hnext
  split at hnext
  · exact ⟨next, ‹_›, hnext, h⟩
  · cases hnext

theorem fill?_of_fillRegular? {as : List (List Key × Item)} {ms ms' : Members}
    (h : fillRegular? as ms = some ms') : fill? as ms = some ms' := by
  induction as generalizing ms with
  | nil => exact h
  | cons a as ih =>
    obtain ⟨next, -, hnext, h⟩ := fillRegular?_cons_eq_some h
    rw [fill?, List.foldlM_cons]
    exact Option.bind_eq_some_iff.2 ⟨next, hnext, ih h⟩

structure Gains (lines : String) (ms ms' : Members) : Prop where
  lines : linesText (assignments [] ms') = linesText (assignments [] ms) ++ lines
  sections (above : List Key) : sections above ms' = sections above ms

theorem gains_fillRegular? {as : List (List Key × Item)} (has : ∀ a ∈ as, a.2.Whole)
    {ms ms' : Members} (h : fillRegular? as ms = some ms') :
    Gains (linesText (as.map fun a => (a.1, text a.2))) ms ms' := by
  induction as generalizing ms with
  | nil =>
    obtain rfl := Option.some.inj h
    exact ⟨by simp, fun _ => rfl⟩
  | cons a as ih =>
    obtain ⟨ha, has⟩ := List.forall_mem_cons.1 has
    obtain ⟨next, hfollows, hnext, h⟩ := fillRegular?_cons_eq_some h
    have first := assign?_of_follows ha hnext hfollows
    have others := ih has h
    refine ⟨?_, fun above => (others.sections above).trans (first above).2⟩
    rw [others.lines, (first []).1, List.map_cons, ← List.singleton_append, linesText_append,
      linesText_singleton, String.append_assoc]
    rfl

/-- The keys of a header are written as those that lead to the same tables before it. -/
def agrees (element : Bool) : (path : List Key) → Members → Bool
  | [], _ => true
  | [key], ms => (find? key.name ms).all fun m => if element then m.1 = key else m.1.Alike key
  | key :: path, ms =>
    match find? key.name ms with
    | none => true
    | some (k, item) =>
      decide (k.Alike key) &&
        match item with
        | .table _ sub => agrees element path sub
        | .tables elements =>
          match elements.getLast? with
          | some (_, sub) => agrees element path sub
          | none => true
        | _ => true

theorem agrees_nil (element : Bool) (path : List Key) : agrees element path [] := by
  unfold agrees
  split <;> simp [find?]

theorem assignments_put {above : List Key} {key k : Key} {item item' : Item} {ms : Members}
    (found : find? key.name ms = some (k, item))
    (same : assigned (above ++ [k]) item' = assigned (above ++ [k]) item) :
    assignments above (put key item' ms) = assignments above ms := by
  obtain ⟨before, after, rfl, _, hput, _⟩ := split_of_find? found
  simp only [hput, assignments_append, assignments, same]

theorem assignments_openTable? {head : Head} (hd : head.dotted = false) {element : Bool}
    {fill : Members → Option Members} {path : List Key} {ms ms' : Members}
    (h : openTable? head element fill path ms = some ms') (above : List Key) :
    assignments above ms' = assignments above ms := by
  fun_induction openTable? head element fill path ms generalizing above ms' with
  | case1 | case4 | case7 | case11 | case12 => cases h
  | case2 key ms absent =>
    obtain ⟨sub, _, rfl⟩ := Option.map_eq_some_iff.1 h
    simp [assignments_append, assignments, assigned, hd]
  | case3 key ms _ old sub found _ himplicit =>
    obtain ⟨sub', _, rfl⟩ := Option.map_eq_some_iff.1 h
    obtain ⟨before, after, rfl, _, _, herase⟩ := split_of_find? found
    rw [Bool.and_eq_true, Bool.not_eq_true'] at himplicit
    simp [herase, assignments_append, assignments, assigned, hd, himplicit.2]
  | case5 key ms absent =>
    obtain ⟨sub, _, rfl⟩ := Option.map_eq_some_iff.1 h
    simp [assignments_append, assignments, assigned]
  | case6 key ms _ elements found =>
    obtain ⟨sub, _, rfl⟩ := Option.map_eq_some_iff.1 h
    exact assignments_put found (by simp [assigned])
  | case8 key path ms hpath absent ih =>
    obtain ⟨sub, _, rfl⟩ := Option.map_eq_some_iff.1 h
    simp [assignments_append, assignments, assigned]
  | case9 key path ms _ _ _ _ found ih =>
    obtain ⟨sub, hsub, rfl⟩ := Option.map_eq_some_iff.1 h
    exact assignments_put found (by simp [assigned, ih hsub])
  | case10 _ _ _ _ _ _ found =>
    obtain ⟨sub, _, rfl⟩ := Option.map_eq_some_iff.1 h
    exact assignments_put found (by simp [assigned])

end Members

namespace Members

open Item Section

section

variable {b : Nat × String} {above : List Key} {ms : Members} {key k : Key} {item item' : Item}

theorem addsBlock_concat (hs : ∀ s ∈ sections above ms, s.Settled)
    (h : AddsBlock b [] (itemSections (above ++ [key]) item)) :
    AddsBlock b (sections above ms) (sections above (ms ++ [(key, item)])) := by
  simpa [sections_append, sections] using h.frame (sections above ms) [] (by simpa using hs)

theorem addsBlock_put (found : find? key.name ms = some (k, item))
    (hs : ∀ s ∈ sections above ms, s.Settled)
    (h : (∀ s ∈ itemSections (above ++ [k]) item, s.Settled) →
      AddsBlock b (itemSections (above ++ [k]) item) (itemSections (above ++ [k]) item')) :
    AddsBlock b (sections above ms) (sections above (put key item' ms)) := by
  obtain ⟨before, after, rfl, _, hput, _⟩ := split_of_find? found
  simp only [sections_append, sections] at hs
  have inner := h fun s hmem => hs s (by simp [hmem])
  simpa [hput, sections_append, sections] using
    inner.frame (sections above before) (sections above after) (by simpa using hs)

end

section

variable {fill : Members → Option Members} {lines : String}
  (hfill : ∀ ms ms', fill ms = some ms' → Gains lines ms ms') {decor : Decor}
  (hdecor : ∃ before after, decor = ⟨some before, some after⟩) (position : Nat) (element : Bool)

include hfill hdecor

omit hfill hdecor in
theorem headerText_congr {above above' : List Key} (h : List.Forall₂ Key.Alike above above')
    {path : List Key} (hp : path ≠ []) :
    (Statement.header (above ++ path) element decor).text =
      (Statement.header (above' ++ path) element decor).text := by
  simp only [Statement.text, headerText, Key.pathText_congr h hp]

theorem opened_of_fill {sub sub' : Members} (h : fill sub = some sub')
    (hsub : assignments [] sub = []) (above : List Key) (key : Key) :
    Opened ⟨above ++ [key], element, { decor, position := some position }, sub'⟩
      (position, (Statement.header (above ++ [key]) element decor).text ++ lines) where
  position := rfl
  implicit := rfl
  decor := hdecor
  text := by
    have gains := (hfill _ _ h).lines
    rw [hsub, linesText_nil, String.empty_append] at gains
    simp [Section.text, headed, gains, Statement.text, headerText]

theorem addsBlock_fill {old : Head} {sub sub' : Members} (himplicit : old.implicit)
    (h : fill sub = some sub') (above : List Key) {k key : Key} (alike : k.Alike key)
    (hold : Section.Settled ⟨above ++ [k], false, old, sub⟩)
    (hs : ∀ s ∈ sections (above ++ [k]) sub, s.Settled) :
    AddsBlock (position, (Statement.header (above ++ [key]) false decor).text ++ lines)
      (⟨above ++ [k], false, old, sub⟩ :: sections (above ++ [k]) sub)
      (⟨above ++ [key], false, { decor, position := some position }, sub'⟩ ::
        sections (above ++ [key]) sub') := by
  have unopened : old.position = none := by
    cases hp : old.position <;> simp_all [Settled]
  have empty : assignments [] sub = [] := by
    simp only [Settled, unopened] at hold
    exact hold.2.2
  have opened := opened_of_fill hfill hdecor position false h empty above key
  have unprinted : Section.block? ⟨above ++ [k], false, old, sub⟩ = none := by
    simp [Section.block?, unopened]
  have alike := Key.alike_concat above alike
  rw [(hfill _ _ h).sections]
  refine ⟨List.forall_mem_cons.2 ⟨opened.settled, settled_congr alike hs⟩, ?_⟩
  rw [List.filterMap_cons_some opened.block?, List.filterMap_cons_none unprinted, blocks_congr alike]

theorem addsBlock_openTable? {path : List Key} {ms ms' : Members}
    (h : openTable? { decor, position := some position } element fill path ms = some ms')
    (ha : agrees element path ms) (above : List Key) (hs : ∀ s ∈ sections above ms, s.Settled) :
    AddsBlock (position, (Statement.header (above ++ path) element decor).text ++ lines)
      (sections above ms) (sections above ms') := by
  fun_induction openTable? { decor, position := some position } element fill path ms
    generalizing above ms' with
  | case1 | case4 | case7 | case11 | case12 => cases h
  | case2 key ms absent helement =>
    subst helement
    obtain ⟨sub, hsub, rfl⟩ := Option.map_eq_some_iff.1 h
    have opened := opened_of_fill hfill hdecor position false hsub rfl above key
    have none : sections (above ++ [key]) sub = [] := (hfill _ _ hsub).sections _
    exact addsBlock_concat hs (by simpa [itemSections, listed, none] using opened.addsBlock)
  | case3 key ms k old sub found helement himplicit =>
    subst helement
    obtain ⟨sub', hsub, rfl⟩ := Option.map_eq_some_iff.1 h
    obtain ⟨before, after, rfl, _, _, herase⟩ := split_of_find? found
    rw [Bool.and_eq_true, Bool.not_eq_true'] at himplicit
    have alike : k.Alike key := by simpa [agrees, found] using ha
    simp only [sections_append, sections, itemSections, listed, himplicit.2, Bool.false_eq_true,
      if_false, List.singleton_append] at hs
    have filled := addsBlock_fill hfill hdecor position himplicit.1 hsub above alike
      (hs _ (by simp)) fun s hmem => hs s (by simp [hmem])
    simpa [herase, sections_append, sections, itemSections, listed, himplicit.2] using
      filled.move (sections above before) (sections above after) (by simpa using hs)
  | case5 key ms absent helement =>
    subst helement
    obtain ⟨sub, hsub, rfl⟩ := Option.map_eq_some_iff.1 h
    have opened := opened_of_fill hfill hdecor position true hsub rfl above key
    have none : sections (above ++ [key]) sub = [] := (hfill _ _ hsub).sections _
    exact addsBlock_concat hs
      (by simpa [itemSections, elementSections, listed, none] using opened.addsBlock)
  | case6 key ms k elements found helement =>
    subst helement
    obtain ⟨sub, hsub, rfl⟩ := Option.map_eq_some_iff.1 h
    obtain rfl : k = key := by simpa [agrees, found] using ha
    have opened := opened_of_fill hfill hdecor position true hsub rfl above k
    have none : sections (above ++ [k]) sub = [] := (hfill _ _ hsub).sections _
    refine addsBlock_put found hs fun settled => ?_
    simp only [itemSections] at settled ⊢
    simpa [elementSections_append, elementSections, listed, none] using
      opened.addsBlock.frame (elementSections (above ++ [k]) elements) [] (by simpa using settled)
  | case8 key path ms hpath absent ih =>
    obtain ⟨sub, hsub, rfl⟩ := Option.map_eq_some_iff.1 h
    have settled : Section.Settled ⟨above ++ [key], false, { implicit := true }, []⟩ := ⟨rfl, rfl, rfl⟩
    have inner := (ih hsub (agrees_nil element path) (above ++ [key]) (by simp [sections])).below
      (assignments_openTable? rfl hsub []) false { implicit := true } (by simpa [listed] using settled)
    exact addsBlock_concat hs (by simpa [sections, itemSections] using AddsBlock.of_cons inner rfl)
  | case9 key path ms hpath k old sub found ih =>
    obtain ⟨sub', hsub, rfl⟩ := Option.map_eq_some_iff.1 h
    have ha : k.Alike key ∧ agrees element path sub := by
      simpa [agrees, hpath, found] using ha
    refine addsBlock_put found hs fun settled => ?_
    simp only [itemSections, List.forall_mem_append] at settled ⊢
    have inner := (ih hsub ha.2 (above ++ [k]) settled.2).below (assignments_openTable? rfl hsub [])
      false old settled.1
    rw [headerText_congr element (Key.alike_concat above ha.1) hpath] at inner
    simpa using inner
  | case10 key path ms hpath k elements found old sub last ih =>
    obtain ⟨sub', hsub, rfl⟩ := Option.map_eq_some_iff.1 h
    obtain ⟨others, rfl⟩ := List.getLast?_eq_some_iff.1 last
    have ha : k.Alike key ∧ agrees element path sub := by
      simpa [agrees, hpath, found] using ha
    refine addsBlock_put found hs fun settled => ?_
    simp only [itemSections, elementSections_append, elementSections, List.append_nil,
      List.forall_mem_append] at settled
    have inner := (ih hsub ha.2 (above ++ [k]) settled.2.2).below (assignments_openTable? rfl hsub [])
      true old settled.2.1
    rw [headerText_congr element (Key.alike_concat above ha.1) hpath] at inner
    simpa [itemSections, elementSections_append, elementSections] using
      inner.frame (elementSections (above ++ [k]) others) []
        (by simpa only [List.append_nil, List.forall_mem_append] using settled)

end

end Members

end DottedPatch.Toml
