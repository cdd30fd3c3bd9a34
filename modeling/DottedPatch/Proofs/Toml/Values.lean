import DottedPatch.Proofs.Toml.Chains

namespace DottedPatch.Toml

open Item

namespace Scan

variable {cs mid rest : List Char} {s t : String}

/-- What a scanner took is printed again, but for carriage returns. -/
def Prints (cs rest : List Char) (s : String) : Prop := ∃ w, cs = w ++ rest ∧ Relaid w s.toList

namespace Prints

theorem same (w : List Char) {rest : List Char} (h : s.toList = w) : Prints (w ++ rest) rest s :=
  ⟨w, rfl, h ▸ .refl _⟩

theorem trans (h : Prints cs mid s) (h' : Prints mid rest t) : Prints cs rest (s ++ t) := by
  obtain ⟨w, rfl, hw⟩ := h
  obtain ⟨v, rfl, hv⟩ := h'
  exact ⟨w ++ v, (List.append_assoc ..).symm, by simpa using hw.append hv⟩

theorem of_spaces (cs : List Char) : Prints cs (spaces cs).2 (layout (spaces cs).1) :=
  ⟨_, (spaces_append cs).symm, .layout _⟩

theorem of_filler {w : List Char} {remark : Bool} (h : filler remark cs = some (w, rest)) :
    Prints cs rest (layout w) := by
  suffices cs = w ++ rest from ⟨w, this, .layout w⟩
  fun_induction filler remark cs generalizing w with
  | case1 | case9 =>
    obtain ⟨rfl, rfl⟩ := Prod.mk.inj (Option.some.inj h)
    rfl
  | case2 | case6 => cases h
  | case3 | case4 | case5 | case7 | case8 =>
    rename_i ih
    obtain ⟨⟨v, after⟩, hv, eq⟩ := Option.map_eq_some_iff.1 h
    obtain ⟨rfl, rfl⟩ := Prod.mk.inj eq
    rw [ih hv]
    rfl

theorem of_keyPath {path : List Key} (h : keyPath cs = some (path, rest)) (m : Margin) :
    Prints cs rest (Key.pathText m path) := by
  rw [(keyPath_eq h).2 m]
  exact same _ rfl

theorem of_char {c : Char} {u : Unit} (h : char c cs = some (u, rest)) :
    Prints cs rest (.singleton c) := by
  rw [char_eq_some h]
  exact same [c] (by simp)

theorem midLine {c : Char} (h : Prints cs (c :: rest) s) (hc : c ≠ '\n') : MidLine cs rest := by
  obtain ⟨w, rfl, _⟩ := h
  exact ⟨w ++ [c], by simp, by simpa [List.getLast?_concat] using hc⟩

theorem between (l r : Char) (h : Prints cs (r :: rest) s) (hr : r ≠ '\n') :
    Prints (l :: cs) rest (.singleton l ++ s ++ .singleton r) ∧ MidLine (l :: cs) rest := by
  have opened := (same [l] (String.toList_singleton l)).trans h
  exact ⟨opened.trans (same [r] (String.toList_singleton r)), opened.midLine hr⟩

theorem brackets (h : Prints cs (']' :: rest) s) :
    Prints ('[' :: cs) rest ("[" ++ s ++ "]") ∧ MidLine ('[' :: cs) rest :=
  h.between '[' ']' (by decide)

theorem braces (h : Prints cs ('\x7d' :: rest) s) :
    Prints ('\x7b' :: cs) rest ("\x7b" ++ s ++ "\x7d") ∧ MidLine ('\x7b' :: cs) rest :=
  h.between '\x7b' '\x7d' (by decide)

end Prints

def itemsBody (comma : Bool) (items : List Item) (closing : String) (ends : Bool) : String :=
  itemsText (!comma) items ++ (if ends then "," else "") ++ closing

theorem bare_value {fuel depth : Nat} {item : Item} (h : value fuel depth cs = some (item, rest)) :
    item.Bare := by
  rw [value.eq_def] at h
  split at h
  · cases h
  · split at h
    · obtain ⟨r, _, h⟩ := Option.bind_eq_some_iff.1 h
      obtain ⟨rfl, _⟩ := Prod.mk.inj (Option.some.inj h)
      exact .array ..
    · cases h
  · split at h
    · split at h
      · obtain ⟨rfl, _⟩ := Prod.mk.inj (Option.some.inj h)
        exact .inline ..
      · obtain ⟨_, _, h⟩ := Option.bind_eq_some_iff.1 h
        obtain ⟨_, _, h⟩ := Option.bind_eq_some_iff.1 h
        obtain ⟨rfl, _⟩ := Prod.mk.inj (Option.some.inj h)
        exact .inline ..
    · cases h
  · obtain ⟨_, _, eq⟩ := Option.map_eq_some_iff.1 h
    obtain ⟨rfl, _⟩ := Prod.mk.inj eq
    exact .scalar ..

theorem prints_scalarItem {item : Item} (h : scalarItem cs (scalar cs) = some (item, rest)) :
    Prints cs rest (text item .none) ∧ MidLine cs rest := by
  obtain ⟨⟨v, after⟩, hv, eq⟩ := Option.map_eq_some_iff.1 h
  obtain ⟨rfl, rfl⟩ := Prod.mk.inj eq
  have mid := midLine_scalar hv
  obtain ⟨w, rfl, _⟩ := id mid
  refine ⟨?_, mid⟩
  rw [taken_append]
  exact Prints.same w (by simp [text, scalarText, Decor.around, Margin.none])

/-- An assignment that brings the space around its key and its value. -/
structure Framed (a : List Key × Item) : Prop where
  placed : Key.Placed a.1
  whole : a.2.Whole
  text (m : Margin) : text a.2 m = text a.2 .none

theorem Framed.assignmentText {a : List Key × Item} (h : Framed a) (m m' : Margin) :
    assignmentText m m' (a.1, Item.text a.2) = assignmentText .none .none (a.1, Item.text a.2) := by
  simp only [Item.assignmentText, h.placed.pathText m .none, h.text m']

def assignmentsBody (as : List (List Key × Item)) : String :=
  Text.join ',' (as.map fun a => assignmentText .none .none (a.1, text a.2))

theorem inlineText_framed {opening : String} {as : List (List Key × Item)}
    (h : ∀ a ∈ as, Framed a) :
    inlineText opening (as.map fun a => (a.1, text a.2)) {} .none =
      "\x7b" ++ opening ++ assignmentsBody as ++ "\x7d" := by
  have members : (as.map fun a => (a.1, text a.2)).dropLast.map (assignmentText .memberKey .value) ++
      (as.map fun a => (a.1, text a.2)).getLast?.toList.map (assignmentText .memberKey .lastMember) =
      as.map fun a => assignmentText .none .none (a.1, text a.2) := by
    rcases List.eq_nil_or_concat as with rfl | ⟨init, last, rfl⟩
    · rfl
    · have before : init.map (fun a => assignmentText .memberKey .value (a.1, text a.2)) =
          init.map fun a => assignmentText .none .none (a.1, text a.2) :=
        List.map_congr_left fun a ha => (h a (by simp [ha])).assignmentText _ _
      simp [← before, (h last (by simp)).assignmentText .memberKey .lastMember]
  simp only [inlineText, members, assignmentsBody]
  simp [Decor.around, Margin.none, Text.join, String.append_assoc]

theorem framed_inlineAssignments {fuel depth : Nat} {as : List (List Key × Item)}
    (h : inlineAssignments fuel depth cs = some (as, rest)) : as ≠ [] ∧ ∀ a ∈ as, Framed a := by
  induction fuel generalizing cs as with
  | zero => cases h
  | succ fuel ih =>
    simp only [inlineAssignments, Option.bind_eq_bind, Option.bind_eq_some_iff, Option.pure_def] at h
    obtain ⟨⟨path, afterPath⟩, hpath, ⟨_, afterSign⟩, _, ⟨item, afterItem⟩, hitem, h⟩ := h
    have framed (before after : String) :
        Framed (path, item.withDecor ⟨some before, some after⟩) :=
      { placed := (keyPath_eq hpath).1
        whole := (bare_value hitem).whole _
        text := fun m => by simp only [(bare_value hitem).text_withDecor] }
    split at h
    · obtain ⟨⟨others, _⟩, hothers, h⟩ := Option.bind_eq_some_iff.1 h
      obtain ⟨rfl, rfl⟩ := Prod.mk.inj (Option.some.inj h)
      exact ⟨List.cons_ne_nil _ _, List.forall_mem_cons.2 ⟨framed _ _, (ih hothers).2⟩⟩
    · obtain ⟨rfl, rfl⟩ := Prod.mk.inj (Option.some.inj h)
      exact ⟨List.cons_ne_nil _ _, List.forall_mem_singleton.2 (framed _ _)⟩
    · cases h

structure PrintValues (fuel : Nat) : Prop where
  value {depth : Nat} {cs rest : List Char} {item : Item} :
    value fuel depth cs = some (item, rest) → item.unshared →
      Prints cs rest (text item .none) ∧ MidLine cs rest
  items {depth : Nat} {comma ends : Bool} {cs rest : List Char} {items : List Item}
    {closing : String} : arrayItems fuel depth comma cs = some ((items, closing, ends), rest) →
      itemsUnshared items →
        Prints ((if comma then [','] else []) ++ cs) (']' :: rest) (itemsBody comma items closing ends)
  assignments {depth : Nat} {cs rest : List Char} {as : List (List Key × Item)} :
    inlineAssignments fuel depth cs = some (as, rest) → (∀ a ∈ as, a.2.unshared) →
      Prints cs ('\x7d' :: rest) (assignmentsBody as)

theorem prints_arrayItems_succ {fuel depth : Nat} (ih : PrintValues fuel) {comma ends : Bool}
    {items : List Item} {closing : String}
    (h : arrayItems (fuel + 1) depth comma cs = some ((items, closing, ends), rest))
    (hu : itemsUnshared items) :
    Prints ((if comma then [','] else []) ++ cs) (']' :: rest)
      (itemsBody comma items closing ends) := by
  simp only [arrayItems, Option.bind_eq_bind, Option.bind_eq_some_iff, Option.pure_def] at h
  obtain ⟨⟨before, after⟩, hbefore, h⟩ := h
  have lead : Prints ((if comma then [','] else []) ++ cs) after
      ((if comma then "," else "") ++ layout before) := by
    cases comma
    · simpa using Prints.of_filler hbefore
    · exact (Prints.same [','] rfl).trans (Prints.of_filler hbefore)
  dsimp only at h
  split at h
  · obtain ⟨eq, rfl⟩ := Prod.mk.inj (Option.some.inj h)
    obtain ⟨rfl, rfl, rfl⟩ : items = [] ∧ closing = layout before ∧ ends = comma := by
      simpa [eq_comm] using eq
    simpa [itemsBody, itemsText] using lead
  · obtain ⟨⟨item, next⟩, hitem, h⟩ := Option.bind_eq_some_iff.1 h
    obtain ⟨⟨space, next'⟩, hspace, h⟩ := Option.bind_eq_some_iff.1 h
    have body : item.unshared → Prints ((if comma then [','] else []) ++ cs) next'
        (itemsText (!comma) [item.withDecor ⟨some (layout before), some (layout space)⟩]) := by
      intro hu
      have line := (lead.trans (ih.value hitem hu).1).trans (Prints.of_filler hspace)
      cases comma <;>
        simpa [itemsText, (bare_value hitem).text_withDecor, String.append_assoc] using line
    dsimp only at h
    split at h
    · obtain ⟨⟨⟨others, closing', ends'⟩, _⟩, hothers, h⟩ := Option.bind_eq_some_iff.1 h
      obtain ⟨eq, rfl⟩ := Prod.mk.inj (Option.some.inj h)
      obtain ⟨rfl, rfl, rfl⟩ : items = _ :: others ∧ closing = closing' ∧ ends = ends' := by
        simpa [eq_comm] using eq
      obtain ⟨hitem', hothers'⟩ := Bool.and_eq_true_iff.1 hu
      rw [unshared_withDecor] at hitem'
      have both := (body hitem').trans (ih.items hothers hothers')
      cases comma <;> simpa [itemsBody, itemsText, String.append_assoc] using both
    · obtain ⟨eq, rfl⟩ := Prod.mk.inj (Option.some.inj h)
      obtain ⟨rfl, rfl, rfl⟩ : items = [_] ∧ closing = "" ∧ ends = false := by
        simpa [eq_comm] using eq
      rw [itemsUnshared, itemsUnshared, Bool.and_true, unshared_withDecor] at hu
      simpa [itemsBody] using body hu
    · cases h

theorem prints_inlineAssignments_succ {fuel depth : Nat} (ih : PrintValues fuel)
    {as : List (List Key × Item)} (h : inlineAssignments (fuel + 1) depth cs = some (as, rest))
    (hu : ∀ a ∈ as, a.2.unshared) : Prints cs ('\x7d' :: rest) (assignmentsBody as) := by
  simp only [inlineAssignments, Option.bind_eq_bind, Option.bind_eq_some_iff, Option.pure_def] at h
  obtain ⟨⟨path, afterPath⟩, hpath, ⟨_, afterSign⟩, hsign, ⟨item, afterItem⟩, hitem, h⟩ := h
  have body : item.unshared → Prints cs (spaces afterItem).2 (assignmentText .none .none
      (path, text (item.withDecor
        ⟨some (layout (spaces afterSign).1), some (layout (spaces afterItem).1)⟩))) := by
    intro hu
    have line := ((Prints.of_keyPath hpath .none).trans (Prints.of_char hsign)).trans <|
      ((Prints.of_spaces afterSign).trans (ih.value hitem hu).1).trans (Prints.of_spaces afterItem)
    simpa [assignmentText, (bare_value hitem).text_withDecor, String.append_assoc] using line
  dsimp only at h
  split at h
  · rename_i eq
    obtain ⟨⟨others, _⟩, hothers, h⟩ := Option.bind_eq_some_iff.1 h
    obtain ⟨rfl, rfl⟩ := Prod.mk.inj (Option.some.inj h)
    obtain ⟨hitem', hothers'⟩ := List.forall_mem_cons.1 hu
    rw [unshared_withDecor] at hitem'
    have ne := (framed_inlineAssignments hothers).1
    have both := ((eq ▸ body hitem').trans (Prints.same [','] (rfl : ",".toList = _))).trans
      (ih.assignments hothers hothers')
    rw [assignmentsBody, List.map_cons, Text.join_cons (by simpa using ne)]
    exact both
  · rename_i eq
    obtain ⟨rfl, rfl⟩ := Prod.mk.inj (Option.some.inj h)
    have hitem' := hu _ List.mem_cons_self
    rw [unshared_withDecor] at hitem'
    simpa [assignmentsBody, Text.join] using eq ▸ body hitem'
  · cases h

theorem prints_inline {fuel depth : Nat} (ih : PrintValues fuel) {as : List (List Key × Item)}
    {ms : Members} (h : inlineAssignments fuel depth cs = some (as, rest))
    (hms : Members.ofAssignments? as = some ms) (hu : entriesUnshared ms) :
    Prints ('\x7b' :: cs) rest (text (.inline "" false ms {}) .none) ∧ MidLine ('\x7b' :: cs) rest := by
  obtain ⟨_, framed⟩ := framed_inlineAssignments h
  obtain ⟨has, rfl⟩ := Members.ofAssignments?_chains (fun a ha => (framed a ha).whole) hms hu
  have body := ih.assignments h (Members.unshared_of_chains (fun a ha => (has a ha).1) hu)
  rw [text, Members.assignments_chains has]
  simpa [inlineText_framed framed] using body.braces

theorem prints_value_succ {fuel depth : Nat} (ih : PrintValues fuel) {item : Item}
    (h : value (fuel + 1) depth cs = some (item, rest)) (hu : item.unshared) :
    Prints cs rest (text item .none) ∧ MidLine cs rest := by
  rw [value.eq_def] at h
  split at h
  · cases h
  · rename_i eq
    obtain rfl := Nat.succ.inj eq
    split at h
    · obtain ⟨⟨⟨items, closing, ends⟩, after⟩, hitems, h⟩ := Option.bind_eq_some_iff.1 h
      obtain ⟨rfl, rfl⟩ := Prod.mk.inj (Option.some.inj h)
      have line := (ih.items hitems hu).brackets
      simpa [text, arrayText, Decor.around, Margin.none, itemsBody, String.append_assoc] using line
    · cases h
  · rename_i cs' eq
    obtain rfl := Nat.succ.inj eq
    split at h
    · split at h
      · rename_i hspaces
        obtain ⟨rfl, rfl⟩ := Prod.mk.inj (Option.some.inj h)
        have blank := Prints.of_spaces cs'
        rw [hspaces] at blank
        simpa [text, inlineText, assignments, Decor.around, Margin.none] using
          blank.braces
      · obtain ⟨⟨as, after⟩, hscan, h⟩ := Option.bind_eq_some_iff.1 h
        obtain ⟨ms, hms, h⟩ := Option.bind_eq_some_iff.1 h
        obtain ⟨rfl, rfl⟩ := Prod.mk.inj (Option.some.inj h)
        exact prints_inline ih hscan hms (by simpa [unshared] using hu)
    · cases h
  · exact prints_scalarItem h

theorem printValues (fuel : Nat) : PrintValues fuel := by
  induction fuel with
  | zero => exact ⟨by simp [value], by simp [arrayItems], by simp [inlineAssignments]⟩
  | succ fuel ih =>
    exact ⟨prints_value_succ ih, prints_arrayItems_succ ih, prints_inlineAssignments_succ ih⟩

end Scan

end DottedPatch.Toml
