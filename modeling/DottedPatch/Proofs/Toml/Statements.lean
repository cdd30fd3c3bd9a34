import DottedPatch.Proofs.Toml.Values
import DottedPatch.Toml.Reader

namespace DottedPatch.Toml

open Item

namespace Statement

def text : Statement → String
  | .assign path item => assignmentText .key .value (path, item.text) ++ "\n"
  | .header path element decor => Section.headerText ⟨path, element, { decor }, []⟩ false

def unshared : Statement → Bool
  | .assign _ item => item.unshared
  | .header _ _ _ => true

end Statement

namespace Key

theorem precedeLast_concat (before : String) (init : List Key) (last : Key) :
    precedeLast before (init ++ [last]) = init ++ [last.precede before] := by
  induction init with
  | nil => rfl
  | cons key init ih => cases init <;> simp_all [precedeLast]

theorem Placed.pathText_precedeLast {path : List Key} (h : Placed path) (before : String)
    (m : Margin) : Key.pathText m (precedeLast before path) = before ++ Key.pathText m path := by
  obtain ⟨init, last, lead, after, rfl, hleaf⟩ := h
  have alike : Alike (last.precede before) last := ⟨rfl, rfl⟩
  rw [precedeLast_concat, pathText_concat, pathText_concat,
    dottedText_congr (alike_concat init alike)]
  simp [precede, hleaf, Decor.around, String.append_assoc]

end Key

namespace Scan

variable {cs rest : List Char}

inductive Ending : (ending rest : List Char) → Prop
  | newline (rest : List Char) : Ending ['\n'] rest
  | carriage (rest : List Char) : Ending ['\r', '\n'] rest
  | last : Ending [] []

theorem Ending.of_lineEnd {w : List Char} (h : lineEnd cs = some (w, rest)) :
    cs = w ++ rest ∧ Ending w rest := by
  unfold lineEnd at h
  split at h
  · obtain ⟨rfl, rfl⟩ := Prod.mk.inj (Option.some.inj h)
    exact ⟨rfl, .last⟩
  · obtain ⟨eq, rfl | rfl⟩ := newline_eq h
    · exact ⟨eq, .newline _⟩
    · exact ⟨eq, .carriage _⟩

theorem comment_append (cs : List Char) : (comment cs).1 ++ (comment cs).2 = cs := by
  unfold comment
  split
  · exact (span_eq rfl).1.symm
  · rfl

theorem not_mem_comment {c : Char} (hc : isCommentChar c = false) (cs : List Char) :
    c ∉ (comment cs).1 := by
  unfold comment
  split
  · exact fun hm => by simp [(span_eq rfl).2 c hm] at hc
  · exact List.not_mem_nil

theorem lineRest_eq {after : List Char} (h : lineRest cs = some (after, rest)) :
    ∃ ending, cs = after ++ (ending ++ rest) ∧ Ending ending rest ∧ '\n' ∉ after ∧
      layout after = .ofList after := by
  simp only [lineRest, Option.bind_eq_bind, Option.bind_eq_some_iff, Option.pure_def] at h
  obtain ⟨⟨ending, _⟩, hend, eq⟩ := h
  obtain ⟨rfl, rfl⟩ := Prod.mk.inj (Option.some.inj eq)
  obtain ⟨eq, hending⟩ := Ending.of_lineEnd hend
  refine ⟨ending, ?_, hending, ?_, layout_eq ?_⟩
  · rw [List.append_assoc, ← eq, comment_append, spaces_append]
  · exact fun hm => (List.mem_append.1 hm).elim (not_mem_spaces (by decide) _)
      (not_mem_comment (by decide) _)
  · exact fun hm => (List.mem_append.1 hm).elim (not_mem_spaces (by decide) _)
      (not_mem_comment (by decide) _)

def PrintsLine (before cs rest : List Char) (s : Statement) : Prop :=
  ∃ w ending, cs = w ++ (ending ++ rest) ∧ Ending ending rest ∧ w ≠ [] ∧
    w.getLast? ≠ some '\n' ∧ Relaid (before ++ w ++ ['\n']) s.text.toList

theorem PrintsLine.of_lineRest {body : String} {s : Statement} {before mid after : List Char}
    (hmid : MidLine cs mid) (hbody : Prints cs mid body) (hne : body ≠ "")
    (h : lineRest mid = some (after, rest))
    (text : s.text = layout before ++ body ++ layout after ++ "\n") : PrintsLine before cs rest s := by
  obtain ⟨ending, rfl, hending, hline, hlayout⟩ := lineRest_eq h
  obtain ⟨w, rfl, hw⟩ := hbody
  obtain ⟨v, eq, hv⟩ := hmid
  obtain rfl := List.append_cancel_right eq
  refine ⟨w ++ after, ending, (List.append_assoc ..).symm, hending, ?_, ?_, ?_⟩
  · intro eq
    obtain rfl := (List.append_eq_nil_iff.1 eq).1
    exact hne (String.toList_eq_nil_iff.1 (hw.eq_of_not_mem List.not_mem_nil))
  · rw [List.getLast?_append, ne_eq, Option.or_eq_some_iff]
    rintro (last | ⟨_, last⟩)
    · exact hline (List.mem_of_getLast? last)
    · exact hv last
  · simpa [text, hlayout] using
      ((Relaid.layout before).append hw).append (Relaid.refl (after ++ ['\n']))

theorem printsLine_header {before : List Char} {s : Statement}
    (h : header (layout before) cs = some (s, rest)) : PrintsLine before cs rest s := by
  rw [header.eq_def] at h
  split at h
  · simp only [Option.bind_eq_bind, Option.bind_eq_some_iff, Option.pure_def] at h
    obtain ⟨⟨path, afterPath⟩, hpath, ⟨_, afterFirst⟩, hfirst, ⟨_, afterSecond⟩, hsecond,
      ⟨after, _⟩, hafter, eq⟩ := h
    obtain ⟨rfl, rfl⟩ := Prod.mk.inj (Option.some.inj eq)
    have key := Prints.of_keyPath hpath .none
    rw [show afterPath = _ from char_eq_some hfirst, show afterFirst = _ from char_eq_some hsecond]
      at key
    obtain ⟨body, mid⟩ := key.brackets.1.brackets
    refine PrintsLine.of_lineRest mid body ?_ hafter ?_
    · exact fun eq => by simpa using congrArg String.toList eq
    · simpa [Statement.text, Section.headerText, Decor.around, String.append_assoc] using
        @String.append_assoc "[" "[" _
  · simp only [Option.bind_eq_bind, Option.bind_eq_some_iff, Option.pure_def] at h
    obtain ⟨⟨path, afterPath⟩, hpath, ⟨_, afterBracket⟩, hbracket, ⟨after, _⟩, hafter, eq⟩ := h
    obtain ⟨rfl, rfl⟩ := Prod.mk.inj (Option.some.inj eq)
    have key := Prints.of_keyPath hpath .none
    rw [show afterPath = _ from char_eq_some hbracket] at key
    obtain ⟨body, mid⟩ := key.brackets
    refine PrintsLine.of_lineRest mid body ?_ hafter ?_
    · exact fun eq => by simpa using congrArg String.toList eq
    · simp [Statement.text, Section.headerText, Decor.around, String.append_assoc]
  · cases h

theorem printsLine_assignment {before : List Char} {s : Statement}
    (h : assignment (layout before) cs = some (s, rest)) (hu : s.unshared) :
    PrintsLine before cs rest s := by
  simp only [assignment, Option.bind_eq_bind, Option.bind_eq_some_iff, Option.pure_def] at h
  obtain ⟨⟨path, afterPath⟩, hpath, ⟨_, afterSign⟩, hsign, ⟨item, afterItem⟩, hitem, ⟨after, _⟩,
    hafter, eq⟩ := h
  obtain ⟨rfl, rfl⟩ := Prod.mk.inj (Option.some.inj eq)
  rw [Statement.unshared, unshared_withDecor] at hu
  obtain ⟨hvalue, hmid⟩ := (printValues _).value hitem hu
  have key := Prints.of_keyPath hpath .key
  have signed := key.trans (Prints.of_char hsign)
  have body := (signed.trans (Prints.of_spaces afterSign)).trans hvalue
  rw [show afterPath = _ from char_eq_some hsign] at key
  have mid := ((key.midLine (by decide)).trans (SameLine.of_span (by decide) rfl).midLine).trans hmid
  refine PrintsLine.of_lineRest mid body ?_ hafter ?_
  · exact fun eq => by simpa using congrArg String.toList eq
  · simp [Statement.text, assignmentText, (keyPath_eq hpath).1.pathText_precedeLast,
      (bare_value hitem).text_withDecor, String.append_assoc]

def Missing (cs : List Char) (trailing : String) (missing : List Char) : Prop :=
  missing = [] ∨ missing = ['\n'] ∧ trailing = "" ∧ cs ≠ [] ∧ cs.getLast? ≠ some '\n'

theorem Missing.of_rest {w : List Char} {trailing : String} {missing : List Char}
    (h : Missing rest trailing missing) (eq : cs = w ++ rest) : Missing cs trailing missing := by
  subst eq
  rcases h with rfl | ⟨rfl, ht, hne, hl⟩
  · exact .inl rfl
  · refine .inr ⟨rfl, ht, by simp [hne], ?_⟩
    rwa [List.getLast?_append_of_ne_nil _ hne]

/-- What is printed of a text that a scanner of statements was given, with what it kept before. -/
def PrintsAll (before cs : List Char) (statements : List Statement) (trailing : String) : Prop :=
  ∃ missing, Missing cs trailing missing ∧ Relaid (before ++ cs ++ missing)
    (String.join (statements.map Statement.text) ++ trailing).toList

theorem PrintsAll.of_before {before w : List Char} {statements : List Statement} {trailing : String}
    (h : PrintsAll (before ++ w) rest statements trailing) (eq : cs = w ++ rest) :
    PrintsAll before cs statements trailing := by
  obtain ⟨missing, hmissing, hrest⟩ := h
  exact ⟨missing, hmissing.of_rest eq, by simpa [eq] using hrest⟩

theorem PrintsLine.cons {fuel : Nat} {before : List Char} {s : Statement}
    (line : PrintsLine before cs rest s) {statements : List Statement}
    {trailing : String} (h : Scan.statements fuel [] rest = some (statements, trailing))
    (hrest : PrintsAll [] rest statements trailing) :
    PrintsAll before cs (s :: statements) trailing := by
  obtain ⟨w, ending, rfl, hending, hne, hlast, hline⟩ := line
  obtain ⟨missing, hmissing, hrest⟩ := hrest
  have both := hline.append hrest
  cases hending with
  | newline =>
    refine ⟨missing, hmissing.of_rest (w := w ++ ['\n']) (by simp), ?_⟩
    simpa [String.join_cons] using both
  | carriage =>
    refine ⟨missing, hmissing.of_rest (w := w ++ ['\r', '\n']) (by simp), ?_⟩
    have both := Relaid.insert (before ++ w) (by simpa using both)
    simpa [String.join_cons] using both
  | last =>
    cases fuel with
    | zero => cases h
    | succ fuel =>
      obtain ⟨rfl, rfl⟩ := Prod.mk.inj (Option.some.inj h)
      refine ⟨['\n'], .inr ⟨rfl, rfl, by simpa using hne, by simpa using hlast⟩, ?_⟩
      simpa [String.join_cons, String.join_nil, layout] using hline

theorem printsAll_statements {fuel : Nat} {before : List Char} {statements : List Statement}
    {trailing : String} (h : Scan.statements fuel before cs = some (statements, trailing))
    (hu : ∀ s ∈ statements, s.unshared) : PrintsAll before cs statements trailing := by
  induction fuel generalizing before cs statements trailing with
  | zero => simp [Scan.statements] at h
  | succ fuel ih =>
    have followed {s : Statement} {rest : List Char}
        (line : s.unshared → PrintsLine (before ++ (spaces cs).1) (spaces cs).2 rest s)
        (h : ((Scan.statements fuel [] rest).bind fun r => some (s :: r.1, r.2)) =
          some (statements, trailing)) : PrintsAll before cs statements trailing := by
      obtain ⟨⟨others, _⟩, hothers, h⟩ := Option.bind_eq_some_iff.1 h
      obtain ⟨rfl, rfl⟩ := Prod.mk.inj (Option.some.inj h)
      obtain ⟨hs, hu⟩ := List.forall_mem_cons.1 hu
      exact ((line hs).cons hothers (ih hothers hu)).of_before (spaces_append cs).symm
    have passed (h : ((newline (spaces cs).2).bind fun r =>
        Scan.statements fuel (before ++ (spaces cs).1 ++ r.1) r.2) = some (statements, trailing)) :
        PrintsAll before cs statements trailing := by
      obtain ⟨⟨ending, rest⟩, hending, h⟩ := Option.bind_eq_some_iff.1 h
      have all := ih h hu
      rw [List.append_assoc] at all
      refine all.of_before ?_
      rw [List.append_assoc, ← (newline_eq hending).1, spaces_append]
    rw [Scan.statements] at h
    simp only [Option.bind_eq_bind, Option.pure_def] at h
    have blank := spaces_append cs
    split at h
    · rename_i eq
      obtain ⟨rfl, rfl⟩ := Prod.mk.inj (Option.some.inj h)
      rw [eq, List.append_nil] at blank
      refine ⟨[], .inl rfl, ?_⟩
      simpa [String.join_nil, blank] using Relaid.layout (before ++ (spaces cs).1)
    · obtain ⟨⟨ending, rest⟩, hending, h⟩ := Option.bind_eq_some_iff.1 h
      have all := ih h hu
      simp only [List.append_assoc] at all
      refine all.of_before ?_
      rw [List.append_assoc, List.append_assoc, ← (Ending.of_lineEnd hending).1, comment_append,
        spaces_append]
    · exact passed h
    · exact passed h
    · obtain ⟨⟨s, _⟩, hheader, h⟩ := Option.bind_eq_some_iff.1 h
      exact followed (fun _ => printsLine_header hheader) h
    · obtain ⟨⟨s, _⟩, hassignment, h⟩ := Option.bind_eq_some_iff.1 h
      exact followed (printsLine_assignment hassignment) h

end Scan

end DottedPatch.Toml
