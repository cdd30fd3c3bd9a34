import DottedPatch.Proofs.Toml.Scalars
import DottedPatch.Toml.Printer
import Mathlib.Data.List.Forall2

namespace DottedPatch.Toml

/-- The second text is the first without some of its carriage returns. -/
inductive Relaid : List Char → List Char → Prop
  | nil : Relaid [] []
  | keep {cs ds : List Char} (c : Char) : Relaid cs ds → Relaid (c :: cs) (c :: ds)
  | drop {cs ds : List Char} : Relaid cs ds → Relaid ('\r' :: cs) ds

namespace Relaid

variable {cs ds cs' ds' : List Char}

theorem refl : (cs : List Char) → Relaid cs cs
  | [] => .nil
  | c :: cs => (refl cs).keep c

theorem append (h : Relaid cs ds) (h' : Relaid cs' ds') : Relaid (cs ++ cs') (ds ++ ds') := by
  induction h with
  | nil => exact h'
  | keep c _ ih => exact ih.keep c
  | drop _ ih => exact ih.drop

theorem layout : (cs : List Char) → Relaid cs (layout cs).toList
  | [] => .nil
  | c :: cs => by
    have ih := layout cs
    by_cases hc : c = '\r'
    · subst hc
      exact ih.drop
    · simpa [Toml.layout, hc] using ih.keep c

theorem insert (before : List Char) {after : List Char} (h : Relaid (before ++ after) ds) :
    Relaid (before ++ '\r' :: after) ds := by
  induction before generalizing ds with
  | nil => exact h.drop
  | cons c before ih =>
    cases h with
    | keep _ h => exact (ih h).keep c
    | drop h => exact (ih h).drop

theorem eq_of_not_mem (h : Relaid cs ds) (hr : '\r' ∉ cs) : ds = cs := by
  induction h with
  | nil => rfl
  | keep c _ ih => rw [ih (fun hm => hr (List.mem_cons_of_mem _ hm))]
  | drop => exact absurd List.mem_cons_self hr

end Relaid

theorem layout_eq {cs : List Char} (h : '\r' ∉ cs) : layout cs = .ofList cs := by
  rw [layout, List.filter_eq_self.2 fun c hc => by
    simpa using fun eq : c = '\r' => h (eq ▸ hc)]

theorem taken_append (w rest : List Char) : taken (w ++ rest) rest = w := by
  simp [taken]

namespace Key

structure Alike (k l : Key) : Prop where
  text : k.text = l.text
  dotted : k.dotted = l.dotted

theorem Alike.refl (k : Key) : Alike k k := ⟨rfl, rfl⟩

theorem alike_refl (path : List Key) : List.Forall₂ Alike path path :=
  List.forall₂_same.2 fun k _ => .refl k

theorem alike_concat (above : List Key) {k l : Key} (h : Alike k l) :
    List.Forall₂ Alike (above ++ [k]) (above ++ [l]) :=
  List.rel_append (alike_refl above) (.cons h .nil)

theorem dottedText_congr {path path' : List Key} (h : List.Forall₂ Alike path path') :
    dottedText path = dottedText path' := by
  induction h with
  | nil => rfl
  | cons head tail ih =>
    cases tail with
    | nil => exact head.text
    | cons next rest => simp only [dottedText, head.text, head.dotted, next.dotted, ih]

/-- A path that brings the space around it: its last key has a whole leaf decor. -/
def Placed (path : List Key) : Prop :=
  ∃ init last before after, path = init ++ [last] ∧ last.leaf = ⟨some before, some after⟩

def scannedText : List Key → String
  | [] => ""
  | [k] => k.dotted.before.getD "" ++ k.text ++ k.dotted.after.getD ""
  | k :: path => k.dotted.before.getD "" ++ k.text ++ k.dotted.after.getD "" ++ "." ++ scannedText path

theorem pathText_concat (m : Margin) (init : List Key) (last : Key) :
    pathText m (init ++ [last]) = last.leaf.around m (dottedText (init ++ [last])) := by
  simp [pathText]

theorem pathText_congr {above above' : List Key} (h : List.Forall₂ Alike above above')
    {path : List Key} (hp : path ≠ []) (m : Margin) :
    pathText m (above ++ path) = pathText m (above' ++ path) := by
  rw [← List.dropLast_append_getLast hp, ← List.append_assoc, ← List.append_assoc, pathText_concat,
    pathText_concat,
    dottedText_congr (List.rel_append (List.rel_append h (alike_refl path.dropLast)) (alike_refl _))]

theorem Placed.pathText {path : List Key} (h : Placed path) (m m' : Margin) :
    pathText m path = pathText m' path := by
  obtain ⟨init, last, before, after, rfl, hleaf⟩ := h
  simp only [pathText_concat, hleaf, Decor.around, Option.getD_some]

def Spaced (k : Key) : Prop := ∃ before after, k.dotted = ⟨some before, some after⟩

theorem scannedText_clearBefore (first : Key) (path : List Key) :
    scannedText (first :: path) =
      first.dotted.before.getD "" ++ scannedText (first.clearBefore :: path) := by
  cases path <;> simp [scannedText, clearBefore, text, String.append_assoc]

theorem gatherDecor_eq (before : String) {first : Key} {path : List Key}
    (h : ∀ k ∈ first :: path, Spaced k) :
    ∃ init last after, gatherDecor (some before) (first :: path) = init ++ [last] ∧
      last.leaf = ⟨some before, some after⟩ ∧
      (∃ next rest, init ++ [last] = next :: rest ∧ next.dotted.before = first.dotted.before) ∧
      scannedText (first :: path) =
        first.dotted.before.getD "" ++ dottedText (init ++ [last]) ++ after := by
  induction path generalizing first with
  | nil =>
    obtain ⟨b, a, hspace⟩ := h first List.mem_cons_self
    exact ⟨[], _, a, rfl, by simp [clearAfter, hspace], ⟨_, [], rfl, rfl⟩,
      by simp [scannedText, dottedText, text, clearAfter, hspace]⟩
  | cons next path ih =>
    obtain ⟨init, last, after, eq, hleaf, ⟨next', rest, hcons, hbefore⟩, htext⟩ :=
      ih fun k hk => h k (List.mem_cons_of_mem _ hk)
    refine ⟨first :: init, last, after, by simp [gatherDecor, eq], hleaf, ⟨first, _, rfl, rfl⟩, ?_⟩
    rw [List.cons_append, hcons, dottedText, hbefore, ← hcons]
    simp only [scannedText, htext, String.append_assoc]

theorem settle_scanned {path : List Key} (hne : path ≠ []) (h : ∀ k ∈ path, Spaced k) :
    Placed (settle path) ∧ ∀ m, pathText m (settle path) = scannedText path := by
  obtain ⟨first, path, rfl⟩ := List.exists_cons_of_ne_nil hne
  obtain ⟨before, after, hspace⟩ := h first List.mem_cons_self
  have spaced : ∀ k ∈ first.clearBefore :: path, Spaced k := by
    intro k hk
    rcases List.mem_cons.1 hk with rfl | hk
    · exact ⟨"", after, by simp [clearBefore, hspace]⟩
    · exact h k (List.mem_cons_of_mem _ hk)
  obtain ⟨init, last, after, eq, hleaf, _, htext⟩ := gatherDecor_eq before spaced
  have settled : settle (first :: path) = init ++ [last] := by
    rw [settle, hspace, ← eq]
  refine ⟨⟨init, last, before, after, settled, hleaf⟩, fun m => ?_⟩
  rw [settled, pathText_concat, hleaf, scannedText_clearBefore, htext, hspace]
  simp [Decor.around, clearBefore, String.append_assoc]

end Key

namespace Scan

variable {cs rest : List Char}

theorem spaces_append (cs : List Char) : (spaces cs).1 ++ (spaces cs).2 = cs :=
  (span_eq rfl).1.symm

theorem not_mem_spaces {c : Char} (hc : isSpace c = false) (cs : List Char) : c ∉ (spaces cs).1 :=
  fun hm => by simp [(span_eq (rfl : cs.span isSpace = _)).2 c hm] at hc

theorem layout_spaces (cs : List Char) : layout (spaces cs).1 = .ofList (spaces cs).1 :=
  layout_eq (not_mem_spaces (by decide) cs)

theorem bareKey_eq {name : String} (h : bareKey cs = some (name, rest)) : ∃ w, cs = w ++ rest := by
  unfold bareKey at h
  split at h
  · cases h
  · rename_i hspan
    obtain ⟨_, rfl⟩ := Prod.mk.inj (Option.some.inj h)
    exact ⟨_, (span_eq hspan).1⟩

theorem simpleKey_scanned {k : Key} (h : simpleKey cs = some (k, rest)) :
    k.Spaced ∧ cs = (Key.scannedText [k]).toList ++ rest := by
  obtain ⟨name, w, after, hw, rfl, rfl⟩ : ∃ name w after, (spaces cs).2 = w ++ after ∧
      k = { name, written := some (.ofList w),
            dotted := ⟨some (layout (spaces cs).1), some (layout (spaces after).1)⟩ } ∧
      rest = (spaces after).2 := by
    simp only [simpleKey, Option.bind_eq_bind, Option.pure_def] at h
    split at h
    all_goals
      obtain ⟨⟨name, after⟩, hname, eq⟩ := Option.bind_eq_some_iff.1 h
      obtain ⟨rfl, rfl⟩ := Prod.mk.inj (Option.some.inj eq)
    · obtain ⟨w, q, eq, _⟩ := quoted_quotedKey hname
      have took : (spaces cs).2 = (w ++ [q]) ++ after := by simp [eq]
      exact ⟨name, _, after, took, by rw [took, taken_append], rfl⟩
    · obtain ⟨w, q, eq, _⟩ := quoted_quotedKey hname
      have took : (spaces cs).2 = (w ++ [q]) ++ after := by simp [eq]
      exact ⟨name, _, after, took, by rw [took, taken_append], rfl⟩
    · obtain ⟨w, took⟩ := bareKey_eq hname
      exact ⟨name, _, after, took, by rw [took, taken_append], rfl⟩
  refine ⟨⟨_, _, rfl⟩, ?_⟩
  simp only [Key.scannedText, Key.text, Option.getD_some, String.toList_append, layout_spaces,
    String.toList_ofList, List.append_assoc, spaces_append]
  rw [← hw, spaces_append]

theorem keys_scanned {left : Nat} {path : List Key} (h : keys left cs = some (path, rest)) :
    path ≠ [] ∧ (∀ k ∈ path, k.Spaced) ∧ cs = (Key.scannedText path).toList ++ rest := by
  induction left generalizing cs path with
  | zero => cases h
  | succ left ih =>
    simp only [keys, Option.bind_eq_bind, Option.bind_eq_some_iff, Option.pure_def] at h
    obtain ⟨⟨k, after⟩, hk, h⟩ := h
    obtain ⟨spaced, rfl⟩ := simpleKey_scanned hk
    dsimp only at h
    split at h
    · obtain ⟨⟨path, _⟩, hpath, eq⟩ := Option.bind_eq_some_iff.1 h
      obtain ⟨rfl, rfl⟩ := Prod.mk.inj (Option.some.inj eq)
      obtain ⟨hne, hall, rfl⟩ := ih hpath
      refine ⟨List.cons_ne_nil _ _, List.forall_mem_cons.2 ⟨spaced, hall⟩, ?_⟩
      simp [Key.scannedText]
    · obtain ⟨rfl, rfl⟩ := Prod.mk.inj (Option.some.inj h)
      exact ⟨List.cons_ne_nil _ _, List.forall_mem_singleton.2 spaced, rfl⟩

theorem keyPath_eq {path : List Key} (h : keyPath cs = some (path, rest)) :
    Key.Placed path ∧ ∀ m, cs = (Key.pathText m path).toList ++ rest := by
  obtain ⟨keys, hkeys, rfl⟩ := exists_of_map h
  obtain ⟨hne, spaced, rfl⟩ := keys_scanned hkeys
  obtain ⟨placed, text⟩ := Key.settle_scanned hne spaced
  exact ⟨placed, fun m => by rw [text]⟩

end Scan

end DottedPatch.Toml
