import DottedPatch.Proofs.Toml.Sections
import Mathlib.Data.List.Nodup
import Mathlib.Data.List.Perm.Basic

namespace DottedPatch.Toml

namespace Item.Section

theorem map_snd_numbered (last : Nat) (ss : List Item.Section) : (numbered last ss).map Prod.snd = ss := by
  induction ss generalizing last with
  | nil => rfl
  | cons s ss ih => rw [numbered, List.map_cons, ih]

end Item.Section

def Document.sections (d : Document) : List Item.Section :=
  ⟨[], false, {}, d.members⟩ :: Item.sections [] d.members

theorem Document.text_of_ordered {d : Document}
    (h : (Item.Section.numbered 0 d.sections).Pairwise fun a b => a.1 ≤ b.1) :
    d.text = Item.Section.texts true d.sections ++ d.trailing := by
  have sorted := List.mergeSort_of_pairwise (h.imp fun le => decide_eq_true le)
  rw [Document.text, show (⟨[], false, {}, d.members⟩ :: Item.sections [] d.members) = d.sections from rfl,
    sorted, Item.Section.map_snd_numbered]

def Document.prints (d : Document) (text : String) : Bool :=
  decide ((Item.Section.numbered 0 d.sections).Pairwise fun a b => a.1 ≤ b.1) &&
    decide (Item.Section.texts true d.sections ++ d.trailing = text)

theorem Document.text_of_prints {d : Document} {text : String} (h : d.prints text) :
    d.text = text := by
  simp only [prints, Bool.and_eq_true, decide_eq_true_eq] at h
  rw [text_of_ordered h.1, h.2]

/-- The text that a document prints is read as the tree of the document. -/
def Document.Reprints (d : Document) : Prop := Table.read? d.text = some d.table

/-- The text that a document prints is read as what the document denotes. Of a document that reprints
this says only that no table in it spells a datetime: such a table is read as the datetime. -/
def Document.Faithful (d : Document) : Prop := Table.read? d.text = d.denoted?

def Item.Section.pieces : (first : Bool) → List Section → List String
  | _, [] => []
  | first, s :: rest =>
    let values := assignments [] s.members
    let header := if s.headed values then s.headerText first else ""
    let blank := !s.headed values && (s.path ≠ [] || values.isEmpty)
    header :: (values.map fun v => assignmentText .key .value v ++ "\n") ++ pieces (first && blank) rest

theorem Item.Section.texts_eq_join_pieces (first : Bool) (ss : List Section) :
    texts first ss = String.join (pieces first ss) := by
  induction ss generalizing first with
  | nil => rfl
  | cons s ss ih =>
    simp only [texts, pieces, ih, List.cons_append, String.join_cons, String.join_append,
      String.append_assoc]

def Document.readChars? (cs : List Char) : Option Document := do
  let cs := dropMark cs
  let (statements, trailing) ← Scan.statements (cs.length + 1) [] cs
  ofStatements? statements trailing

/-- The tables of the document are in order, and its text is read as the table. A long text is not put
together for this. -/
def Document.rereads (d : Document) (t : Table) : Bool :=
  let chars := (Item.Section.pieces true d.sections).flatMap String.toList ++ d.trailing.toList
  decide ((Item.Section.numbered 0 d.sections).Pairwise fun a b => a.1 ≤ b.1) &&
    decide ((readChars? chars).bind denoted? = some t)

theorem Document.read?_text_of_rereads {d : Document} {t : Table} (h : d.rereads t) :
    Table.read? d.text = some t := by
  simp only [rereads, Bool.and_eq_true, decide_eq_true_eq] at h
  have chars : d.text.toList =
      (Item.Section.pieces true d.sections).flatMap String.toList ++ d.trailing.toList := by
    rw [text_of_ordered h.1, String.toList_append, Item.Section.texts_eq_join_pieces, String.toList_join]
  rw [← h.2, ← chars]
  rfl

namespace Item

theorem Section.eq_of_mem_listed {s t : Section} (h : s ∈ t.listed) : s = t := by
  unfold listed at h
  split at h
  · cases h
  · exact List.mem_singleton.1 h

mutual

theorem path_of_mem_sections : (ms : List (Key × Item)) → {above : List Key} → {s : Section} →
    s ∈ sections above ms → s.path ≠ []
  | [], _, _, h => by simp [sections] at h
  | (key, item) :: ms, _, s, h => by
    simp only [sections, List.mem_append] at h
    exact h.elim (path_of_mem_itemSections item (by simp)) (path_of_mem_sections ms)

theorem path_of_mem_itemSections : (item : Item) → {path : List Key} → path ≠ [] → {s : Section} →
    s ∈ itemSections path item → s.path ≠ []
  | .table head entries, path, hp, s, h => by
    simp only [itemSections, List.mem_append] at h
    exact h.elim (fun h => by rw [Section.eq_of_mem_listed h]; exact hp) (path_of_mem_sections entries)
  | .tables elements, _, hp, _, h => path_of_mem_elementSections elements hp (by simpa only [itemSections] using h)
  | .vacant, _, _, _, h | .scalar _ _ _, _, _, _, h | .array _ _ _ _, _, _, _, h
  | .inline _ _ _ _, _, _, _, h => by simp [itemSections] at h

theorem path_of_mem_elementSections : (elements : List (Head × List (Key × Item))) →
    {path : List Key} → path ≠ [] → {s : Section} → s ∈ elementSections path elements → s.path ≠ []
  | [], _, _, _, h => by simp [elementSections] at h
  | (head, entries) :: elements, path, hp, s, h => by
    simp only [elementSections, List.mem_append] at h
    exact h.elim
      (fun h => h.elim (fun h => by rw [Section.eq_of_mem_listed h]; exact hp) (path_of_mem_sections entries))
      (path_of_mem_elementSections elements hp)

end

namespace Section

theorem Settled.not_headed {s : Section} (h : s.Settled) (hp : s.head.position = none) :
    s.headed (assignments [] s.members) = false := by
  simp only [Settled, hp] at h
  simp [headed, h]

theorem Settled.headerText {s : Section} (h : s.Settled) {position : Nat}
    (hp : s.head.position = some position) (first : Bool) :
    s.headerText first = s.headerText false := by
  simp only [Settled, hp] at h
  obtain ⟨_, before, after, hdecor⟩ := h
  simp [Section.headerText, hdecor, Decor.around]

theorem texts_eq {ss : List Section} (h : ∀ s ∈ ss, s.path = [] ∨ s.Settled) (first : Bool) :
    texts first ss = String.join (ss.map text) := by
  induction ss generalizing first with
  | nil => rfl
  | cons s ss ih =>
    obtain ⟨hs, h⟩ := List.forall_mem_cons.1 h
    have header : (if s.headed (assignments [] s.members) then s.headerText first else "") =
        if s.headed (assignments [] s.members) then s.headerText false else "" := by
      rcases hs with root | settled
      · simp [headed, root]
      · cases hp : s.head.position with
        | none => simp [settled.not_headed hp]
        | some position => rw [settled.headerText hp first]
    simp only [texts, header, ih h, List.map_cons, String.join_cons]
    rfl

theorem text_of_block?_eq_none {s : Section} (h : s.Settled) (hb : s.block? = none) : s.text = "" := by
  have hp : s.head.position = none := by simpa [block?] using hb
  have headed := h.not_headed hp
  simp only [Settled, hp] at h
  rw [text, headed]
  simp [h.2.2]

def shown? (x : Nat × Section) : Option (Nat × String) :=
  if x.2.path = [] then some (x.1, x.2.text) else x.2.block?

theorem filterMap_shown? (last : Nat) {ss : List Section} (h : ∀ s ∈ ss, s.path ≠ []) :
    (numbered last ss).filterMap shown? = ss.filterMap block? := by
  induction ss generalizing last with
  | nil => rfl
  | cons s ss ih =>
    obtain ⟨hs, h⟩ := List.forall_mem_cons.1 h
    simp only [numbered, List.filterMap_cons, shown?, hs, if_false, ih _ h]

theorem fst_of_shown? {last : Nat} {ss : List Section} {x : Nat × Section} (hx : x ∈ numbered last ss)
    {b : Nat × String} (hb : shown? x = some b) : b.1 = x.1 := by
  induction ss generalizing last with
  | nil => cases hx
  | cons s ss ih =>
    rcases List.mem_cons.1 hx with rfl | hx
    · simp only [shown?, block?] at hb
      split at hb
      · exact (Option.some.inj hb) ▸ rfl
      · obtain ⟨p, hp, rfl⟩ := Option.map_eq_some_iff.1 hb
        simp [hp]
    · exact ih hx

theorem join_filterMap {xs : List (Nat × Section)} (h : ∀ x ∈ xs, x.2.path = [] ∨ x.2.Settled) :
    String.join (xs.map fun x => x.2.text) = String.join ((xs.filterMap shown?).map Prod.snd) := by
  induction xs with
  | nil => rfl
  | cons x xs ih =>
    obtain ⟨hx, h⟩ := List.forall_mem_cons.1 h
    rw [List.map_cons, String.join_cons, ih h, List.filterMap_cons]
    cases hb : shown? x with
    | none =>
      simp only [shown?] at hb
      split at hb
      · cases hb
      · rename_i below
        rw [text_of_block?_eq_none (hx.resolve_left below) hb, String.empty_append]
    | some b =>
      have text : b.2 = x.2.text := by
        simp only [shown?, block?] at hb
        split at hb
        · exact (Option.some.inj hb) ▸ rfl
        · obtain ⟨p, _, rfl⟩ := Option.map_eq_some_iff.1 hb
          rfl
      rw [List.map_cons, String.join_cons, text]

def ordered (ss : List Section) : List (Nat × Section) :=
  (numbered 0 ss).mergeSort fun a b => a.1 ≤ b.1

theorem ordered_perm (ss : List Section) : (ordered ss).Perm (numbered 0 ss) := List.mergeSort_perm ..

theorem mem_of_mem_ordered {ss : List Section} {x : Nat × Section} (h : x ∈ ordered ss) : x.2 ∈ ss := by
  rw [← map_snd_numbered 0 ss]
  exact List.mem_map_of_mem ((ordered_perm ss).mem_iff.1 h)

theorem pairwise_ordered (ss : List Section) :
    ((ordered ss).filterMap shown?).Pairwise fun a b => a.1 ≤ b.1 := by
  have byNumber : (ordered ss).Pairwise fun x y => x.1 ≤ y.1 := by
    simpa [ordered] using
      @List.pairwise_mergeSort (Nat × Section) (fun x y => decide (x.1 ≤ y.1))
        (fun x y z => by simpa using Nat.le_trans) (fun x y => by simpa using Nat.le_total x.1 y.1)
        (numbered 0 ss)
  refine List.pairwise_filterMap.2 (byNumber.imp_of_mem fun hx hy le a ha b hb => ?_)
  rw [fst_of_shown? ((ordered_perm ss).mem_iff.1 hx) ha, fst_of_shown? ((ordered_perm ss).mem_iff.1 hy) hb]
  exact le

theorem filterMap_ordered {ss : List Section} {bs : List (Nat × String)}
    (h : ((numbered 0 ss).filterMap shown?).Perm bs) (hlt : bs.Pairwise (·.1 < ·.1)) :
    (ordered ss).filterMap shown? = bs := by
  have perm := ((ordered_perm ss).filterMap shown?).trans h
  have distinct : (bs.map Prod.fst).Nodup := List.pairwise_map.2 (hlt.imp Nat.ne_of_lt)
  refine List.Perm.eq_of_pairwise (fun a b ha hb le ge => ?_) (pairwise_ordered ss)
    (hlt.imp Nat.le_of_lt) perm
  exact List.inj_on_of_nodup_map distinct (perm.mem_iff.1 ha) hb (Nat.le_antisymm le ge)

end Section

end Item

open Item

theorem Document.text_of_blocks {d : Document} (hs : ∀ s ∈ Item.sections [] d.members, s.Settled)
    {bs : List (Nat × String)}
    (hb : ((Item.sections [] d.members).filterMap Section.block?).Perm bs)
    (hlt : bs.Pairwise (·.1 < ·.1)) (hpos : ∀ b ∈ bs, 0 < b.1) :
    d.text = linesText (assignments [] d.members) ++ String.join (bs.map Prod.snd) ++ d.trailing := by
  have settled (s) (h : s ∈ d.sections) : s.path = [] ∨ s.Settled :=
    (List.mem_cons.1 h).imp (fun eq => by rw [eq]) (hs s)
  have below := Section.filterMap_shown? 0 fun s (hs : s ∈ Item.sections [] d.members) =>
    path_of_mem_sections d.members hs
  have shown : (Section.numbered 0 d.sections).filterMap Section.shown? =
      (0, linesText (assignments [] d.members)) ::
        (Item.sections [] d.members).filterMap Section.block? := by
    rw [← below]
    rfl
  have eq := Section.filterMap_ordered (shown ▸ hb.cons _) (List.pairwise_cons.2 ⟨hpos, hlt⟩)
  calc
    d.text = Section.texts true ((Section.ordered d.sections).map Prod.snd) ++ d.trailing := rfl
    _ = String.join (((Section.ordered d.sections).filterMap Section.shown?).map Prod.snd) ++
        d.trailing := by
      rw [Section.texts_eq, List.map_map]
      · exact congrArg (· ++ d.trailing)
          (Section.join_filterMap fun x hx => settled x.2 (Section.mem_of_mem_ordered hx))
      · intro s h
        obtain ⟨x, hx, rfl⟩ := List.mem_map.1 h
        exact settled x.2 (Section.mem_of_mem_ordered hx)
    _ = _ := by rw [eq, List.map_cons, String.join_cons]

end DottedPatch.Toml
