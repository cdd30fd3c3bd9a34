import DottedPatch.Proofs.Toml.Chains

namespace DottedPatch.Toml

namespace Item

def lineText (a : List Key × Pending) : String := assignmentText .key .value a ++ "\n"

def linesText (as : List (List Key × Pending)) : String := String.join (as.map lineText)

@[simp] theorem linesText_nil : linesText [] = "" := rfl

@[simp] theorem linesText_append (as bs : List (List Key × Pending)) :
    linesText (as ++ bs) = linesText as ++ linesText bs := by
  simp [linesText, String.join_append]

@[simp] theorem linesText_singleton (a : List Key × Pending) : linesText [a] = lineText a := by
  simp [linesText, String.join_cons, String.join_nil]

namespace Section

def text (s : Section) : String :=
  (if s.headed (assignments [] s.members) then s.headerText false else "") ++
    linesText (assignments [] s.members)

def block? (s : Section) : Option (Nat × String) := s.head.position.map fun p => (p, s.text)

/-- A table that a header opened brings the space around the header, and any other has no line. -/
def Settled (s : Section) : Prop :=
  match s.head.position with
  | some _ => s.head.implicit = false ∧ ∃ before after, s.head.decor = ⟨some before, some after⟩
  | none => s.head.implicit = true ∧ s.element = false ∧ assignments [] s.members = []

end Section

theorem sections_append (above : List Key) (es fs : List (Key × Item)) :
    sections above (es ++ fs) = sections above es ++ sections above fs := by
  induction es with
  | nil => simp [sections]
  | cons e es ih => simp [sections, ih]

theorem elementSections_append (above : List Key) (es fs : List (Head × List (Key × Item))) :
    elementSections above (es ++ fs) = elementSections above es ++ elementSections above fs := by
  induction es with
  | nil => simp [elementSections]
  | cons e es ih => simp [elementSections, ih]

theorem Whole.itemSections {item : Item} (h : item.Whole) (above : List Key) :
    itemSections above item = [] := by
  cases h <;> rfl

end Item

namespace Item

namespace Section

/-- Two tables that print alike, though their paths may be spelt apart where it does not show. -/
structure Like (s t : Section) : Prop where
  text : s.text = t.text
  head : s.head = t.head
  element : s.element = t.element
  members : s.members = t.members

theorem Like.block? {s t : Section} (h : Like s t) : s.block? = t.block? := by
  simp only [Section.block?, h.head, h.text]

theorem Like.settled {s t : Section} (h : Like s t) (hs : s.Settled) : t.Settled := by
  simpa only [Settled, ← h.head, ← h.element, ← h.members] using hs

theorem filterMap_block?_congr {ss ts : List Section} (h : List.Forall₂ Like ss ts) :
    ss.filterMap block? = ts.filterMap block? := by
  induction h with
  | nil => rfl
  | cons head _ ih => simp only [List.filterMap_cons, head.block?, ih]

theorem settled_of_forall₂ {ss ts : List Section} (h : List.Forall₂ Like ss ts)
    (hs : ∀ s ∈ ss, s.Settled) : ∀ t ∈ ts, t.Settled := by
  induction h with
  | nil => simp
  | cons head _ ih =>
    obtain ⟨hfirst, hs⟩ := List.forall_mem_cons.1 hs
    exact List.forall_mem_cons.2 ⟨head.settled hfirst, ih hs⟩

end Section

section

variable {above above' : List Key} (h : List.Forall₂ Key.Alike above above')

include h

theorem Section.like_of_alike {path : List Key} (hp : path ≠ []) (element : Bool) (head : Head)
    (ms : Members) :
    Section.Like ⟨above ++ path, element, head, ms⟩ ⟨above' ++ path, element, head, ms⟩ where
  text := by
    simp only [Section.text, Section.headed, Section.headerText, Key.pathText_congr h hp]
    simp [hp]
  head := rfl
  element := rfl
  members := rfl

theorem Section.listed_congr {path : List Key} (hp : path ≠ []) (element : Bool) (head : Head)
    (ms : Members) : List.Forall₂ Section.Like (Section.listed ⟨above ++ path, element, head, ms⟩)
      (Section.listed ⟨above' ++ path, element, head, ms⟩) := by
  unfold Section.listed
  split
  · exact .nil
  · exact .cons (Section.like_of_alike h hp element head ms) .nil

end

mutual

theorem sections_congr {above above' : List Key} (h : List.Forall₂ Key.Alike above above') :
    (ms : List (Key × Item)) → (path : List Key) →
      List.Forall₂ Section.Like (sections (above ++ path) ms) (sections (above' ++ path) ms)
  | [], _ => by simp [sections]
  | (key, item) :: ms, path => by
    simp only [sections, List.append_assoc]
    exact List.rel_append (itemSections_congr h item (by simp)) (sections_congr h ms path)

theorem itemSections_congr {above above' : List Key} (h : List.Forall₂ Key.Alike above above') :
    (item : Item) → {path : List Key} → path ≠ [] → List.Forall₂ Section.Like
      (itemSections (above ++ path) item) (itemSections (above' ++ path) item)
  | .table head entries, path, hp => by
    simp only [itemSections]
    exact List.rel_append (Section.listed_congr h hp false head entries)
      (sections_congr h entries path)
  | .tables elements, path, hp => by
    simp only [itemSections]
    exact elementSections_congr h elements hp
  | .vacant, _, _ | .scalar _ _ _, _, _ | .array _ _ _ _, _, _ | .inline _ _ _ _, _, _ => by
    simp [itemSections]

theorem elementSections_congr {above above' : List Key} (h : List.Forall₂ Key.Alike above above') :
    (elements : List (Head × List (Key × Item))) → {path : List Key} → path ≠ [] →
      List.Forall₂ Section.Like (elementSections (above ++ path) elements)
        (elementSections (above' ++ path) elements)
  | [], _, _ => by simp [elementSections]
  | (head, entries) :: elements, path, hp => by
    simp only [elementSections]
    exact List.rel_append
      (List.rel_append (Section.listed_congr h hp true head entries) (sections_congr h entries path))
      (elementSections_congr h elements hp)

end

section

variable {above above' : List Key} (h : List.Forall₂ Key.Alike above above')

include h

theorem blocks_congr (ms : Members) :
    (sections above ms).filterMap Section.block? = (sections above' ms).filterMap Section.block? := by
  have like := sections_congr h ms []
  rw [List.append_nil, List.append_nil] at like
  exact Section.filterMap_block?_congr like

theorem settled_congr {ms : Members} (hs : ∀ s ∈ sections above ms, s.Settled) :
    ∀ s ∈ sections above' ms, s.Settled := by
  have like := sections_congr h ms []
  rw [List.append_nil, List.append_nil] at like
  exact Section.settled_of_forall₂ like hs

end

end Item

namespace Item.Section

structure AddsBlock (b : Nat × String) (ss ss' : List Section) : Prop where
  settled : ∀ s ∈ ss', s.Settled
  blocks : (ss'.filterMap block?).Perm (b :: ss.filterMap block?)

namespace AddsBlock

variable {b : Nat × String} {ss ss' : List Section}

theorem frame (h : AddsBlock b ss ss') (before after : List Section)
    (hs : ∀ s ∈ before ++ ss ++ after, s.Settled) :
    AddsBlock b (before ++ ss ++ after) (before ++ ss' ++ after) where
  settled := by
    simp only [List.forall_mem_append] at hs ⊢
    exact ⟨⟨hs.1.1, h.settled⟩, hs.2⟩
  blocks := by
    simp only [List.filterMap_append, List.append_assoc]
    exact ((h.blocks.append_right _).append_left _).trans List.perm_middle

theorem of_cons {s : Section} (h : AddsBlock b (s :: ss) ss') (hs : s.block? = none) :
    AddsBlock b ss ss' :=
  ⟨h.settled, by simpa only [List.filterMap_cons_none hs] using h.blocks⟩

theorem move (h : AddsBlock b ss ss') (before after : List Section)
    (hs : ∀ s ∈ before ++ ss ++ after, s.Settled) :
    AddsBlock b (before ++ ss ++ after) (before ++ after ++ ss') := by
  have order : (before ++ after ++ ss').Perm (before ++ ss' ++ after) := by
    simpa only [List.append_assoc] using List.perm_append_comm.append_left before
  have framed := h.frame before after hs
  exact ⟨fun s hs => framed.settled s (order.mem_iff.1 hs),
    (order.filterMap _).trans framed.blocks⟩

theorem below {above : List Key} {ms ms' : Members}
    (h : AddsBlock b (sections above ms) (sections above ms'))
    (same : assignments [] ms' = assignments [] ms) (element : Bool) (head : Head)
    (hs : ∀ s ∈ listed ⟨above, element, head, ms⟩, s.Settled) :
    AddsBlock b (listed ⟨above, element, head, ms⟩ ++ sections above ms)
      (listed ⟨above, element, head, ms'⟩ ++ sections above ms') := by
  have text : Section.text ⟨above, element, head, ms'⟩ = Section.text ⟨above, element, head, ms⟩ := by
    simp only [Section.text, headed, same, headerText]
  have blocks : (listed ⟨above, element, head, ms'⟩).filterMap block? =
      (listed ⟨above, element, head, ms⟩).filterMap block? := by
    by_cases hd : head.dotted <;>
      simp only [listed, hd, if_true, if_false, Bool.false_eq_true, List.filterMap_cons,
        Section.block?, text]
  refine ⟨List.forall_mem_append.2 ⟨?_, h.settled⟩, ?_⟩
  · simp only [listed] at hs ⊢
    split at hs
    · simp_all
    · simp_all [Settled]
  · rw [List.filterMap_append, List.filterMap_append, blocks]
    exact (h.blocks.append_left _).trans List.perm_middle

end AddsBlock

structure Opened (s : Section) (b : Nat × String) : Prop where
  position : s.head.position = some b.1
  implicit : s.head.implicit = false
  decor : ∃ before after, s.head.decor = ⟨some before, some after⟩
  text : s.text = b.2

theorem Opened.settled {s : Section} {b : Nat × String} (h : s.Opened b) : s.Settled := by
  simp only [Settled, h.position]
  exact ⟨h.implicit, h.decor⟩

theorem Opened.block? {s : Section} {b : Nat × String} (h : s.Opened b) : s.block? = some b := by
  simp [Section.block?, h.position, h.text]

theorem Opened.addsBlock {s : Section} {b : Nat × String} (h : s.Opened b) : AddsBlock b [] [s] where
  settled := List.forall_mem_singleton.2 h.settled
  blocks := by simp [h.block?]

end Item.Section

end DottedPatch.Toml
