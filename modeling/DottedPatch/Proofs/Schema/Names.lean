import DottedPatch.Proofs.Patch.Targets

namespace DottedPatch

namespace Casing

variable {casing : Casing} {a b c : String}

@[simp] theorem admits_self (casing : Casing) (name : String) : casing.admits name name = true := by
  cases casing <;> simp [admits, Text.sameUpToCase]

theorem admits_symm (h : casing.admits a b = true) : casing.admits b a = true := by
  cases casing <;> simp_all [admits, Text.sameUpToCase]

theorem admits_trans (h : casing.admits a b = true) (h' : casing.admits b c = true) :
    casing.admits a c = true := by
  cases casing <;> simp_all [admits, Text.sameUpToCase]

/-- Whether each segment names one of the names at most. -/
def tellsApart (casing : Casing) (names : List String) : Bool :=
  decide (names.Pairwise fun a b => casing.admits a b = false)

theorem nodup_of_tellsApart {names : List String} (h : casing.tellsApart names = true) :
    names.Nodup := by
  rw [tellsApart, decide_eq_true_eq] at h
  refine h.imp fun differ eq => ?_
  rw [eq, admits_self] at differ
  cases differ

theorem find?_of_tellsApart {β : Type} {name : β → String} {xs : List β}
    (apart : casing.tellsApart (xs.map name) = true) {x : β} (hx : x ∈ xs) {segment : String}
    (hs : casing.admits (name x) segment = true) :
    (xs.find? fun y => casing.admits (name y) segment) = some x := by
  obtain ⟨before, after, rfl⟩ := List.append_of_mem hx
  rw [tellsApart, decide_eq_true_eq, List.pairwise_map] at apart
  refine List.find?_eq_some_iff_append.2 ⟨hs, before, after, rfl, fun y hy => ?_⟩
  have differ : casing.admits (name y) (name x) = false :=
    (List.pairwise_append.1 apart).2.2 y hy x List.mem_cons_self
  rw [Bool.not_eq_true', ← Bool.not_eq_true]
  intro hy
  rw [admits_trans hy (admits_symm hs)] at differ
  cases differ

end Casing

namespace Section

mutual

def all (test : Section → Bool) : Section → Bool
  | ⟨name, doc, leaves, children⟩ => test ⟨name, doc, leaves, children⟩ && allOf test children

def allOf (test : Section → Bool) : List Section → Bool
  | [] => true
  | c :: cs => c.all test && allOf test cs

end

theorem allOf_eq_true {test : Section → Bool} {cs : List Section} :
    allOf test cs = true ↔ ∀ c ∈ cs, c.all test = true := by
  induction cs with
  | nil => simp [allOf]
  | cons c cs ih => simp [allOf, ih]

theorem all_eq_true {test : Section → Bool} {s : Section} :
    s.all test = true ↔ test s = true ∧ ∀ c ∈ s.children, c.all test = true := by
  obtain ⟨name, doc, leaves, children⟩ := s
  rw [all, Bool.and_eq_true, allOf_eq_true]

/-- Whether the leaves of each section have names that are told apart, and the sections in it too. A
leaf and a section may share a name. -/
def distinct (casing : Casing) (s : Section) : Bool :=
  s.all fun c => casing.tellsApart (c.leaves.map Leaf.name) && casing.tellsApart (c.children.map name)

def named (s : Section) : Bool :=
  s.all fun c => c.leaves.all (fun l => l.name != "") && c.children.all (fun d => d.name != "")

variable {casing : Casing} {s c : Section} {l : Leaf} {segment : String}

theorem distinct_eq_true :
    s.distinct casing = true ↔
      (casing.tellsApart (s.leaves.map Leaf.name) = true ∧
        casing.tellsApart (s.children.map name) = true) ∧
      ∀ c ∈ s.children, c.distinct casing = true := by
  rw [distinct, all_eq_true, Bool.and_eq_true]
  rfl

theorem child?_of_distinct (h : s.distinct casing = true) (hc : c ∈ s.children)
    (hs : casing.admits c.name segment = true) : s.child? casing segment = some c :=
  Casing.find?_of_tellsApart (distinct_eq_true.1 h).1.2 hc hs

theorem leaf?_of_distinct (h : s.distinct casing = true) (hl : l ∈ s.leaves)
    (hs : casing.admits l.name segment = true) : s.leaf? casing segment = some l :=
  Casing.find?_of_tellsApart (distinct_eq_true.1 h).1.1 hl hs

theorem Contains.reaches {names : List String} (h : s.Contains names l)
    (hs : s.distinct .exact = true) : s.Reaches names l := by
  induction h with
  | here hl => exact .here (leaf?_of_distinct hs hl (Casing.admits_self _ _))
  | under hc _ ih =>
    have below := ih ((distinct_eq_true.1 hs).2 _ hc)
    exact .under (child?_of_distinct hs hc (Casing.admits_self _ _)) below

theorem Contains.head_ne {name : String} {names : List String} (h : s.Contains (name :: names) l)
    (hs : s.named = true) : name ≠ "" := by
  cases h with
  | under hc _ =>
    have here := (all_eq_true.1 hs).1
    rw [Bool.and_eq_true, List.all_eq_true, List.all_eq_true] at here
    simpa using here.2 _ hc

end Section

end DottedPatch
