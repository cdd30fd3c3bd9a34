import DottedPatch.Proofs.Patch.Steps
import DottedPatch.Proofs.Toml.Paths

namespace DottedPatch

open Toml

namespace Section

/-- The leaf that the names of sections and its own name lead to, spelt as in the schema. -/
inductive Reaches : Section → (parents : List String) → Leaf → Prop
  | here {s : Section} {l : Leaf} : s.leaf? .exact l.name = some l → Reaches s [] l
  | under {s c : Section} {parents : List String} {l : Leaf} : s.child? .exact c.name = some c →
      Reaches c parents l → Reaches s (c.name :: parents) l

/-- The leaves of a section by the names on the way, those hidden behind others of their name too. -/
inductive Contains : Section → (parents : List String) → Leaf → Prop
  | here {s : Section} {l : Leaf} : l ∈ s.leaves → Contains s [] l
  | under {s c : Section} {parents : List String} {l : Leaf} : c ∈ s.children →
      Contains c parents l → Contains s (c.name :: parents) l

theorem Reaches.contains {s : Section} {parents : List String} {l : Leaf} (h : s.Reaches parents l) :
    s.Contains parents l := by
  induction h with
  | here h => exact .here (List.mem_of_find?_eq_some h)
  | under h _ ih => exact .under (List.mem_of_find?_eq_some h) ih

theorem find?_exact {β : Type} {casing : Casing} {segment : String} {name : β → String} {xs : List β}
    {x : β} (h : (xs.find? fun y => casing.admits (name y) segment) = some x) :
    (xs.find? fun y => Casing.exact.admits (name y) (name x)) = some x := by
  rw [List.find?_eq_some_iff_append] at h ⊢
  obtain ⟨hx, before, after, rfl, hbefore⟩ := h
  refine ⟨by simp [Casing.admits], before, after, rfl, fun y hy => ?_⟩
  have ne : name y ≠ name x := by
    intro eq
    have := hbefore y hy
    simp [eq, hx] at this
  simpa [Casing.admits] using ne

theorem name_of_child? {s c : Section} {segment : String} (h : s.child? .exact segment = some c) :
    c.name = segment := by simpa [Casing.admits] using List.find?_some h

theorem name_of_leaf? {s : Section} {l : Leaf} {segment : String}
    (h : s.leaf? .exact segment = some l) : l.name = segment := by
  simpa [Casing.admits] using List.find?_some h

theorem child?_exact {casing : Casing} {segment : String} {s c : Section}
    (h : s.child? casing segment = some c) : s.child? .exact c.name = some c :=
  find?_exact h

theorem leaf?_exact {casing : Casing} {segment : String} {s : Section} {l : Leaf}
    (h : s.leaf? casing segment = some l) : s.leaf? .exact l.name = some l :=
  find?_exact h

end Section

namespace Patch

def Target.In (t : Target) (schema : Schema) : Prop := schema.root.Reaches t.parents t.leaf

def Target.under (name : String) (t : Target) : Target := { t with parents := name :: t.parents }

@[simp] theorem Target.keys_under (name : String) (t : Target) :
    (t.under name).keys = name :: t.keys := rfl

@[simp] theorem Target.keys_ne_nil (t : Target) : t.keys ≠ [] := by simp [keys]

theorem reaches_of_resolve {casing : Casing} {walked segments : List String} {s : Section}
    {target : Target} (h : (resolve casing walked segments s).2 = .ok target) :
    ∃ names, target.parents = walked ++ names ∧ s.Reaches names target.leaf := by
  induction segments generalizing walked s with
  | nil => simp [resolve] at h
  | cons segment rest ih =>
    cases rest with
    | nil =>
      simp only [resolve] at h
      split at h
      · rename_i leaf hl
        obtain rfl := Except.ok.inj h
        exact ⟨[], by simp, .here (Section.leaf?_exact hl)⟩
      · simp at h
    | cons next rest =>
      simp only [resolve] at h
      split at h
      · rename_i child hc
        obtain ⟨names, hp, hr⟩ := ih h
        refine ⟨child.name :: names, ?_, .under (Section.child?_exact hc) hr⟩
        rw [hp, List.append_assoc, List.singleton_append]
      · simp at h

theorem resolve_of_reaches {s : Section} {names : List String} {l : Leaf} (h : s.Reaches names l)
    (walked : List String) :
    (resolve .exact walked (names ++ [l.name]) s).2 = .ok ⟨walked ++ names, l⟩ := by
  induction h generalizing walked with
  | here h => simp [resolve, h]
  | @under s c names l hc _ ih =>
    cases hn : names ++ [l.name] with
    | nil => simp at hn
    | cons next rest =>
      rw [hn] at ih
      simp only [List.cons_append, hn, resolve, hc]
      rw [ih, List.append_assoc, List.singleton_append]

theorem in_of_assignment? {schema : Schema} {rules : Rules} {line : Line} {a : Assignment}
    (h : line.assignment? schema rules = some a) : a.target.In schema := by
  obtain ⟨hr, _⟩ := assignment?_eq_some_iff.1 h
  obtain ⟨names, hp, reach⟩ := reaches_of_resolve hr
  rw [Target.In, hp]
  exact reach

theorem Target.In.assignment? {schema : Schema} {target : Target} (h : target.In schema)
    {policy : EntryPolicy} {raw : String} {v : Option LeafValue}
    (hv : coerce policy target.leaf raw = .ok v) (number : Nat) :
    Line.assignment? schema ⟨.exact, policy⟩ ⟨number, target.keys, raw⟩ = some ⟨target, v⟩ :=
  assignment?_eq_some_iff.2 ⟨resolve_of_reaches h [], hv⟩

end Patch

namespace Section

theorem mem_leavesOfAll {above : String} {cs : List Section} {e : String × Leaf} :
    e ∈ leavesOfAll above cs ↔ ∃ c ∈ cs, e ∈ c.leavesBelow (pathBelow above c.name) := by
  induction cs with
  | nil => simp [leavesOfAll]
  | cons c cs ih => simp [leavesOfAll, ih]

theorem mem_leavesBelow {above : String} {s : Section} {e : String × Leaf} :
    e ∈ s.leavesBelow above ↔ (∃ l ∈ s.leaves, e = (pathBelow above l.name, l)) ∨
      ∃ c ∈ s.children, e ∈ c.leavesBelow (pathBelow above c.name) := by
  obtain ⟨name, doc, leaves, children⟩ := s
  simp [leavesBelow, mem_leavesOfAll, eq_comm]

mutual

def targets : Section → List Patch.Target
  | ⟨_, _, leaves, children⟩ => leaves.map (fun l => ⟨[], l⟩) ++ targetsOfAll children

def targetsOfAll : List Section → List Patch.Target
  | [] => []
  | c :: cs => c.targets.map (·.under c.name) ++ targetsOfAll cs

end

mutual

theorem leavesBelow_eq (above : String) :
    (s : Section) → s.leavesBelow above = s.targets.map fun t => (t.keys.foldl pathBelow above, t.leaf)
  | ⟨name, doc, leaves, children⟩ => by
    rw [leavesBelow, targets, leavesOfAll_eq above children, List.map_append, List.map_map]
    rfl

theorem leavesOfAll_eq (above : String) :
    (cs : List Section) →
      leavesOfAll above cs = (targetsOfAll cs).map fun t => (t.keys.foldl pathBelow above, t.leaf)
  | [] => rfl
  | c :: cs => by
    rw [leavesOfAll, targetsOfAll, leavesBelow_eq _ c, leavesOfAll_eq above cs, List.map_append,
      List.map_map]
    rfl

end

theorem mem_targetsOfAll {cs : List Section} {t : Patch.Target} :
    t ∈ targetsOfAll cs ↔ ∃ c ∈ cs, ∃ u ∈ c.targets, t = u.under c.name := by
  induction cs with
  | nil => simp [targetsOfAll]
  | cons c cs ih => simp [targetsOfAll, ih, eq_comm]

theorem Contains.mem_targets {s : Section} {names : List String} {l : Leaf} (h : s.Contains names l) :
    ⟨names, l⟩ ∈ s.targets := by
  induction h with
  | @here s l hl =>
    obtain ⟨name, doc, leaves, children⟩ := s
    exact List.mem_append_left _ (List.mem_map.2 ⟨l, hl, rfl⟩)
  | @under s c names l hc _ ih =>
    obtain ⟨name, doc, leaves, children⟩ := s
    exact List.mem_append_right _ (mem_targetsOfAll.2 ⟨c, hc, _, ih, rfl⟩)

theorem contains_of_mem_targets {t : Patch.Target} :
    (s : Section) → t ∈ s.targets → s.Contains t.parents t.leaf
  | ⟨name, doc, leaves, children⟩, h => by
    rcases List.mem_append.1 (targets.eq_1 .. ▸ h) with h | h
    · obtain ⟨l, hl, rfl⟩ := List.mem_map.1 h
      exact .here hl
    · obtain ⟨c, hc, u, hu, rfl⟩ := mem_targetsOfAll.1 h
      exact .under hc (contains_of_mem_targets c hu)

theorem Contains.mem_leavesBelow {s : Section} {names : List String} {l : Leaf}
    (h : s.Contains names l) (above : String) :
    ((names ++ [l.name]).foldl pathBelow above, l) ∈ s.leavesBelow above := by
  rw [leavesBelow_eq]
  exact List.mem_map.2 ⟨_, h.mem_targets, rfl⟩

theorem contains_of_mem {above path : String} {l : Leaf} {s : Section}
    (h : (path, l) ∈ s.leavesBelow above) :
    ∃ names, s.Contains names l ∧ path = (names ++ [l.name]).foldl pathBelow above := by
  rw [leavesBelow_eq] at h
  obtain ⟨t, ht, eq⟩ := List.mem_map.1 h
  cases eq
  exact ⟨t.parents, contains_of_mem_targets s ht, rfl⟩

theorem foldl_pathBelow {above : String} (h : above ≠ "") (names : List String) :
    names.foldl pathBelow above = dotted (above :: names) := by
  induction names generalizing above with
  | nil => simp
  | cons name names ih =>
    have longer : above ++ "." ++ name ≠ "" := by simp
    rw [List.foldl_cons, pathBelow, if_neg h, ih longer]
    cases names with
    | nil => simp [dotted, Text.join]
    | cons next names => simp [dotted, Text.join, String.intercalate_cons_cons, String.append_assoc]

theorem foldl_pathBelow_empty {name : String} {names : List String}
    (h : names ≠ [] → name ≠ "") : (name :: names).foldl pathBelow "" = dotted (name :: names) := by
  rw [List.foldl_cons, pathBelow, if_pos rfl]
  by_cases hn : names = []
  · subst hn
    simp
  · exact foldl_pathBelow (h hn) names

end Section

end DottedPatch
