import DottedPatch.Proofs.Patch.Storage

namespace DottedPatch

open Config Toml

mutual

/-- Names have no dots, leaves are fields that suit them, and sections are records. -/
def Section.describes : Section → Fields → Bool
  | ⟨_, _, leaves, children⟩, fields =>
    leaves.all (fun l =>
      decide (DotFree l.name) &&
        match fields.find? l.name with
        | some p => l.kind.suits p.shape && l.onNull.suits p
        | none => false) &&
      Section.allDescribe children fields

def Section.allDescribe : List Section → Fields → Bool
  | [], _ => true
  | c :: cs, fields =>
    decide (DotFree c.name) && decide (c.name ≠ "") &&
      (match fields.find? c.name with
      | some ⟨_, .record _ sub⟩ => c.describes sub
      | _ => false) &&
      Section.allDescribe cs fields

end

theorem Kind.not_suits_record {k : Kind} {s : Shape} (h : k.suits s) : s.isRecord = false := by
  cases s with
  | record => cases k <;> simp [Kind.suits] at h
  | boolean | integer | string | strings | stringSet | stringMap | choice => rfl

namespace Section

variable {s : Section} {fields : Fields}

theorem describes_leaf (h : s.describes fields) {l : Leaf} (hl : l ∈ s.leaves) :
    DotFree l.name ∧ ∃ p, fields.find? l.name = some p ∧ l.kind.suits p.shape ∧ l.onNull.suits p := by
  obtain ⟨name, doc, leaves, children⟩ := s
  rw [describes, Bool.and_eq_true, List.all_eq_true] at h
  have leaf := h.1 l hl
  rw [Bool.and_eq_true, decide_eq_true_eq] at leaf
  refine ⟨leaf.1, ?_⟩
  cases hp : fields.find? l.name with
  | none => simp [hp] at leaf
  | some p => exact ⟨p, rfl, by simpa [hp] using leaf.2⟩

theorem allDescribe_mem {cs : List Section} (h : allDescribe cs fields) {c : Section} (hc : c ∈ cs) :
    DotFree c.name ∧ c.name ≠ "" ∧
      ∃ optional name sub, fields.find? c.name = some ⟨optional, .record name sub⟩ ∧
        c.describes sub := by
  induction cs with
  | nil => simp at hc
  | cons d cs ih =>
    simp only [allDescribe, Bool.and_eq_true, decide_eq_true_eq] at h
    obtain ⟨⟨⟨dots, named⟩, record⟩, rest⟩ := h
    rcases List.mem_cons.1 hc with rfl | hc
    · refine ⟨dots, named, ?_⟩
      split at record
      · rename_i optional name sub hd
        exact ⟨optional, name, sub, hd, record⟩
      · simp at record
    · exact ih rest hc

theorem describes_child (h : s.describes fields) {c : Section} (hc : c ∈ s.children) :
    DotFree c.name ∧ c.name ≠ "" ∧
      ∃ optional name sub, fields.find? c.name = some ⟨optional, .record name sub⟩ ∧
        c.describes sub := by
  obtain ⟨name, doc, leaves, children⟩ := s
  rw [describes, Bool.and_eq_true] at h
  exact allDescribe_mem h.2 hc

namespace Contains

variable {names : List String} {l : Leaf}

theorem dotFree (hc : s.Contains names l) (h : s.describes fields) :
    ∀ name ∈ names ++ [l.name], DotFree name := by
  induction hc generalizing fields with
  | here hl => simpa using (describes_leaf h hl).1
  | under hc _ ih =>
    obtain ⟨dots, _, _, _, sub, _, hsub⟩ := describes_child h hc
    intro name hn
    rcases List.mem_cons.1 hn with rfl | hn
    · exact dots
    · exact ih hsub name hn

theorem foldl_pathBelow (hc : s.Contains names l) (h : s.describes fields) :
    (names ++ [l.name]).foldl pathBelow "" = dotted (names ++ [l.name]) := by
  cases hc with
  | here => exact foldl_pathBelow_empty fun h => absurd rfl h
  | under hc _ =>
    obtain ⟨_, named, _⟩ := describes_child h hc
    exact foldl_pathBelow_empty fun _ => named

theorem leaf? (hc : s.Contains names l) (h : s.describes fields) :
    ∃ p, fields.leaf? (names ++ [l.name]) = some p ∧ l.kind.suits p.shape ∧ l.onNull.suits p := by
  induction hc generalizing fields with
  | here hl => exact (describes_leaf h hl).2
  | under hc _ ih =>
    obtain ⟨_, _, _, inner, sub, hfind, hsub⟩ := describes_child h hc
    obtain ⟨p, hp, suits⟩ := ih hsub
    exact ⟨p, (Fields.leaf?_cons (by simp)).2 ⟨_, _, _, hfind, hp⟩, suits⟩

theorem isLeaf (hc : s.Contains names l) (h : s.describes fields) :
    fields.IsLeaf (names ++ [l.name]) := by
  obtain ⟨p, hp, suits, _⟩ := hc.leaf? h
  exact ⟨p, hp, Kind.not_suits_record suits⟩

end Contains

end Section

namespace Patch

variable {schema : Schema} {fields : Fields}

theorem suits_of_describes (h : schema.root.describes fields) (name : String) :
    schema.Suits (.record name fields) where
  keys target hin := pathOf_dotted (by simp) (hin.contains.dotFree h)
  place target hin := by
    obtain ⟨p, hp, hk, hn⟩ := hin.contains.leaf? h
    exact ⟨p, Fields.at?_of_leaf? hp name, Leaf.suits_of_suits hk hn⟩

theorem contains_of_mem_leaves (h : schema.root.describes fields) {path : String} {leaf : Leaf}
    (hl : (path, leaf) ∈ schema.leaves) :
    ∃ names, schema.root.Contains names leaf ∧ path = dotted (names ++ [leaf.name]) ∧
      pathOf path = names ++ [leaf.name] := by
  obtain ⟨names, hc, hpath⟩ := Section.contains_of_mem hl
  rw [hc.foldl_pathBelow h] at hpath
  exact ⟨names, hc, hpath, by rw [hpath, pathOf_dotted (by simp) (hc.dotFree h)]⟩

theorem apart_of_describes (h : schema.root.describes fields) {path : String} {leaf : Leaf}
    (hl : (path, leaf) ∈ schema.leaves) {target : Target} (hin : target.In schema)
    (ne : target.path ≠ path) :
    Table.Apart target.keys (pathOf path) := by
  obtain ⟨names, hc, hpath, keys⟩ := contains_of_mem_leaves h hl
  rw [keys]
  have distinct : target.keys ≠ names ++ [leaf.name] := by
    intro eq
    exact ne (by rw [hpath, ← eq]; rfl)
  exact (hin.contains.isLeaf h).apart (hc.isLeaf h) distinct

theorem Target.In.mem_leaves {target : Target} (hin : target.In schema)
    (h : schema.root.describes fields) : (target.path, target.leaf) ∈ schema.leaves := by
  have := hin.contains.mem_leavesBelow ""
  rwa [hin.contains.foldl_pathBelow h] at this

end Patch

end DottedPatch
