import DottedPatch.Patch.Values
import DottedPatch.Proofs.Patch.Idempotence
import DottedPatch.Proofs.Patch.Keys
import DottedPatch.Proofs.Patch.Trails
import DottedPatch.Proofs.Schema.Names
import Mathlib.Data.List.Nodup

namespace DottedPatch

open Config Toml Patch

namespace Section

mutual

theorem nodup_keys : (s : Section) → s.distinct .exact = true → (s.targets.map Target.keys).Nodup
  | ⟨name, doc, leaves, children⟩, h => by
    obtain ⟨⟨leavesApart, childrenApart⟩, below⟩ := distinct_eq_true.1 h
    have own : (leaves.map fun l => (⟨[], l⟩ : Target)).map Target.keys =
        (leaves.map Leaf.name).map fun name => [name] := by
      simp [Target.keys]
    rw [targets, List.map_append, own, List.nodup_append]
    refine ⟨?_, nodup_keysOfAll children childrenApart below, ?_⟩
    · exact (Casing.nodup_of_tellsApart leavesApart).map fun a b eq => List.head_eq_of_cons_eq eq
    · -- The keys of a leaf in a section further down are more than one.
      intro keys hk keys' hk' eq
      obtain ⟨name, -, rfl⟩ := List.mem_map.1 hk
      obtain ⟨t, ht, rfl⟩ := List.mem_map.1 hk'
      obtain ⟨c, -, u, -, rfl⟩ := mem_targetsOfAll.1 ht
      exact u.keys_ne_nil (List.tail_eq_of_cons_eq eq).symm

theorem nodup_keysOfAll :
    (cs : List Section) → Casing.exact.tellsApart (cs.map name) = true →
      (∀ c ∈ cs, c.distinct .exact = true) → ((targetsOfAll cs).map Target.keys).Nodup
  | [], _, _ => List.nodup_nil
  | c :: cs, apart, below => by
    have names := apart
    rw [Casing.tellsApart, decide_eq_true_eq, List.map_cons, List.pairwise_cons] at names
    have own : (c.targets.map (·.under c.name)).map Target.keys =
        (c.targets.map Target.keys).map (c.name :: ·) := by
      simp
    rw [targetsOfAll, List.map_append, own, List.nodup_append]
    refine ⟨?_, nodup_keysOfAll cs (decide_eq_true names.2)
      fun d hd => below d (List.mem_cons_of_mem c hd), ?_⟩
    · exact (nodup_keys c (below c List.mem_cons_self)).map List.cons_injective
    · -- They start with the names of other sections.
      intro keys hk keys' hk' eq
      obtain ⟨_, -, rfl⟩ := List.mem_map.1 hk
      obtain ⟨t, ht, rfl⟩ := List.mem_map.1 hk'
      obtain ⟨d, hd, u, -, rfl⟩ := mem_targetsOfAll.1 ht
      have differ := names.1 d.name (List.mem_map.2 ⟨d, hd, rfl⟩)
      rw [List.head_eq_of_cons_eq eq, Casing.admits_self] at differ
      cases differ

end

theorem Contains.foldl_pathBelow_of_named {s : Section} {names : List String} {l : Leaf}
    (h : s.Contains names l) (hs : s.named = true) :
    (names ++ [l.name]).foldl pathBelow "" = dotted (names ++ [l.name]) := by
  cases names with
  | nil => exact foldl_pathBelow_empty fun rest => absurd rfl rest
  | cons name names => exact foldl_pathBelow_empty fun _ => h.head_ne hs

end Section

namespace Schema

variable {schema : Schema}

theorem leaves_eq (named : schema.root.named = true) :
    schema.leaves = schema.root.targets.map fun t => (t.path, t.leaf) := by
  rw [leaves, Section.leavesBelow_eq]
  refine List.map_congr_left fun t ht => ?_
  exact congrArg (·, t.leaf) ((Section.contains_of_mem_targets _ ht).foldl_pathBelow_of_named named)

theorem mem_leaves_iff (named : schema.root.named = true) {path : String} {l : Leaf} :
    (path, l) ∈ schema.leaves ↔
      ∃ names, schema.root.Contains names l ∧ path = dotted (names ++ [l.name]) := by
  rw [leaves_eq named, List.mem_map]
  constructor
  · rintro ⟨t, ht, eq⟩
    cases eq
    exact ⟨t.parents, Section.contains_of_mem_targets _ ht, rfl⟩
  · rintro ⟨names, h, rfl⟩
    exact ⟨⟨names, l⟩, h.mem_targets, rfl⟩

theorem nodup_leaves (named : schema.root.named = true) (dotFree : schema.root.dotFree = true)
    (distinct : schema.root.distinct .exact = true) : (schema.leaves.map Prod.fst).Nodup := by
  have paths : schema.leaves.map Prod.fst = (schema.root.targets.map Target.keys).map dotted := by
    rw [leaves_eq named, List.map_map, List.map_map]
    rfl
  rw [paths]
  refine (Section.nodup_keys _ distinct).map_on fun keys hk keys' hk' eq => ?_
  have back : ∀ keys ∈ schema.root.targets.map Target.keys, pathOf (dotted keys) = keys := by
    intro keys hk
    obtain ⟨t, ht, rfl⟩ := List.mem_map.1 hk
    exact pathOf_dotted t.keys_ne_nil
      ((Section.contains_of_mem_targets _ ht).forall_dotFree dotFree)
  rw [← back keys hk, eq, back keys' hk']

theorem findLeaf?_of_contains (dotFree : schema.root.dotFree = true)
    (distinct : schema.root.distinct .exact = true) {names : List String} {l : Leaf}
    (h : schema.root.Contains names l) :
    schema.findLeaf? .exact (dotted (names ++ [l.name])) = some (dotted (names ++ [l.name]), l) := by
  refine findLeaf?_eq_some_iff.2 ⟨⟨names, l⟩, ?_, rfl, rfl⟩
  rw [pathOf_dotted (by simp) (h.forall_dotFree dotFree)]
  exact resolve_of_reaches (h.reaches distinct) []

theorem mem_leaves_of_findLeaf? (named : schema.root.named = true) {casing : Casing} {key : String}
    {found : String × Leaf} (h : schema.findLeaf? casing key = some found) :
    found ∈ schema.leaves := by
  obtain ⟨path, l⟩ := found
  obtain ⟨target, leads, rfl, rfl⟩ := findLeaf?_eq_some_iff.1 h
  obtain ⟨names, parents, reaches⟩ := reaches_of_resolve leads
  rw [List.nil_append] at parents
  exact (mem_leaves_iff named).2 ⟨names, reaches.contains, by rw [Target.path, parents]⟩

theorem getValue_of_contains {α : Type} [Configuration α] {config : α} {table : Table}
    (ht : toTable config = .ok table) (dotFree : schema.root.dotFree = true)
    (distinct : schema.root.distinct .exact = true) {names : List String} {l : Leaf}
    (h : schema.root.Contains names l) :
    let path := dotted (names ++ [l.name])
    getValue schema .exact path config = .ok ⟨shownAt path table, .ofLeaf path l⟩ := by
  simp only [getValue, findLeaf?_of_contains dotFree distinct h, ht]
  rfl

/-- If the names in a schema are not empty and have no dots, and those of the sections in a section
differ and those of its leaves, then each leaf of the tree is listed once, by a path that no other one
has; the path finds the leaf, and nothing is found that is not listed; and the values of a
configuration are listed leaf by leaf, each as its path gives it, from where the leaf lies. -/
theorem leaves_found_and_shown (schema : Schema) (named : schema.root.named = true)
    (dotFree : schema.root.dotFree = true) (distinct : schema.root.distinct .exact = true) :
    (∀ names l, schema.root.Contains names l →
      schema.leaves.count (dotted (names ++ [l.name]), l) = 1) ∧
    (∀ path l, (path, l) ∈ schema.leaves →
      ∃ names, schema.root.Contains names l ∧ path = dotted (names ++ [l.name])) ∧
    (schema.leaves.map Prod.fst).Nodup ∧
    (∀ path l, (path, l) ∈ schema.leaves → schema.findLeaf? .exact path = some (path, l)) ∧
    (∀ casing key found, schema.findLeaf? casing key = some found → found ∈ schema.leaves) ∧
    ∀ (α : Type) [Configuration α] (config : α) (table : Table), toTable config = .ok table →
      ∃ entries, listValues schema config = .ok entries ∧
        List.Forall₂ (fun leaf entry => entry.1 = leaf.1 ∧
          getValue schema .exact leaf.1 config = .ok ⟨entry.2, .ofLeaf leaf.1 leaf.2⟩)
          schema.leaves entries ∧
        ∀ names l, schema.root.Contains names l →
          (dotted (names ++ [l.name]),
            ((Table.lookupPath (names ++ [l.name]) table).map shownValue).getD "<not set>") ∈
            entries := by
  have listed {path : String} {l : Leaf} : (path, l) ∈ schema.leaves ↔ _ := mem_leaves_iff named
  have paths := nodup_leaves named dotFree distinct
  refine ⟨fun names l h => ?_, fun path l h => listed.1 h, paths, fun path l h => ?_,
    fun _ _ _ => mem_leaves_of_findLeaf? named, fun α _ config table ht => ?_⟩
  · exact List.count_eq_one_of_mem (.of_map _ paths) (listed.2 ⟨names, h, rfl⟩)
  · obtain ⟨names, hc, rfl⟩ := listed.1 h
    exact findLeaf?_of_contains dotFree distinct hc
  · refine ⟨schema.leaves.map fun e => (e.1, shownAt e.1 table), ?_, ?_, ?_⟩
    · rw [listValues, ht]
      rfl
    · rw [List.forall₂_map_right_iff, List.forall₂_same]
      rintro ⟨path, l⟩ h
      obtain ⟨names, hc, rfl⟩ := listed.1 h
      exact ⟨rfl, getValue_of_contains ht dotFree distinct hc⟩
    · intro names l hc
      have keys : pathOf (dotted (names ++ [l.name])) = names ++ [l.name] :=
        pathOf_dotted (by simp) (hc.forall_dotFree dotFree)
      refine List.mem_map.2 ⟨_, listed.2 ⟨names, hc, rfl⟩, ?_⟩
      simp only [shownAt, keys]

theorem leaves_found_and_shown_crossed :
    let config : Table := [("a", .table [("b", .string "x")])]
    crossed.root.named = true ∧ crossed.root.dotFree = true ∧
      crossed.root.distinct .exact = true ∧
      crossed.leaves.count ("a.b", .string "b") = 1 ∧
      crossed.findLeaf? .exact "a.b" = some ("a.b", .string "b") ∧
      listValues crossed config = .ok [("a", "\x7b b = \"x\" \x7d"), ("a.b", "x")] ∧
      getValue crossed .exact "a.b" config = .ok ⟨"x", .ofLeaf "a.b" (.string "b")⟩ := by
  intro config
  have named : crossed.root.named = true := by decide
  have dotFree : crossed.root.dotFree = true := by decide
  have distinct : crossed.root.distinct .exact = true := by decide
  have lies : crossed.root.Contains ["a"] (.string "b") :=
    .under (c := { name := "a", leaves := [.string "b"] }) List.mem_cons_self (.here List.mem_cons_self)
  obtain ⟨once, -, -, finds, -, shows⟩ := leaves_found_and_shown crossed named dotFree distinct
  obtain ⟨entries, lists, each, -⟩ := shows Table config config rfl
  have shown : listValues crossed config =
      .ok [("a", "\x7b b = \"x\" \x7d"), ("a.b", "x")] := by rfl
  obtain rfl := Except.ok.inj (lists.symm.trans shown)
  obtain ⟨-, rest⟩ := List.forall₂_cons.1 each
  exact ⟨named, dotFree, distinct, once _ _ lies, finds _ _ (by decide), shown,
    (List.forall₂_cons.1 rest).1.2⟩

end Schema

end DottedPatch
