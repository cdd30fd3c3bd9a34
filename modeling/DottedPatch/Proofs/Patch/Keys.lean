import DottedPatch.Proofs.Patch.Outcomes

namespace DottedPatch

open Toml Patch

theorem Section.descend?_eq (casing : Casing) (segments : List String) (s : Section) :
    s.descend? casing segments =
      if (s.leading casing segments).1.length = segments.length then some (s.leading casing segments)
      else none := by
  induction segments generalizing s with
  | nil => rfl
  | cons segment rest ih =>
    rw [descend?, leading]
    cases s.child? casing segment with
    | none => rfl
    | some c =>
      have below := ih c
      by_cases all : (c.leading casing rest).1.length = rest.length
      · rw [if_pos all] at below
        simp [below, all]
      · rw [if_neg all] at below
        simp [below, all]

namespace Schema

theorem exists_findLeaf?_eq (schema : Schema) (casing : Casing) (key : String) :
    ∃ parents last, pathOf key = parents ++ [last] ∧
      schema.findLeaf? casing key =
        (schema.root.descend? casing parents).bind fun (names, s) =>
          (s.leaf? casing last).map fun leaf => (dotted (names ++ [leaf.name]), leaf) := by
  rcases Text.splitLast?_cases '.' key with ⟨cut, whole⟩ | ⟨before, last, cut, pieces⟩
  · refine ⟨[], key, whole, ?_⟩
    rw [findLeaf?, cut]
    simp only [Section.descend?, Option.bind_some, Option.bind_eq_bind]
    cases schema.root.leaf? casing key <;> rfl
  · refine ⟨pathOf before, last, pieces, ?_⟩
    rw [findLeaf?, cut]
    simp only [Option.bind_eq_bind]
    congr 1
    funext ⟨names, s⟩
    cases s.leaf? casing last <;> rfl

theorem findLeaf?_eq (schema : Schema) (casing : Casing) (key : String) :
    schema.findLeaf? casing key =
      match (resolve casing [] (pathOf key) schema.root).2 with
      | .ok target => some (target.path, target.leaf)
      | .error _ => none := by
  obtain ⟨parents, last, pieces, find⟩ := schema.exists_findLeaf?_eq casing key
  rw [find, pieces, Section.descend?_eq]
  rcases missed_or_leaf? schema.root casing parents last with missed | ⟨all, leaf, hl⟩
  · obtain ⟨_, -, refused⟩ := resolve_of_missed missed []
    rw [refused]
    rcases missed with short | none
    · rw [if_neg (Nat.ne_of_lt short)]
      rfl
    · split <;> simp [none]
  · rw [resolve_of_leaf? all hl, if_pos all]
    simp [hl, Target.path]

theorem findLeaf?_eq_some_iff {schema : Schema} {casing : Casing} {key path : String} {leaf : Leaf} :
    schema.findLeaf? casing key = some (path, leaf) ↔
      ∃ target, (resolve casing [] (pathOf key) schema.root).2 = .ok target ∧
        target.path = path ∧ target.leaf = leaf := by
  rw [findLeaf?_eq]
  cases (resolve casing [] (pathOf key) schema.root).2 <;> simp

end Schema

namespace Patch

theorem exists_unknownSegment {casing : Casing} {walked segments : List String} {s : Section}
    {refusal : Refusal} (h : segments ≠ [])
    (refused : (resolve casing walked segments s).2 = .error refusal) :
    ∃ segment, refusal.reason = .unknownSegment segment := by
  obtain ⟨parents, last, rfl⟩ : ∃ parents last, segments = parents ++ [last] :=
    ⟨_, _, (List.dropLast_concat_getLast h).symm⟩
  rcases missed_or_leaf? s casing parents last with missed | ⟨all, leaf, hl⟩
  · obtain ⟨segment, -, unknown⟩ := resolve_of_missed missed walked
    obtain rfl := Except.error.inj (refused.symm.trans unknown)
    exact ⟨segment, rfl⟩
  · rw [resolve_of_leaf? all hl walked] at refused
    cases refused

theorem Line.read_key {key : String} (named : key ≠ "") (plain : '=' ∉ key.toList) (number : Nat)
    (raw : String) :
    Line.read number (key ++ "=" ++ raw) = ⟨number, pathOf key, Text.stripReturn raw⟩ := by
  have strip : Text.stripReturn (key ++ "=" ++ raw) = key ++ "=" ++ Text.stripReturn raw :=
    Text.stripReturn_append (show '=' ≠ '\r' by decide) key raw
  have split : Text.splitFirst? '=' (key ++ "=" ++ Text.stripReturn raw) =
      some (key, Text.stripReturn raw) := Text.splitFirst?_append plain _
  simp only [Line.read, strip, split, Option.getD_some, if_neg named]

/-- A key leads to a leaf exactly if a line with its pieces for segments does, and then the line is
applied at the path of the leaf, or rejected there for its value or for a value in the way. The key
leads nowhere exactly if a segment of the line is unknown. So it is for the line that spells the key. -/
theorem findLeaf?_agrees (schema : Schema) (rules : Rules) (t : Table) (key : String) (line : Line)
    (segments : line.segments = pathOf key) :
    let status := (applyLine schema rules t line).outcome.status
    (∀ path leaf, schema.findLeaf? rules.casing key = some (path, leaf) ↔
      ∃ target, (resolve rules.casing [] line.segments schema.root).2 = .ok target ∧
        target.path = path ∧ target.leaf = leaf) ∧
    (∀ path leaf, schema.findLeaf? rules.casing key = some (path, leaf) →
      status = .applied path ∨ ∃ reason, status = .rejected path reason ∧ reason.isOfPath = false) ∧
    (schema.findLeaf? rules.casing key = none ↔
      ∃ resolved segment, status = .rejected resolved (.unknownSegment segment)) ∧
    (key ≠ "" → '=' ∉ key.toList →
      ∀ raw, (Line.read line.number (key ++ "=" ++ raw)).segments = line.segments) := by
  intro status
  have shown : status = _ := congrArg Outcome.status (outcome_applyLine schema rules t line)
  rw [segments] at shown ⊢
  refine ⟨fun _ _ => Schema.findLeaf?_eq_some_iff, fun path leaf found => ?_, ?_,
    fun named plain raw => ?_⟩
  · obtain ⟨target, leads, rfl, -⟩ := Schema.findLeaf?_eq_some_iff.1 found
    rw [shown, leads]
    exact target.cases_of_status rules line.raw t
  · rw [Schema.findLeaf?_eq]
    cases leads : (resolve rules.casing [] (pathOf key) schema.root).2 with
    | error refusal =>
      obtain ⟨segment, unknown⟩ := exists_unknownSegment (pathOf_ne_nil key) leads
      rw [leads] at shown
      exact iff_of_true rfl ⟨refusal.resolved, segment, unknown ▸ shown⟩
    | ok target =>
      refine iff_of_false (by simp) fun ⟨resolved, segment, unknown⟩ => ?_
      rw [leads] at shown
      cases Target.isOfPath_of_status (shown.symm.trans unknown)
  · rw [Line.read_key named plain]

def hollow : Schema where
  root :=
    { name := ""
      children :=
        [{ name := "A"
           leaves := [.string ""]
           children := [{ name := "", leaves := [.integer .w32 "b"] }] }] }

theorem findLeaf?_agrees_hollow :
    let rules : Rules := { casing := .ignoreAscii }
    let line := Line.read 1 "a..B=x"
    line.segments = pathOf "a..B" ∧
      hollow.findLeaf? .ignoreAscii "a..B" = some ("A..b", .integer .w32 "b") ∧
      (∃ reason, (applyLine hollow rules [] line).outcome.status = .rejected "A..b" reason ∧
        reason.isOfPath = false) ∧
      hollow.findLeaf? .ignoreAscii ".a" = none ∧
      ∃ resolved segment, (applyLine hollow rules [] (Line.read 2 ".a=x")).outcome.status =
        .rejected resolved (.unknownSegment segment) := by
  intro rules line
  have segments : line.segments = pathOf "a..B" := by decide +kernel
  have found : hollow.findLeaf? .ignoreAscii "a..B" = some ("A..b", .integer .w32 "b") := by
    decide +kernel
  have missed : hollow.findLeaf? .ignoreAscii ".a" = none := by decide +kernel
  have rejected : (applyLine hollow rules [] line).outcome.status ≠ .applied "A..b" := by
    decide +kernel
  have agrees := findLeaf?_agrees hollow rules [] "a..B" line segments
  have agrees' := findLeaf?_agrees hollow rules [] ".a" (Line.read 2 ".a=x") (by decide +kernel)
  exact ⟨segments, found, (agrees.2.1 _ _ found).resolve_left rejected, missed,
    agrees'.2.2.1.1 missed⟩

end Patch

end DottedPatch
