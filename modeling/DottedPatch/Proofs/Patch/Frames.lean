import DottedPatch.Proofs.Patch.Steps
import DottedPatch.Proofs.Toml.Apart

namespace DottedPatch.Patch

open Toml

variable {schema : Schema} {rules : Rules} {t : Table}

theorem setAt_applyLine {line : Line} {path : String}
    (h : (applyLine schema rules t line).outcome.status = .applied path) :
    ∃ target value, (resolve rules.casing [] line.segments schema.root).2 = .ok target ∧
      coerce rules.entries target.leaf line.raw = .ok value ∧ path = target.path ∧
      Table.SetAt target.keys (value.map LeafValue.toValue) t (applyLine schema rules t line).table := by
  rcases applyLine_cases schema rules t line with
    ⟨a, t', ha, run, htable, houtcome⟩ | ⟨-, -, refusal, houtcome⟩
  · obtain ⟨hr, hc⟩ := assignment?_eq_some_iff.1 ha
    rw [houtcome] at h
    rw [htable]
    exact ⟨a.target, a.value, hr, hc, (Status.applied.inj h).symm, Table.Write.setAt_run? run⟩
  · rw [houtcome] at h
    cases h

/-- Neither line sets a path on the way to what the other one sets. -/
def LiesApart (schema : Schema) (rules : Rules) (line other : Line) : Prop :=
  ∀ a b, line.assignment? schema rules = some a → other.assignment? schema rules = some b →
    Table.Apart a.target.keys b.target.keys

theorem LiesApart.symm {line other : Line} (h : LiesApart schema rules line other) :
    LiesApart schema rules other line :=
  fun a b ha hb => (h b a hb ha).symm

theorem liesApart_of_resolve {line other : Line} {target target' : Target}
    (hr : (resolve rules.casing [] line.segments schema.root).2 = .ok target)
    (hr' : (resolve rules.casing [] other.segments schema.root).2 = .ok target')
    (apart : Table.Apart target.keys target'.keys) : LiesApart schema rules line other := by
  intro a b ha hb
  obtain rfl := Except.ok.inj (hr.symm.trans (assignment?_eq_some_iff.1 ha).1)
  obtain rfl := Except.ok.inj (hr'.symm.trans (assignment?_eq_some_iff.1 hb).1)
  exact apart

theorem outcome_applyLine_of_apart {line other : Line} (h : LiesApart schema rules line other)
    (t : Table) :
    (applyLine schema rules (applyLine schema rules t line).table other).outcome =
      (applyLine schema rules t other).outcome := by
  refine outcome_applyLine_congr fun b hb => ?_
  rw [table_applyLine]
  cases ha : line.assignment? schema rules with
  | none => rfl
  | some a => exact Table.Write.isSome_run?_apply (w := a.write) (u := b.write) (h a b ha hb) t

theorem table_applyLine_comm {line other : Line} (ht : t.Ordered)
    (h : LiesApart schema rules line other) :
    (applyLine schema rules (applyLine schema rules t line).table other).table =
      (applyLine schema rules (applyLine schema rules t other).table line).table := by
  simp only [table_applyLine]
  cases ha : line.assignment? schema rules with
  | none => rfl
  | some a =>
    cases hb : other.assignment? schema rules with
    | none => rfl
    | some b => exact Table.Write.apply_comm ht a.ordered_write b.ordered_write (h a b ha hb)

def nested : Schema where
  root :=
    { name := ""
      children :=
        [{ name := "A"
           children :=
             [{ name := "B", leaves := [(Leaf.string "x").unsets] },
              { name := "C", leaves := [.string "y"] }] }] }

/-- An applied line sets the path of its leaf, in sections that are there afterwards, and nothing
that lies apart. So two lines with paths apart can change places: each is applied or rejected as
before, and the table that results is the same. -/
theorem applied_setAt_and_swap (schema : Schema) (rules : Rules) (ht : t.Ordered) :
    (∀ line path, (applyLine schema rules t line).outcome.status = .applied path →
      ∃ target value, (resolve rules.casing [] line.segments schema.root).2 = .ok target ∧
        coerce rules.entries target.leaf line.raw = .ok value ∧ path = target.path ∧
        Table.SetAt target.keys (value.map LeafValue.toValue) t
          (applyLine schema rules t line).table) ∧
    ∀ first second target target',
      (resolve rules.casing [] first.segments schema.root).2 = .ok target →
      (resolve rules.casing [] second.segments schema.root).2 = .ok target' →
      Table.Apart target.keys target'.keys →
      let pass := applyLines schema rules [first, second] t
      let swapped := applyLines schema rules [second, first] t
      swapped.table = pass.table ∧ swapped.outcomes = pass.outcomes.reverse := by
  refine ⟨fun _ _ => setAt_applyLine, fun first second target target' hr hr' apart => ?_⟩
  have lies := liesApart_of_resolve hr hr' apart
  refine ⟨(table_applyLine_comm ht lies).symm, ?_⟩
  simp only [applyLines, List.reverse_cons, List.reverse_nil, List.nil_append, List.cons_append,
    outcome_applyLine_of_apart lies, outcome_applyLine_of_apart lies.symm]

theorem applied_setAt_and_swap_nested :
    let line := Line.read 1 "A.B.x"
    let other := Line.read 2 "A.C.y=1"
    let t : Table := [("z", .integer 5)]
    let after : Table := [("A", .table [("B", .table []), ("C", .table [("y", .string "1")])]),
      ("z", .integer 5)]
    (applyLines nested {} [line, other] t).table = after ∧
      (applyLines nested {} [other, line] t).table = after ∧
      Table.SetAt ["A", "B", "x"] none t (applyLine nested {} t line).table := by
  intro line other t after
  have ordered : t.Ordered := Table.Ordered.empty.insert (.scalar _)
  obtain ⟨sets, swap⟩ := applied_setAt_and_swap nested {} ordered
  have leads : (resolve .exact [] line.segments nested.root).2 =
      .ok ⟨["A", "B"], (Leaf.string "x").unsets⟩ := by rfl
  have leads' : (resolve .exact [] other.segments nested.root).2 = .ok ⟨["A", "C"], .string "y"⟩ := by rfl
  obtain ⟨target, value, hr, hc, -, set⟩ := sets line "A.B.x" (by decide +kernel)
  obtain rfl := Except.ok.inj (leads.symm.trans hr)
  obtain rfl : none = value := Except.ok.inj hc
  have made : (applyLines nested {} [line, other] t).table = after := by decide +kernel
  have swapped := (swap line other _ _ leads leads' (by simp [Table.Apart, Target.keys])).1
  exact ⟨made, swapped.trans made, set⟩

end DottedPatch.Patch
