import DottedPatch.Proofs.Toml.Merges
import DottedPatch.Proofs.Toml.Reading

namespace DottedPatch.Toml.Table

theorem merge_merge_of {upper : Table} (hu : Entries.Sorted upper)
    (twice : ∀ e ∈ upper, ∀ lower : Option Value, (∀ l, lower = some l → l.Ordered) →
      cover (some (cover lower e.2)) e.2 = cover lower e.2) {lower : Table} (hl : lower.Ordered) :
    merge (merge lower upper) upper = merge lower upper := by
  have once : Entries.Sorted (merge lower upper) := sorted_merge hl.sorted
  refine (sorted_merge once).ext once fun key => ?_
  have again := @lookup_merge (merge lower upper) upper hu key
  rw [again, lookup_merge hu]
  cases found : Entries.lookup key upper with
  | none => rfl
  | some v => exact congrArg some (twice _ (Entries.mem_of_lookup found) _ fun _ h => hl.of_lookup h)

theorem cover_cover {v : Value} (h : v.Ordered) {lower : Option Value}
    (hl : ∀ l, lower = some l → l.Ordered) : cover (some (cover lower v)) v = cover lower v := by
  -- On the value above, for all that may be below it.
  induction h generalizing lower with
  | scalar | array => rw [cover_of_not_table rfl, cover_of_not_table rfl]
  | table sorted _ ih =>
    rw [cover_table sorted lower, cover]
    exact congrArg Value.table
      (merge_merge_of sorted (fun e he _ hl => ih e he hl) (ordered_getD_table? hl))

theorem isSome_lookup_merge {lower upper : Table} (hu : Entries.Sorted upper) (key : String) :
    (Entries.lookup key (merge lower upper)).isSome ↔
      (Entries.lookup key upper).isSome ∨ (Entries.lookup key lower).isSome := by
  rw [lookup_merge hu]
  cases Entries.lookup key upper <;> simp

/-- What a merged table holds at a path, by what the two tables hold there. -/
structure LiesOver (upper lower merged : Table) (path : List String) : Prop where
  value : ∀ v, lookupPath path upper = some v → v.table? = none → lookupPath path merged = some v
  hidden : ∀ before v, before <+: path → before ≠ path → lookupPath before upper = some v →
    v.table? = none → lookupPath path merged = none
  table : ∀ sub, lookupPath path upper = some (.table sub) →
    ∃ t, lookupPath path merged = some (.table t) ∧
      ∀ key, (Entries.lookup key t).isSome ↔
        (Entries.lookup key sub).isSome ∨
          ∃ s, lookupPath path lower = some (.table s) ∧ (Entries.lookup key s).isSome
  left : lookupPath path upper = none →
    (∀ before v, before <+: path → before ≠ path → lookupPath before upper = some v → v.isTable) →
      lookupPath path merged = lookupPath path lower

theorem liesOver_merge {upper : Table} (hu : upper.Ordered) (lower : Table) (path : List String) :
    LiesOver upper lower (merge lower upper) path where
  value v hv hvt := by rw [lookupPath_merge_of_some hu hv, cover_of_not_table hvt]
  hidden before v hp ne hv hvt := by
    have held : lookupPath before (merge lower upper) = some v := by
      rw [lookupPath_merge_of_some hu hv, cover_of_not_table hvt]
    exact lookupPath_of_not_table held hvt hp ne
  table sub hsub := by
    have sorted := Ordered.sorted (hu.of_lookupPath hsub)
    refine ⟨_, by rw [lookupPath_merge_of_some hu hsub, cover_table sorted], fun key => ?_⟩
    rw [isSome_lookup_merge sorted]
    refine or_congr_right ?_
    cases lookupPath path lower with
    | none => simp [empty]
    | some v => cases v <;> simp [Value.table?, empty]
  left hnone way := by
    refine lookupPath_merge_of_none hu hnone (Bool.not_eq_true _ ▸ fun hb => ?_)
    obtain ⟨before, v, hp, ne, hv, hvt⟩ := blocked_iff.1 hb
    have isTable := way before v hp ne hv
    simp [Value.isTable, hvt] at isTable

/-- A table is laid over another at every depth: its values stand, nothing shows from behind them, its
tables share their keys with those below, and what it leaves open is as it was. Laid over once more it
changes nothing. -/
theorem merge_liesOver_once {lower upper : Table} (hl : lower.Ordered) (hu : upper.Ordered) :
    (∀ path, LiesOver upper lower (merge lower upper) path) ∧
      merge (merge lower upper) upper = merge lower upper :=
  ⟨liesOver_merge hu lower,
    merge_merge_of hu.sorted (fun _ he _ hl => cover_cover (hu.of_mem he) hl) hl⟩

theorem merge_liesOver_once_colliding :
    let lower : Table :=
      [("a", .table [("x", .integer 1), ("y", .table [("z", .integer 2)])]), ("b", .integer 3),
        ("c", .table [("d", .integer 4)])]
    let upper : Table :=
      [("a", .table [("w", .integer 6), ("y", .integer 5)]), ("b", .table [("e", .integer 7)]),
        ("c", .integer 0)]
    lower.Ordered ∧ upper.Ordered ∧
      ((∀ path, LiesOver upper lower (merge lower upper) path) ∧
        merge (merge lower upper) upper = merge lower upper) ∧
      merge lower upper =
        [("a", .table [("w", .integer 6), ("x", .integer 1), ("y", .integer 5)]),
          ("b", .table [("e", .integer 7)]), ("c", .integer 0)] := by
  intro lower upper
  have readLower : read? "b = 3\n[a]\nx = 1\ny.z = 2\n[c]\nd = 4\n" = some lower := by decide +kernel
  have readUpper : read? "c = 0\na.w = 6\na.y = 5\n[b]\ne = 7\n" = some upper := by decide +kernel
  have hl := ordered_of_read? readLower
  have hu := ordered_of_read? readUpper
  exact ⟨hl, hu, merge_liesOver_once hl hu, by decide +kernel⟩

end DottedPatch.Toml.Table
