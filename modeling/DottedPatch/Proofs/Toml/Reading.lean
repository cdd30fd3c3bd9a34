import DottedPatch.Proofs.Toml.Members
import DottedPatch.Toml.Reader

namespace DottedPatch.Toml

/-- No place is vacant, and the names in a table are different. The items of arrays may be any. -/
inductive Item.Tidy : Item → Prop
  | scalar {v : Scalar} {w : Option String} {d : Decor} : Tidy (.scalar v w d)
  | array {items : List Item} {closing : String} {comma : Bool} {d : Decor} :
      Tidy (.array items closing comma d)
  | inline {opening : String} {dotted : Bool} {ms : Members} {d : Decor} : ms.names.Nodup →
      (∀ m ∈ ms, Tidy m.2) → Tidy (.inline opening dotted ms d)
  | table {head : Head} {ms : Members} : ms.names.Nodup → (∀ m ∈ ms, Tidy m.2) →
      Tidy (.table head ms)
  | tables {elements : List (Head × Members)} : Tidy (.tables elements)

def Members.Tidy (ms : Members) : Prop := ms.names.Nodup ∧ ∀ m ∈ ms, m.2.Tidy

theorem Item.Tidy.withDecor {item : Item} (h : item.Tidy) (d : Decor) : (item.withDecor d).Tidy := by
  cases h with
  | scalar => exact .scalar
  | array => exact .array
  | inline nodup members => exact .inline nodup members
  | table nodup members => exact .table nodup members
  | tables => exact .tables

theorem Item.Tidy.members {item : Item} (h : item.Tidy) {ms : Members}
    (hm : item.members? = some ms) : ms.Tidy := by
  cases h with
  | scalar | array | tables => cases hm
  | inline nodup members | table nodup members =>
    obtain rfl := Option.some.inj hm
    exact ⟨nodup, members⟩

namespace Members

namespace Tidy

variable {ms : Members} {key : Key} {item : Item}

theorem nil : Tidy [] := ⟨List.nodup_nil, by simp⟩

theorem append (h : ms.Tidy) (hk : item? key.name ms = none) (hi : item.Tidy) :
    Tidy (ms ++ [(key, item)]) := by
  have fresh : key.name ∉ ms.names := item?_eq_none_iff.1 hk
  refine ⟨?_, fun m hm => ?_⟩
  · rw [names, List.map_append, List.nodup_append]
    refine ⟨h.1, by simp, fun a ha b hb eq => ?_⟩
    obtain rfl := List.mem_singleton.1 hb
    exact fresh ((show a = key.name from eq) ▸ ha)
  · rcases List.mem_append.1 hm with hm | hm
    · exact h.2 m hm
    · obtain rfl := List.mem_singleton.1 hm
      exact hi

theorem put (h : ms.Tidy) (hi : item.Tidy) : Tidy (put key item ms) := by
  refine ⟨nodup_put h.1, fun m hm => ?_⟩
  rcases mem_put hm with ⟨_, eq⟩ | hm
  · exact eq ▸ hi
  · exact h.2 m hm

theorem erase (h : ms.Tidy) (name : String) : Tidy (erase name ms) :=
  ⟨nodup_erase h.1, fun m hm => h.2 m ((erase_sublist name ms).subset hm)⟩

theorem of_find? (h : ms.Tidy) {name : String} (hf : find? name ms = some (key, item)) :
    item.Tidy := by
  obtain ⟨k, hm, _⟩ := mem_of_item? (item?_of_find? hf)
  exact h.2 _ hm

theorem lookup_of_item? (h : ms.Tidy) {t : Table} (ht : Item.denotedEntries? ms = some t)
    {name : String} (hitem : item? name ms = some item) :
    ∃ v, Item.denoted? item = some v ∧ Entries.lookup name t = some v := by
  obtain ⟨_, denoted, lookup⟩ := (denotedEntries?_eq_some_iff h.1).1 ht
  obtain ⟨_, hmem, _⟩ := mem_of_item? hitem
  have tidy := h.2 _ hmem
  obtain ⟨v, hv⟩ := Option.isSome_iff_exists.1
    ((denoted _ hmem).resolve_left fun eq => by cases eq ▸ tidy)
  refine ⟨v, hv, ?_⟩
  rw [lookup, hitem]
  exact hv

end Tidy

section

variable {item : Item} (hi : item.Tidy) {ms ms' : Members}

include hi

theorem tidy_assign? {entered dotted : Bool} {path : List Key}
    (h : assign? item entered dotted path ms = some ms') (hm : ms.Tidy) : ms'.Tidy := by
  fun_induction assign? item entered dotted path ms generalizing ms' with
  | case1 | case2 | case6 | case8 | case9 => cases h
  | case3 _ _ key ms fresh =>
    obtain rfl := Option.some.inj h
    simp only [Bool.or_eq_true, not_or, Bool.not_eq_true, Option.isSome_eq_false_iff,
      Option.isNone_iff_eq_none] at fresh
    exact hm.append (item?_eq_none_of_find? fresh.2) hi
  | case4 _ _ _ _ _ _ absent ih =>
    obtain ⟨sub, hsub, rfl⟩ := Option.map_eq_some_iff.1 h
    have tidy := ih hsub .nil
    exact hm.append (item?_eq_none_of_find? absent) (.table tidy.1 tidy.2)
  | case5 _ _ _ _ _ _ _ _ _ found _ ih =>
    obtain ⟨sub, hsub, rfl⟩ := Option.map_eq_some_iff.1 h
    have tidy := ih hsub ((hm.of_find? found).members rfl)
    exact hm.put (.table tidy.1 tidy.2)
  | case7 =>
    obtain ⟨sub, _, rfl⟩ := Option.map_eq_some_iff.1 h
    exact hm.put .tables

theorem tidy_assignInline? {entered dotted : Bool} {path : List Key}
    (h : assignInline? item entered dotted path ms = some ms') (hm : ms.Tidy) : ms'.Tidy := by
  fun_induction assignInline? item entered dotted path ms generalizing ms' with
  | case1 | case2 | case6 => cases h
  | case3 _ _ key ms fresh =>
    obtain rfl := Option.some.inj h
    simp only [Bool.or_eq_true, not_or, Bool.not_eq_true, Option.isSome_eq_false_iff,
      Option.isNone_iff_eq_none] at fresh
    exact hm.append (item?_eq_none_of_find? fresh.2) hi
  | case4 _ _ _ _ _ _ absent ih =>
    obtain ⟨sub, hsub, rfl⟩ := Option.map_eq_some_iff.1 h
    have tidy := ih hsub .nil
    exact hm.append (item?_eq_none_of_find? absent) (.inline tidy.1 tidy.2)
  | case5 _ _ _ _ _ _ _ _ _ _ found ih =>
    obtain ⟨sub, hsub, rfl⟩ := Option.map_eq_some_iff.1 h
    have tidy := ih hsub ((hm.of_find? found).members rfl)
    exact hm.put (.inline tidy.1 tidy.2)

end

theorem tidy_foldlM {step : Members → List Key × Item → Option Members}
    {assignments : List (List Key × Item)}
    (hs : ∀ ms ms' a, a ∈ assignments → step ms a = some ms' → ms.Tidy → ms'.Tidy)
    {ms ms' : Members} (h : assignments.foldlM step ms = some ms') (hm : ms.Tidy) : ms'.Tidy := by
  induction assignments generalizing ms with
  | nil =>
    obtain rfl := Option.some.inj h
    exact hm
  | cons a assignments ih =>
    rw [List.foldlM_cons] at h
    obtain ⟨next, hnext, h⟩ := Option.bind_eq_some_iff.1 h
    exact ih (fun ms ms' b hb => hs ms ms' b (List.mem_cons_of_mem _ hb)) h
      (hs _ _ a List.mem_cons_self hnext hm)

theorem tidy_ofAssignments? {assignments : List (List Key × Item)} {ms : Members}
    (ha : ∀ a ∈ assignments, a.2.Tidy) (h : ofAssignments? assignments = some ms) : ms.Tidy :=
  tidy_foldlM (fun _ _ a hmem hstep hm => tidy_assignInline? (ha a hmem) hstep hm) h .nil

theorem tidy_fill? {assignments : List (List Key × Item)} {ms ms' : Members}
    (ha : ∀ a ∈ assignments, a.2.Tidy) (h : fill? assignments ms = some ms') (hm : ms.Tidy) :
    ms'.Tidy :=
  tidy_foldlM (fun _ _ a hmem hstep hm => tidy_assign? (ha a hmem) hstep hm) h hm

theorem tidy_openTable? {head : Head} {element : Bool} {fill : Members → Option Members}
    (hf : ∀ ms ms', fill ms = some ms' → ms.Tidy → ms'.Tidy) {path : List Key} {ms ms' : Members}
    (h : openTable? head element fill path ms = some ms') (hm : ms.Tidy) : ms'.Tidy := by
  fun_induction openTable? head element fill path ms generalizing ms' with
  | case1 | case4 | case7 | case11 | case12 => cases h
  | case2 key ms absent =>
    obtain ⟨sub, hsub, rfl⟩ := Option.map_eq_some_iff.1 h
    have tidy := hf _ _ hsub .nil
    exact hm.append (item?_eq_none_of_find? absent) (.table tidy.1 tidy.2)
  | case3 key ms _ _ _ found =>
    obtain ⟨sub, hsub, rfl⟩ := Option.map_eq_some_iff.1 h
    have tidy := hf _ _ hsub ((hm.of_find? found).members rfl)
    exact (hm.erase key.name).append (item?_erase_self hm.1) (.table tidy.1 tidy.2)
  | case5 key ms absent =>
    obtain ⟨sub, _, rfl⟩ := Option.map_eq_some_iff.1 h
    exact hm.append (item?_eq_none_of_find? absent) .tables
  | case6 | case10 =>
    obtain ⟨sub, _, rfl⟩ := Option.map_eq_some_iff.1 h
    exact hm.put .tables
  | case8 key _ ms _ absent ih =>
    obtain ⟨sub, hsub, rfl⟩ := Option.map_eq_some_iff.1 h
    have tidy := ih hsub .nil
    exact hm.append (item?_eq_none_of_find? absent) (.table tidy.1 tidy.2)
  | case9 _ _ _ _ _ _ _ found ih =>
    obtain ⟨sub, hsub, rfl⟩ := Option.map_eq_some_iff.1 h
    have tidy := ih hsub ((hm.of_find? found).members rfl)
    exact hm.put (.table tidy.1 tidy.2)

end Members

namespace Scan

theorem tidy_scalarItem {whole rest : List Char} {result : Option (Scalar × List Char)} {item : Item}
    (h : scalarItem whole result = some (item, rest)) : item.Tidy := by
  obtain ⟨_, _, eq⟩ := Option.map_eq_some_iff.1 h
  obtain ⟨rfl, _⟩ := Prod.mk.inj eq
  exact .scalar

section

variable {fuel depth : Nat} {cs rest : List Char}
  (ih : ∀ depth cs assignments rest, inlineAssignments fuel depth cs = some (assignments, rest) →
    ∀ a ∈ assignments, a.2.Tidy)

include ih

theorem tidy_value_succ {item : Item} (h : value (fuel + 1) depth cs = some (item, rest)) :
    item.Tidy := by
  rw [value.eq_def] at h
  split at h
  · cases h
  · split at h
    · obtain ⟨r, _, h⟩ := Option.bind_eq_some_iff.1 h
      obtain ⟨rfl, _⟩ := Prod.mk.inj (Option.some.inj h)
      exact .array
    · cases h
  · rename_i eq
    obtain rfl := Nat.succ.inj eq
    split at h
    · split at h
      · obtain ⟨rfl, _⟩ := Prod.mk.inj (Option.some.inj h)
        exact .inline List.nodup_nil (by simp)
      · obtain ⟨⟨assignments, _⟩, hscan, h⟩ := Option.bind_eq_some_iff.1 h
        obtain ⟨ms, hms, h⟩ := Option.bind_eq_some_iff.1 h
        obtain ⟨rfl, _⟩ := Prod.mk.inj (Option.some.inj h)
        have tidy := Members.tidy_ofAssignments? (ih _ _ _ _ hscan) hms
        exact .inline tidy.1 tidy.2
    · cases h
  · exact tidy_scalarItem h

theorem tidy_inlineAssignments_succ
    (hvalue : ∀ depth cs item rest, value fuel depth cs = some (item, rest) → item.Tidy)
    {assignments : List (List Key × Item)}
    (h : inlineAssignments (fuel + 1) depth cs = some (assignments, rest)) :
    ∀ a ∈ assignments, a.2.Tidy := by
  simp only [inlineAssignments, Option.bind_eq_bind, Option.bind_eq_some_iff, Option.pure_def] at h
  obtain ⟨path, _, _, _, ⟨item, after⟩, hitem, h⟩ := h
  have tidy := (hvalue _ _ _ _ hitem).withDecor
  intro a ha
  split at h
  · obtain ⟨⟨others, _⟩, hothers, h⟩ := Option.bind_eq_some_iff.1 h
    obtain ⟨rfl, _⟩ := Prod.mk.inj (Option.some.inj h)
    rcases List.mem_cons.1 ha with rfl | ha
    · exact tidy _
    · exact ih _ _ _ _ hothers a ha
  · obtain ⟨rfl, _⟩ := Prod.mk.inj (Option.some.inj h)
    obtain rfl := List.mem_singleton.1 ha
    exact tidy _
  · cases h

end

theorem tidy_scan (fuel : Nat) :
    (∀ depth cs item rest, value fuel depth cs = some (item, rest) → item.Tidy) ∧
      ∀ depth cs assignments rest, inlineAssignments fuel depth cs = some (assignments, rest) →
        ∀ a ∈ assignments, a.2.Tidy := by
  induction fuel with
  | zero => exact ⟨by simp [value], by simp [inlineAssignments]⟩
  | succ fuel ih =>
    exact ⟨fun _ _ _ _ h => tidy_value_succ ih.2 h,
      fun _ _ _ _ h => tidy_inlineAssignments_succ ih.2 ih.1 h⟩

end Scan

namespace Statement

def Tidy : Statement → Prop
  | .assign _ item => item.Tidy
  | .header _ _ _ => True

theorem forall_assignments {P : Item → Prop} {statements : List Statement}
    (h : ∀ path item, .assign path item ∈ statements → P item) :
    ∀ a ∈ assignments statements, P a.2 := by
  induction statements with
  | nil => simp [assignments]
  | cons s statements ih =>
    cases s with
    | header => simp [assignments]
    | assign path item =>
      have others := ih fun path item hm => h path item (List.mem_cons_of_mem _ hm)
      exact List.forall_mem_cons.2 ⟨h path item List.mem_cons_self, others⟩

theorem tidy_openTables? {position : Nat} {statements : List Statement}
    (hs : ∀ s ∈ statements, s.Tidy) {ms ms' : Members}
    (h : openTables? position statements ms = some ms') (hm : ms.Tidy) : ms'.Tidy := by
  induction statements generalizing position ms with
  | nil =>
    obtain rfl := Option.some.inj h
    exact hm
  | cons s statements ih =>
    have rest : ∀ s ∈ statements, s.Tidy := fun s h => hs s (List.mem_cons_of_mem _ h)
    cases s with
    | assign => exact ih rest h hm
    | header path element decor =>
      obtain ⟨next, hnext, h⟩ := Option.bind_eq_some_iff.1 h
      have fill (ms ms' : Members) (hf : Members.fill? (assignments statements) ms = some ms')
          (hm : ms.Tidy) : ms'.Tidy := Members.tidy_fill? (forall_assignments fun _ _ => rest _) hf hm
      exact ih rest h (Members.tidy_openTable? fill hnext hm)

end Statement

namespace Scan

section

variable {before : String} {cs rest : List Char} {s : Statement}

theorem exists_assignment (h : assignment before cs = some (s, rest)) :
    ∃ path item blank after fuel, (∃ cs rest, value fuel 0 cs = some (item, rest)) ∧
      s = .assign path (item.withDecor ⟨some blank, some after⟩) := by
  simp only [assignment, Option.bind_eq_bind, Option.bind_eq_some_iff, Option.pure_def] at h
  obtain ⟨_, _, _, _, ⟨item, _⟩, hitem, _, _, h⟩ := h
  obtain ⟨rfl, _⟩ := Prod.mk.inj (Option.some.inj h)
  exact ⟨_, item, _, _, _, ⟨_, _, hitem⟩, rfl⟩

theorem exists_header (h : header before cs = some (s, rest)) :
    ∃ path element after, s = .header path element ⟨some before, some after⟩ := by
  rw [header.eq_def] at h
  split at h
  · simp only [Option.bind_eq_bind, Option.bind_eq_some_iff, Option.pure_def] at h
    obtain ⟨_, _, _, _, _, _, _, _, h⟩ := h
    obtain ⟨rfl, _⟩ := Prod.mk.inj (Option.some.inj h)
    exact ⟨_, _, _, rfl⟩
  · simp only [Option.bind_eq_bind, Option.bind_eq_some_iff, Option.pure_def] at h
    obtain ⟨_, _, _, _, _, _, h⟩ := h
    obtain ⟨rfl, _⟩ := Prod.mk.inj (Option.some.inj h)
    exact ⟨_, _, _, rfl⟩
  · cases h

theorem tidy_assignment (h : assignment before cs = some (s, rest)) : s.Tidy := by
  obtain ⟨_, item, _, _, _, ⟨_, _, hitem⟩, rfl⟩ := exists_assignment h
  exact ((tidy_scan _).1 _ _ _ _ hitem).withDecor _

theorem tidy_header (h : header before cs = some (s, rest)) : s.Tidy := by
  obtain ⟨_, _, _, rfl⟩ := exists_header h
  trivial

end

theorem forall_statements {P : Statement → Prop}
    (hheader : ∀ {before : String} {cs rest : List Char} {s : Statement},
      header before cs = some (s, rest) → P s)
    (hassignment : ∀ {before : String} {cs rest : List Char} {s : Statement},
      assignment before cs = some (s, rest) → P s)
    {fuel : Nat} {before cs : List Char} {statements : List Statement}
    {trailing : String} (h : Scan.statements fuel before cs = some (statements, trailing)) :
    ∀ s ∈ statements, P s := by
  induction fuel generalizing before cs statements trailing with
  | zero => simp [Scan.statements] at h
  | succ fuel ih =>
    have followed {s : Statement} {cs : List Char} (hs : P s)
        (h : ((Scan.statements fuel [] cs).bind fun r => some (s :: r.1, r.2)) =
          some (statements, trailing)) : ∀ s ∈ statements, P s := by
      obtain ⟨⟨others, _⟩, hothers, h⟩ := Option.bind_eq_some_iff.1 h
      obtain ⟨rfl, _⟩ := Prod.mk.inj (Option.some.inj h)
      exact List.forall_mem_cons.2 ⟨hs, ih hothers⟩
    rw [Scan.statements] at h
    simp only [Option.bind_eq_bind, Option.pure_def] at h
    split at h
    · obtain ⟨rfl, _⟩ := Prod.mk.inj (Option.some.inj h)
      simp
    · obtain ⟨_, _, h⟩ := Option.bind_eq_some_iff.1 h
      exact ih h
    · obtain ⟨_, _, h⟩ := Option.bind_eq_some_iff.1 h
      exact ih h
    · obtain ⟨_, _, h⟩ := Option.bind_eq_some_iff.1 h
      exact ih h
    · obtain ⟨⟨s, _⟩, hs, h⟩ := Option.bind_eq_some_iff.1 h
      exact followed (hheader hs) h
    · obtain ⟨⟨s, _⟩, hs, h⟩ := Option.bind_eq_some_iff.1 h
      exact followed (hassignment hs) h

theorem tidy_statements {fuel : Nat} {before cs : List Char} {statements : List Statement}
    {trailing : String} (h : Scan.statements fuel before cs = some (statements, trailing)) :
    ∀ s ∈ statements, s.Tidy :=
  forall_statements tidy_header tidy_assignment h

end Scan

theorem Document.tidy_read? {text : String} {d : Document} (h : Document.read? text = some d) :
    d.members.Tidy := by
  simp only [read?, ofStatements?, Option.bind_eq_bind, Option.bind_eq_some_iff, Option.pure_def] at h
  obtain ⟨⟨statements, trailing⟩, hs, first, hfirst, ms, hms, h⟩ := h
  obtain rfl := Option.some.inj h
  have tidy := Scan.tidy_statements hs
  exact Statement.tidy_openTables? tidy hms
    (Members.tidy_fill? (Statement.forall_assignments fun _ _ => tidy _) hfirst .nil)

theorem Table.ordered_of_read? {text : String} {t : Table} (h : Table.read? text = some t) : t.Ordered := by
  obtain ⟨_, -, denoted⟩ := Option.bind_eq_some_iff.1 h
  exact Item.ordered_of_denotedEntries? _ denoted

end DottedPatch.Toml
