import DottedPatch.Proofs.Config.Bases
import DottedPatch.Proofs.Settings.Resolution
import DottedPatch.Proofs.Toml.Reading

/-! Strict against lenient settings.

Strictly, each file is read as a layer by itself before the files are laid over each other. So a
strict run fails over a value of a wrong type even where no setting is resolved from it. -/

namespace DottedPatch.Settings

open Config Toml Patch

/-- What is there leads to a setting, or is the value of one, or is in it. -/
def Known (t : Table) : Prop :=
  ∀ path v, Table.lookupPath path t = some v → ∃ p : Setting, path <+: p.path ∨ p.path <+: path

section

variable {t : Table}

theorem known_iff : Known t ↔
    ∀ key v, Entries.lookup key t = some v →
      key = "casing" ∨ key = "map_entries" ∨ key = "trace_lookups" ∨
        key = "report" ∧ ∀ sub, v = .table sub → ∀ inner w, Entries.lookup inner sub = some w →
          inner = "format" ∨ inner = "only_rejected" := by
  constructor
  · intro h key v hv
    obtain ⟨p, hp⟩ := h [key] v hv
    cases p with
    | casing => exact .inl (by simpa [Setting.path, eq_comm] using hp)
    | entries => exact .inr (.inl (by simpa [Setting.path, eq_comm] using hp))
    | traceLookups => exact .inr (.inr (.inl (by simpa [Setting.path, eq_comm] using hp)))
    | format | onlyRejected =>
      obtain rfl : key = "report" := by simpa [Setting.path, List.cons_prefix_cons] using hp
      refine .inr (.inr (.inr ⟨rfl, ?_⟩))
      rintro sub rfl inner w hw
      have found : Table.lookupPath ["report", inner] t = some w :=
        (Table.lookupPath_cons_of_table (by simp) hv).trans hw
      obtain ⟨q, hq⟩ := h ["report", inner] w found
      cases q with
      | casing | entries | traceLookups => simp [Setting.path] at hq
      | format => exact .inl (by simpa [Setting.path, eq_comm] using hq)
      | onlyRejected => exact .inr (by simpa [Setting.path, eq_comm] using hq)
  · intro h path v hv
    cases path with
    | nil => cases hv
    | cons key rest =>
      by_cases hrest : rest = []
      · subst hrest
        rcases h key v hv with rfl | rfl | rfl | ⟨rfl, -⟩
        · exact ⟨.casing, .inl List.prefix_rfl⟩
        · exact ⟨.entries, .inl List.prefix_rfl⟩
        · exact ⟨.traceLookups, .inl List.prefix_rfl⟩
        · exact ⟨.format, .inl (List.prefix_append _ _)⟩
      · obtain ⟨sub, hsub, hbelow⟩ := (Table.lookupPath_cons_eq_some_iff hrest).1 hv
        rcases h key _ hsub with rfl | rfl | rfl | ⟨rfl, below⟩
        · exact ⟨.casing, .inr (List.prefix_append _ _)⟩
        · exact ⟨.entries, .inr (List.prefix_append _ _)⟩
        · exact ⟨.traceLookups, .inr (List.prefix_append _ _)⟩
        · obtain ⟨inner, rest, rfl⟩ := List.exists_cons_of_ne_nil hrest
          obtain ⟨w, hw⟩ := Table.exists_lookup_of_lookupPath hbelow
          rcases below sub rfl inner w hw with rfl | rfl
          · exact ⟨.format, .inr (List.prefix_append _ _)⟩
          · exact ⟨.onlyRejected, .inr (List.prefix_append _ _)⟩

theorem undeclared_report (items : List Value) : ReportLayer.shape.undeclared (.array items) = [] := by
  rcases items with _ | ⟨_, _ | ⟨_, items⟩⟩ <;> rfl

theorem undeclared_eq_nil_iff (ht : t.Ordered) : Layer.shape.undeclared (.table t) = [] ↔ Known t := by
  rw [known_iff, Layer.shape, Shape.undeclared_table ht.sorted]
  have report {v : Value} (hv : v.Ordered) : ReportLayer.shape.undeclared v = [] ↔
      ∀ sub, v = .table sub → ∀ inner w, Entries.lookup inner sub = some w →
        inner = "format" ∨ inner = "only_rejected" := by
    cases v with
    | scalar => exact iff_of_true rfl fun _ eq => nomatch eq
    | array items => exact iff_of_true (undeclared_report items) fun _ eq => nomatch eq
    | table sub =>
      rw [ReportLayer.shape, Shape.undeclared_table (Table.Ordered.sorted hv)]
      constructor
      · rintro h _ ⟨⟩ inner w hw
        obtain ⟨p, hp, -⟩ := h inner w hw
        simpa [Fields.names] using Fields.mem_names_of_find? hp
      · intro h inner w hw
        rcases h sub rfl inner w hw with rfl | rfl
        · exact ⟨_, rfl, rfl⟩
        · exact ⟨_, rfl, rfl⟩
  constructor
  · intro h key v hv
    obtain ⟨p, hp, below⟩ := h key v hv
    have named := Fields.mem_names_of_find? hp
    simp only [Fields.names, List.mem_cons, List.not_mem_nil, or_false] at named
    refine named.imp_right (Or.imp_right (Or.imp_right ?_))
    rintro rfl
    obtain rfl := Option.some.inj hp
    exact ⟨rfl, (report (ht.of_lookup hv)).1 below⟩
  · intro h key v hv
    rcases h key v hv with rfl | rfl | rfl | ⟨rfl, below⟩
    · exact ⟨_, rfl, rfl⟩
    · exact ⟨_, rfl, rfl⟩
    · exact ⟨_, rfl, rfl⟩
    · exact ⟨_, rfl, (report (ht.of_lookup hv)).2 below⟩

end

theorem readStrictly_eq_ok_iff {α : Type} [Configuration α] {v : Value} {text file : String} {c : α} :
    readStrictly v text file true = .ok c ↔
      Configuration.decode v = .ok c ∧ Configuration.undeclared α v = [] := by
  unfold readStrictly
  cases Configuration.decode (α := α) v with
  | error e => simp
  | ok d => cases Configuration.undeclared α v <;> simp

theorem ofTable_eq_ok {α : Type} [Configuration α] {t : Table} {c : α} :
    (ofTable t : Except Failure α) = .ok c ↔ Configuration.decode (.table t) = .ok c := by
  unfold ofTable
  cases Configuration.decode (α := α) (.table t) <;> simp

/-- The file is read as a layer by itself. -/
def Readable (file : String × String) : Prop :=
  ∃ t, fileTable? file = some t ∧ ∃ l : Layer, ofTable t = .ok l

section

variable {file : String × String} {t : Table}

theorem readFile_lenient_iff : readFile false file.1 file.2 = .ok t ↔ fileTable? file = some t := by
  refine ⟨readFile_eq_ok, fun h => ?_⟩
  rw [fileTable?] at h
  simp only [readFile, h]
  rfl

theorem readFile_strict_iff : readFile true file.1 file.2 = .ok t ↔
    fileTable? file = some t ∧ (∃ l : Layer, ofTable t = .ok l) ∧ Known t := by
  rw [readFile]
  cases read : Table.read? file.2 with
  | none =>
    constructor
    · intro h
      cases h
    · rintro ⟨h, -⟩
      cases read.symm.trans h
  | some u =>
    have layer : (∃ l : Layer, readStrictly (.table u) file.2 file.1 true = .ok l) ↔
        (∃ l : Layer, ofTable u = .ok l) ∧ Known u := by
      simp only [readStrictly_eq_ok_iff, ofTable_eq_ok,
        ← undeclared_eq_nil_iff (Table.ordered_of_read? read)]
      exact exists_and_right
    constructor
    · intro h
      obtain ⟨l, hl, eq⟩ := ok_of_bind h
      obtain rfl := Except.ok.inj eq
      exact ⟨read, layer.1 ⟨l, hl⟩⟩
    · rintro ⟨h, alone⟩
      obtain rfl := Option.some.inj (read.symm.trans h)
      obtain ⟨l, hl⟩ := layer.2 alone
      exact bind_eq_ok_iff.2 ⟨l, hl, rfl⟩

theorem mergeFiles_strict_iff {files : List (String × String)} {m : Table} :
    mergeFiles true files t = .ok m ↔ mergeFiles false files t = .ok m ∧
      ∀ file ∈ files, Readable file ∧ ∀ u, fileTable? file = some u → Known u := by
  induction files generalizing t with
  | nil => simp [mergeFiles]
  | cons file files ih =>
    rw [List.forall_mem_cons, mergeFiles, mergeFiles, bind_eq_ok_iff, bind_eq_ok_iff]
    constructor
    · rintro ⟨u, hu, rest⟩
      obtain ⟨read, layer, known⟩ := readFile_strict_iff.1 hu
      obtain ⟨rest, others⟩ := ih.1 rest
      refine ⟨⟨u, readFile_lenient_iff.2 read, rest⟩, ⟨⟨u, read, layer⟩, fun w hw => ?_⟩, others⟩
      obtain rfl := Option.some.inj (read.symm.trans hw)
      exact known
    · rintro ⟨⟨u, hu, rest⟩, ⟨⟨w, hw, layer⟩, known⟩, others⟩
      have read := readFile_lenient_iff.1 hu
      obtain rfl := Option.some.inj (read.symm.trans hw)
      exact ⟨u, readFile_strict_iff.2 ⟨read, layer, known u read⟩, ih.2 ⟨rest, others⟩⟩

end

theorem resolve_strict_iff {s : Sources} {settings : Settings} :
    resolve { s with strict := true } = .ok settings ↔
      resolve { s with strict := false } = .ok settings ∧
        ∀ file ∈ s.files, Readable file ∧ ∀ t, fileTable? file = some t → Known t := by
  simp only [resolve, Sources.table, bind_eq_ok_iff, mergeFiles_strict_iff]
  constructor
  · rintro ⟨t, ⟨m, ⟨merged, files⟩, ht⟩, layer⟩
    exact ⟨⟨t, ⟨m, merged, ht⟩, layer⟩, files⟩
  · rintro ⟨⟨t, ⟨m, merged, ht⟩, layer⟩, files⟩
    exact ⟨t, ⟨m, ⟨merged, files⟩, ht⟩, layer⟩

theorem known_of_undeclared (files : List (String × String))
    (h : files.all fun file => (fileTable? file).all fun t => (Layer.shape.undeclared (.table t)).isEmpty) :
    ∀ file ∈ files, ∀ t, fileTable? file = some t → Known t := by
  intro file hf t ht
  have undeclared := List.all_eq_true.1 h file hf
  rw [ht, Option.all_some, List.isEmpty_iff] at undeclared
  exact (undeclared_eq_nil_iff (Table.ordered_of_read? ht)).1 undeclared

/-- Without unknown keys, strict and lenient settings agree exactly if, whenever there are lenient
settings, each file is a layer by itself: strictly, a value that another layer lies over still has to
be one of its setting. -/
theorem strict_agrees_iff {s : Sources}
    (known : ∀ file ∈ s.files, ∀ t, fileTable? file = some t → Known t) :
    (∀ settings, resolve { s with strict := true } = .ok settings ↔
      resolve { s with strict := false } = .ok settings) ↔
    ((∃ settings, resolve { s with strict := false } = .ok settings) →
      ∀ file ∈ s.files, Readable file) := by
  constructor
  · rintro agree ⟨settings, lenient⟩ file hf
    exact ((resolve_strict_iff.1 ((agree settings).2 lenient)).2 file hf).1
  · intro readable settings
    rw [resolve_strict_iff]
    refine ⟨And.left, fun lenient => ⟨lenient, fun file hf => ⟨?_, known file hf⟩⟩⟩
    exact readable ⟨settings, lenient⟩ file hf

def shadowing (casing : String) : Sources where
  files :=
    [("a.toml", "casing = " ++ casing ++ "\n"), ("b.toml", "casing = \"exact\"\n")]

theorem strict_agrees_iff_shadowing :
    let s := shadowing "\"ignore-ascii\""
    (∀ file ∈ s.files, ∀ t, fileTable? file = some t → Known t) ∧
      ((∀ settings, resolve { s with strict := true } = .ok settings ↔
          resolve { s with strict := false } = .ok settings) ↔
        ((∃ settings, resolve { s with strict := false } = .ok settings) →
          ∀ file ∈ s.files, Readable file)) ∧
      yields (resolve { s with strict := true }) fun settings => decide (settings = {}) := by
  have known := known_of_undeclared (shadowing "\"ignore-ascii\"").files (by decide +kernel)
  exact ⟨known, strict_agrees_iff known, by decide +kernel⟩

/-- A number for a setting by name is refused strictly, even below the name in another file. -/
theorem not_strict_agrees : ¬∀ s : Sources,
    (∀ file ∈ s.files, ∀ t, fileTable? file = some t → Known t) →
    ∀ settings, resolve { s with strict := true } = .ok settings ↔
      resolve { s with strict := false } = .ok settings := by
  intro agree
  have known := known_of_undeclared (shadowing "5").files (by decide +kernel)
  have lenient : yields (resolve { shadowing "5" with strict := false }) (fun _ => true) := by
    decide +kernel
  obtain ⟨settings, lenient, -⟩ := exists_of_yields lenient
  have strict := (agree (shadowing "5") known settings).2 lenient
  have refused : yields (resolve { shadowing "5" with strict := true }) (fun _ => true) = false := by
    decide +kernel
  rw [strict] at refused
  cases refused

end DottedPatch.Settings
