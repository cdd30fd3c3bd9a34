import DottedPatch.Proofs.Settings.Layers
import DottedPatch.Proofs.Toml.Merges

namespace DottedPatch.Settings

open Config Toml Patch

def given (path : List String) : List Table → Option Value
  | [] => none
  | t :: below =>
    ((Table.lookupPath path t).map (Table.cover (given path below))).or (given path below)

theorem given_eq_findSome? {path : List String} {layers : List Table}
    (h : ∀ v, layers.findSome? (Table.lookupPath path) = some v → v.table? = none) :
    given path layers = layers.findSome? (Table.lookupPath path) := by
  induction layers with
  | nil => rfl
  | cons t below ih =>
    rw [given]
    cases hv : Table.lookupPath path t with
    | none =>
      rw [List.findSome?_cons_of_isNone (by simp [hv])] at h ⊢
      simpa using ih h
    | some v =>
      rw [List.findSome?_cons_of_isSome (by simp [hv]), hv] at h ⊢
      simp [Table.cover_of_not_table (h v rfl)]

def overlaid (layers : List Table) : Table :=
  layers.foldr (fun t below => Table.merge below t) Table.empty

def Parted (t : Table) : Prop := (Entries.lookup "report" t).all Value.isTable

instance (t : Table) : Decidable (Parted t) := inferInstanceAs (Decidable (_ = true))

section

variable {t : Table} (h : Parted t)

include h

theorem Parted.exists_table {v : Value} (hv : Entries.lookup "report" t = some v) :
    ∃ sub, v = .table sub := by
  rw [Parted, hv] at h
  cases v with
  | table sub => exact ⟨sub, rfl⟩
  | scalar | array => cases h

theorem Parted.not_blocked (p : Setting) : Table.blocked p.path t = false := by
  cases p with
  | casing | entries | traceLookups => rfl
  | format | onlyRejected =>
    cases hl : Entries.lookup "report" t with
    | none => exact Table.blocked_of_none hl
    | some v =>
      obtain ⟨sub, rfl⟩ := h.exists_table hl
      rw [Setting.path, Table.blocked_of_table (by simp) hl]
      rfl

theorem Parted.sectioned (ht : t.Ordered) : Sectioned t where
  sorted := ht.sorted
  report v hv := by
    obtain ⟨sub, rfl⟩ := h.exists_table hv
    exact ⟨sub, rfl, Table.Ordered.sorted (ht.of_lookup hv)⟩

end

section

variable {layers : List Table} (ho : ∀ t ∈ layers, t.Ordered)

include ho

theorem ordered_overlaid : (overlaid layers).Ordered := by
  induction layers with
  | nil => exact .empty
  | cons t below ih =>
    obtain ⟨ht, ho⟩ := List.forall_mem_cons.1 ho
    exact (ih ho).merge ht

variable (hp : ∀ t ∈ layers, Parted t)

include hp

theorem parted_overlaid : Parted (overlaid layers) := by
  induction layers with
  | nil => rfl
  | cons t below ih =>
    obtain ⟨ht, ho⟩ := List.forall_mem_cons.1 ho
    obtain ⟨hpt, hp⟩ := List.forall_mem_cons.1 hp
    rw [Parted, overlaid, List.foldr_cons, Table.lookup_merge ht.sorted]
    cases hv : Entries.lookup "report" t with
    | none => exact ih ho hp
    | some v =>
      obtain ⟨sub, rfl⟩ := hpt.exists_table hv
      simp [Table.cover_table (Table.Ordered.sorted (ht.of_lookup hv)), Value.isTable, Value.table?]

theorem lookupPath_overlaid (p : Setting) :
    Table.lookupPath p.path (overlaid layers) = given p.path layers := by
  induction layers with
  | nil => exact Table.lookupPath_empty _
  | cons t below ih =>
    obtain ⟨ht, ho⟩ := List.forall_mem_cons.1 ho
    obtain ⟨hpt, hp⟩ := List.forall_mem_cons.1 hp
    rw [overlaid, List.foldr_cons, given]
    cases hv : Table.lookupPath p.path t with
    | none =>
      rw [Table.lookupPath_merge_of_none ht hv (hpt.not_blocked p)]
      exact ih ho hp
    | some v =>
      rw [Table.lookupPath_merge_of_some ht hv, ← ih ho hp]
      rfl

end

def fileTable? (file : String × String) : Option Table := Table.read? file.2

namespace Sources

/-- The layers below the overrides, the highest first. -/
def layers (s : Sources) : List Table :=
  (s.environmentMark.map fun mark => environmentTable mark s.environment).toList ++
    (s.files.filterMap fileTable?).reverse

def override? (s : Sources) (p : Setting) : Option Value :=
  (s.overrides.reverse.find? fun o => o.1 = p.name).map Prod.snd

def given (s : Sources) (p : Setting) : Option Value :=
  (s.override? p).or (Settings.given p.path s.layers)

def highest (s : Sources) (p : Setting) : Option Value :=
  (s.override? p).or (s.layers.findSome? (Table.lookupPath p.path))

theorem given_eq_highest {s : Sources} {p : Setting}
    (h : ∀ v, s.highest p = some v → v.table? = none) : s.given p = s.highest p := by
  cases ho : s.override? p with
  | some v => rw [given, highest, ho, Option.some_or, Option.some_or]
  | none =>
    rw [highest, ho, Option.none_or] at h
    rw [given, highest, ho, Option.none_or, Option.none_or, given_eq_findSome? h]

def Named (s : Sources) : Prop := ∀ o ∈ s.overrides, ∃ p : Setting, o.1 = p.name

end Sources

theorem readFile_eq_ok {strict : Bool} {file : String × String} {t : Table}
    (h : readFile strict file.1 file.2 = .ok t) : fileTable? file = some t := by
  simp only [readFile] at h
  cases hr : Table.read? file.2 with
  | none =>
    simp only [hr] at h
    cases h
  | some u =>
    cases strict with
    | false =>
      simp only [hr] at h
      exact hr.trans (congrArg some (Except.ok.inj h))
    | true =>
      simp only [hr] at h
      obtain ⟨_, _, h⟩ := ok_of_bind h
      exact hr.trans (congrArg some (Except.ok.inj h))

theorem mergeFiles_eq_ok {strict : Bool} {files : List (String × String)} {t m : Table}
    (h : mergeFiles strict files t = .ok m) :
    m = (files.filterMap fileTable?).foldl Table.merge t := by
  induction files generalizing t with
  | nil => exact (Except.ok.inj h).symm
  | cons file files ih =>
    obtain ⟨u, hu, h⟩ := ok_of_bind h
    rw [List.filterMap_cons_some (readFile_eq_ok hu)]
    exact ih h

theorem mergeFiles_lenient {files : List (String × String)}
    (h : ∀ file ∈ files, (fileTable? file).isSome) (t : Table) :
    mergeFiles false files t = .ok ((files.filterMap fileTable?).foldl Table.merge t) := by
  induction files generalizing t with
  | nil => rfl
  | cons file files ih =>
    obtain ⟨hfile, h⟩ := List.forall_mem_cons.1 h
    obtain ⟨u, hu⟩ := Option.isSome_iff_exists.1 hfile
    rw [List.filterMap_cons_some hu, List.foldl_cons, ← ih h]
    rw [fileTable?] at hu
    simp only [mergeFiles, readFile, hu]
    rfl

theorem ordered_variableValue (text : String) : (variableValue text).Ordered := by
  simp only [variableValue]
  split
  · exact .scalar _
  · split
    · exact .scalar _
    · split <;> exact .scalar _

theorem ordered_environmentTable (mark : String) (environment : List (String × String)) :
    (environmentTable mark environment).Ordered := by
  suffices ∀ t : Table, t.Ordered → (environment.foldl (addVariable mark) t).Ordered from this _ .empty
  induction environment with
  | nil => exact fun _ h => h
  | cons entry environment ih =>
    intro t ht
    refine ih _ ?_
    simp only [addVariable]
    split
    · exact ht.insertPath (ordered_variableValue _) _
    · exact ht

namespace Sources

theorem ordered_layers (s : Sources) : ∀ t ∈ s.layers, t.Ordered := by
  intro t ht
  rcases List.mem_append.1 ht with ht | ht
  · obtain ⟨mark, _, rfl⟩ := by simpa using ht
    exact ordered_environmentTable mark _
  · obtain ⟨file, _, hfile⟩ := List.mem_filterMap.1 (List.mem_reverse.1 ht)
    obtain ⟨d, _, hd⟩ := Option.bind_eq_some_iff.1 hfile
    exact Item.ordered_of_denotedEntries? _ hd

theorem overlaid_layers (s : Sources) :
    overlaid s.layers =
      match s.environmentMark with
      | some mark =>
        Table.merge ((s.files.filterMap fileTable?).foldl Table.merge Table.empty)
          (environmentTable mark s.environment)
      | none => (s.files.filterMap fileTable?).foldl Table.merge Table.empty := by
  rw [overlaid, layers, List.foldr_append, List.foldr_reverse]
  cases s.environmentMark <;> rfl

theorem table_eq_ok {s : Sources} {t : Table} (h : s.table = .ok t) :
    t = s.overrides.foldl addOverride (overlaid s.layers) := by
  obtain ⟨m, hm, h⟩ := ok_of_bind h
  obtain rfl := mergeFiles_eq_ok hm
  rw [overlaid_layers]
  exact (Except.ok.inj h).symm

theorem table_lenient {s : Sources} (hs : s.strict = false)
    (h : ∀ file ∈ s.files, (fileTable? file).isSome) :
    s.table = .ok (s.overrides.foldl addOverride (overlaid s.layers)) := by
  simp only [table, hs, mergeFiles_lenient h, overlaid_layers]
  rfl

end Sources

section

variable {overrides : List (String × Value)} (h : ∀ o ∈ overrides, ∃ p : Setting, o.1 = p.name)

include h

theorem sectioned_foldl_addOverride {t : Table} (ht : Sectioned t) :
    Sectioned (overrides.foldl addOverride t) := by
  induction overrides generalizing t with
  | nil => exact ht
  | cons o overrides ih =>
    obtain ⟨⟨p, hp⟩, h⟩ := List.forall_mem_cons.1 h
    refine ih h ?_
    rw [addOverride, hp, p.pathOf_name]
    exact ht.insertPath p o.2

theorem lookupPath_foldl_addOverride (q : Setting) (t : Table) :
    Table.lookupPath q.path (overrides.foldl addOverride t) =
      ((overrides.reverse.find? fun o => o.1 = q.name).map Prod.snd).or
        (Table.lookupPath q.path t) := by
  induction overrides generalizing t with
  | nil => rfl
  | cons o overrides ih =>
    obtain ⟨⟨p, hp⟩, h⟩ := List.forall_mem_cons.1 h
    rw [List.foldl_cons, ih h, List.reverse_cons, List.find?_append, addOverride, hp, p.pathOf_name,
      Sectioned.lookupPath_insertPath]
    cases hf : overrides.reverse.find? fun o => o.1 = q.name with
    | some later => rfl
    | none => by_cases eq : p = q <;> simp [hp, Setting.name_inj, eq]

end

/-- The settings are resolved from what is given for each: what is given is read, and what is not
given has its default. Leniently nothing else counts. -/
structure Sources.ResolvedFrom (s : Sources) (given : Setting → Option Value) : Prop where
  values : ∀ settings, resolve s = .ok settings → ∀ p,
    match given p with
    | some v => p.shape.Reads v (value settings p)
    | none => value settings p = value {} p
  lenient : s.strict = false → ((∃ settings, resolve s = .ok settings) ↔
    ∀ p v, given p = some v → ∃ w, p.shape.Reads v w)

theorem resolvedFrom_given {s : Sources} (hfiles : ∀ file ∈ s.files, (fileTable? file).isSome)
    (hnamed : s.Named) (hparted : ∀ t ∈ s.layers, Parted t) : s.ResolvedFrom s.given := by
  have sectioned : Sectioned (s.overrides.foldl addOverride (overlaid s.layers)) :=
    sectioned_foldl_addOverride hnamed
      ((parted_overlaid s.ordered_layers hparted).sectioned (ordered_overlaid s.ordered_layers))
  have given (p : Setting) :
      Table.lookupPath p.path (s.overrides.foldl addOverride (overlaid s.layers)) = s.given p := by
    rw [lookupPath_foldl_addOverride hnamed, lookupPath_overlaid s.ordered_layers hparted]
    rfl
  constructor
  · intro settings h p
    obtain ⟨t, ht, h⟩ := ok_of_bind h
    obtain ⟨l, hl, h⟩ := ok_of_bind h
    obtain rfl := Except.ok.inj h
    obtain rfl := Sources.table_eq_ok ht
    have reads := sectioned.reads_value? hl p
    rw [given] at reads
    rw [Layer.value_complete]
    cases hv : s.given p with
    | some v =>
      rw [hv] at reads
      obtain ⟨w, hw, eq⟩ := reads
      rw [eq]
      exact hw
    | none =>
      rw [hv] at reads
      rw [reads.2]
      rfl
  · intro hstrict
    constructor
    · rintro ⟨settings, h⟩ p v hv
      obtain ⟨t, ht, h⟩ := ok_of_bind h
      obtain ⟨l, hl, h⟩ := ok_of_bind h
      obtain rfl := Sources.table_eq_ok ht
      have reads := sectioned.reads_value? hl p
      rw [given, hv] at reads
      obtain ⟨w, hw, _⟩ := reads
      exact ⟨w, hw⟩
    · intro h
      obtain ⟨l, hl⟩ := sectioned.exists_layer fun p v hv => h p v (given p ▸ hv)
      refine ⟨l.complete, ?_⟩
      simp only [resolve, Sources.table_lenient hstrict hfiles, bind, Except.bind, hl]
      rfl

/-- Each setting is resolved from the highest layer that sets it: a later override, an earlier one,
the environment, a later file, an earlier file. Only a table is laid over the one that is given below
it. -/
theorem resolve_from_highest {s : Sources} (hfiles : ∀ file ∈ s.files, (fileTable? file).isSome)
    (hnamed : s.Named) (hparted : ∀ t ∈ s.layers, Parted t) :
    s.ResolvedFrom s.given ∧
      ∀ p, (∀ v, s.highest p = some v → v.table? = none) → s.given p = s.highest p :=
  ⟨resolvedFrom_given hfiles hnamed hparted, fun _ => Sources.given_eq_highest⟩

def stacked : Sources where
  files :=
    [("a.toml", "casing = \"exact\"\n[report]\nformat = \"json\"\nonly_rejected = true\n"),
     ("b.toml", "trace_lookups = true\n[report]\nonly_rejected = false\nother = 1\n")]
  environment := [("CONFPATCH__CASING", "unread"), ("CONFPATCH__REPORT__ONLY_REJECTED", "true")]
  environmentMark := some "CONFPATCH"
  overrides := [("casing", .string "exact"), ("casing", .string "ignore-ascii")]

theorem resolve_from_highest_stacked :
    (∀ file ∈ stacked.files, (fileTable? file).isSome) ∧ stacked.Named ∧
      (∀ t ∈ stacked.layers, Parted t) ∧
      (stacked.ResolvedFrom stacked.given ∧
        ∀ p, (∀ v, stacked.highest p = some v → v.table? = none) →
          stacked.given p = stacked.highest p) ∧
      yields (resolve stacked) fun settings => decide (settings =
        { casing := .ignoreAscii, traceLookups := true,
          report := { format := .json, onlyRejected := true } }) := by
  have files : ∀ file ∈ stacked.files, (fileTable? file).isSome := by decide +kernel
  have named : stacked.Named := by
    intro o ho
    rcases List.mem_cons.1 ho with rfl | ho
    · exact ⟨.casing, by decide⟩
    · obtain rfl := List.mem_singleton.1 ho
      exact ⟨.casing, by decide⟩
  have parted : ∀ t ∈ stacked.layers, Parted t := by decide +kernel
  exact ⟨files, named, parted, resolve_from_highest files named parted, by decide +kernel⟩

def crossed : Sources where
  files := [("a.toml", "casing = \x7b exact = [] \x7d\n"), ("b.toml", "casing = \x7b ignore-ascii = [] \x7d\n")]

/-- A table in the highest layer does not hide the table of the same setting below it. -/
theorem not_resolved_from_highest : ¬∀ s : Sources, (∀ file ∈ s.files, (fileTable? file).isSome) →
    s.Named → (∀ t ∈ s.layers, Parted t) → s.ResolvedFrom s.highest := by
  intro resolved
  have files : ∀ file ∈ crossed.files, (fileTable? file).isSome := by decide +kernel
  have parted : ∀ t ∈ crossed.layers, Parted t := by decide +kernel
  have casing : crossed.highest .casing = some (.table [("ignore-ascii", .array [])]) := by decide +kernel
  have others : ∀ p, p ≠ .casing → crossed.highest p = none := by
    intro p ne
    cases p with
    | casing => exact absurd rfl ne
    | entries | traceLookups | format | onlyRejected => decide +kernel
  obtain ⟨settings, h⟩ := ((resolved crossed files (fun _ h => nomatch h) parted).lenient rfl).2
    fun p v hv => by
      by_cases hp : p = .casing
      · rw [hp, casing] at hv
        obtain rfl := Option.some.inj hv
        rw [hp]
        exact ⟨.string "ignore-ascii", ⟨"ignore-ascii", by decide⟩, rfl, rfl⟩
      · rw [others p hp] at hv
        cases hv
  have fails : yields (resolve crossed) (fun _ => true) = false := by decide +kernel
  rw [h] at fails
  cases fails

end DottedPatch.Settings
