import DottedPatch.Proofs.Config.Leaves
import DottedPatch.Proofs.Gateway.Reload
import DottedPatch.Proofs.Patch.Assignments

namespace DottedPatch.Gateway

open Config Toml Patch

theorem leafPaths_schema : schema.leaves.map Prod.fst = GatewayConfig.fields.leafPaths.map dotted := by
  decide +kernel

theorem dotFree_leafPaths : ∀ q ∈ GatewayConfig.fields.leafPaths, ∀ key ∈ q, DotFree key := by
  decide +kernel

theorem exists_leaf_of_isLeaf {q : List String} (h : GatewayConfig.fields.IsLeaf q) :
    ∃ path leaf, (path, leaf) ∈ schema.leaves ∧ pathOf path = q := by
  have hq := h.mem_leafPaths
  have listed := List.mem_map_of_mem (f := dotted) hq
  rw [← leafPaths_schema] at listed
  obtain ⟨⟨path, leaf⟩, hleaf, eq⟩ := List.mem_map.1 listed
  refine ⟨path, leaf, hleaf, ?_⟩
  rw [show path = dotted q from eq, pathOf_dotted h.ne_nil (dotFree_leafPaths q hq)]

section

variable [Machine]

def GatewayConfig.valueAt (c : GatewayConfig) (path : String) : Option Value :=
  match toTable c with
  | .ok t => Table.lookupPath (pathOf path) t
  | .error _ => none

theorem valueAt_eq {c : GatewayConfig} {t : Table} (h : toTable c = .ok t) (path : String) :
    c.valueAt path = Table.lookupPath (pathOf path) t := by
  rw [GatewayConfig.valueAt, h]

theorem eq_of_valueAt {c c' : GatewayConfig}
    (h : ∀ path leaf, (path, leaf) ∈ schema.leaves → c.valueAt path = c'.valueAt path) : c = c' := by
  obtain ⟨t, ht⟩ := exists_toTable isTable_shape c
  obtain ⟨t', ht'⟩ := exists_toTable isTable_shape c'
  have eq : t = t' := by
    refine Shape.Fits.eq_of_leaves regular_shape (fits_toTable ht) (fits_toTable ht') fun q hq => ?_
    obtain ⟨path, leaf, hleaf, rfl⟩ := exists_leaf_of_isLeaf hq
    have := h path leaf hleaf
    rwa [valueAt_eq ht, valueAt_eq ht'] at this
  exact eq_of_toTable regular_shape ht (eq ▸ ht')

def passOver (rules : Rules) (file : String) (lines : List Line) (text : String) :
    Except Failure (String × Report) := do
  let p ← patchedOver rules file lines text
  return (← writeBack text file p.report p.config, p.report)

/-- The document that a pass over a base text prints is read again. -/
def Reprinted (rules : Rules) (file : String) (lines : List Line) (text : String) : Prop :=
  ∀ (c : GatewayConfig) p d patched, readBase text file true = .ok c →
    (applyTo? schema rules lines c).1 = .ok p → Document.read? text = some d →
      toTable p.config = .ok patched →
        let edited := p.report.appliedPaths.foldl (writeLeaf patched) d
        edited.Reprints ∧ edited.Faithful

/-- The base text is read, and wherever it has a section, the section is a table. -/
structure Sectioned (file text : String) (c : GatewayConfig) : Prop where
  loads : readBase text file true = .ok c
  sections : ∀ upper, Table.read? text = some upper → GatewayConfig.fields.Open upper

/-- What is read at a path after assignments were saved, where a value was read before. A leaf that
was left without a value reads as it is initially. -/
def leftAt (path : String) (before : Option Value) (as : List Assignment) : Option Value :=
  match given? path as with
  | some (some v) => some v.toValue
  | some none => (default : GatewayConfig).valueAt path
  | none => before

theorem leftAt_append (path : String) (before : Option Value) (as bs : List Assignment) :
    leftAt path before (as ++ bs) = leftAt path (leftAt path before as) bs := by
  simp only [leftAt, given?_append]
  rcases given? path bs with _ | _ | v <;> rfl

variable {rules : Rules} {file text text' : String} {lines : List Line} {c : GatewayConfig}
  {report : Report}

theorem passOver_eq_ok_iff : passOver rules file lines text = .ok (text', report) ↔
    ∃ (c : GatewayConfig) (p : Patched GatewayConfig), readBase text file true = .ok c ∧
      (applyTo? schema rules lines c).1 = .ok p ∧
      writeBack text file p.report p.config = .ok text' ∧ p.report = report := by
  constructor
  · intro h
    obtain ⟨p, hpass, h⟩ := ok_of_bind h
    obtain ⟨written, hw, h⟩ := ok_of_bind h
    obtain ⟨rfl, rfl⟩ := Prod.mk.inj (Except.ok.inj h)
    obtain ⟨c, hc, hp⟩ := patchedOver_eq_ok_iff.1 hpass
    exact ⟨c, p, hc, hp, hw, rfl⟩
  · rintro ⟨c, p, hc, hp, hw, rfl⟩
    simp only [passOver, patchedOver_eq_ok_iff.2 ⟨c, hc, hp⟩, hw, bind, Except.bind]
    rfl

theorem sectioned_of_any (hc : readBase text file true = .ok c)
    (h : (Table.read? text).any GatewayConfig.fields.sectioned) : Sectioned file text c where
  loads := hc
  sections upper hupper := by
    rw [hupper, Option.any_some] at h
    exact Fields.open_of_sectioned h

theorem exists_passOver (hc : readBase text file true = .ok c) (rules : Rules) (lines : List Line) :
    ∃ p d patched, (applyTo? schema rules lines c).1 = .ok p ∧ Document.read? text = some d ∧
      toTable p.config = .ok patched ∧
      passOver rules file lines text =
        .ok ((p.report.appliedPaths.foldl (writeLeaf patched) d).text, p.report) := by
  obtain ⟨upper, hupper⟩ := exists_read?_of_readBase hc
  obtain ⟨d, hdoc, -⟩ := Option.bind_eq_some_iff.1 hupper
  obtain ⟨p, _, hp, _, hpatched, _⟩ :=
    applyTo?_of_suits suits_schema regular_shape isTable_shape rules lines c
  refine ⟨p, d, _, hp, hdoc, hpatched, passOver_eq_ok_iff.2 ⟨c, p, hc, hp, ?_, rfl⟩⟩
  simp only [writeBack, hdoc, hpatched]
  rfl

theorem statuses_passOver (h : passOver rules file lines text = .ok (text', report))
    {lines' : List Line} (hl : lines.map Line.content = lines'.map Line.content) {t : Table}
    (ht : (Shaped.shape GatewayConfig).Fits (.table t)) :
    report.outcomes.map Outcome.status =
      (applyLines schema rules lines' t).outcomes.map Outcome.status := by
  obtain ⟨c, p, _, hp, _, rfl⟩ := passOver_eq_ok_iff.1 h
  obtain ⟨p', loaded, hp', hloaded, _, houtcomes⟩ :=
    applyTo?_of_suits suits_schema regular_shape isTable_shape rules lines c
  obtain rfl := Except.ok.inj (hp.symm.trans hp')
  rw [houtcomes]
  exact statuses_applyLines suits_schema regular_shape hl (fits_toTable hloaded) ht

theorem assigned_applyTo? {p : Patched GatewayConfig} (hp : (applyTo? schema rules lines c).1 = .ok p)
    {path : String} {leaf : Leaf} (hl : (path, leaf) ∈ schema.leaves) :
    (path ∈ p.report.appliedPaths ↔ given? path (assignments schema rules lines) ≠ none) ∧
      p.config.valueAt path =
        match given? path (assignments schema rules lines) with
        | some v => v.map LeafValue.toValue
        | none => c.valueAt path := by
  obtain ⟨p', loaded, hp', hloaded, hpatched, houtcomes⟩ :=
    applyTo?_of_suits suits_schema regular_shape isTable_shape rules lines c
  obtain rfl := Except.ok.inj (hp.symm.trans hp')
  have fits := fits_toTable hloaded
  constructor
  · rw [given?_ne_none, ← applied_applyLines suits_schema regular_shape lines fits, ← houtcomes]
    simp [Report.appliedPaths]
  · rw [valueAt_eq hpatched, valueAt_eq hloaded]
    exact lookupPath_applyLines suits_schema regular_shape
      (fun _ hin ne => apart_of_describes describes_schema hl hin ne) lines fits

/-- A pass over a base text that is to be printed, with the tables on its way: what the document
denotes, and the initial configuration and those before and after the pass. -/
structure Written (rules : Rules) (lines : List Line) (c : GatewayConfig) (p : Patched GatewayConfig)
    (d : Document) (upper lower loaded patched : Table) : Prop where
  pass : (applyTo? schema rules lines c).1 = .ok p
  distinct : d.members.Distinct
  denoted : d.denoted? = some upper
  sections : GatewayConfig.fields.Open upper
  accepts : (Shaped.shape GatewayConfig).Accepts (.table upper)
  settles : GatewayConfig.fields.Settles d.members
  initial : toTable (default : GatewayConfig) = .ok lower
  before : toTable c = .ok loaded
  reads : (Shaped.shape GatewayConfig).Reads (.table (Table.merge lower upper)) (.table loaded)
  after : toTable p.config = .ok patched
  reprints : (p.report.appliedPaths.foldl (writeLeaf patched) d).Reprints
  faithful : (p.report.appliedPaths.foldl (writeLeaf patched) d).Faithful

theorem exists_written (h : Sectioned file text c) (hprint : Reprinted rules file lines text)
    (hpass : passOver rules file lines text = .ok (text', report)) :
    ∃ p d upper lower loaded patched, Written rules lines c p d upper lower loaded patched ∧
      text' = (p.report.appliedPaths.foldl (writeLeaf patched) d).text := by
  obtain ⟨p, d, patched, hp, hdoc, hpatched, hpass'⟩ := exists_passOver h.loads rules lines
  obtain ⟨rfl, rfl⟩ := Prod.mk.inj (Except.ok.inj (hpass.symm.trans hpass'))
  obtain ⟨upper, hupper⟩ := exists_read?_of_readBase h.loads
  have hd : d.denoted? = some upper := by
    rwa [Table.read?, hdoc] at hupper
  obtain ⟨lower, hlower⟩ := exists_toTable isTable_shape (default : GatewayConfig)
  obtain ⟨accepts, settles, loaded, hloaded, reads⟩ := settles_of_readBase rfl regular_shape
    undated_fields hlower (beneath_default hlower) hdoc hd h.loads
  obtain ⟨reprints, faithful⟩ := hprint c p d patched h.loads hp hdoc hpatched
  exact ⟨p, d, upper, lower, loaded, patched, ⟨hp, Document.distinct_read? hdoc, hd,
    h.sections upper hupper, accepts, settles, hlower, hloaded, reads, hpatched, reprints, faithful⟩,
    rfl⟩

namespace Written

variable {p : Patched GatewayConfig} {d : Document} {upper lower loaded patched : Table}
  (h : Written rules lines c p d upper lower loaded patched)

include h

theorem isLeaf : ∀ path ∈ p.report.appliedPaths, GatewayConfig.fields.IsLeaf (pathOf path) :=
  isLeaf_of_leaves describes_schema (exists_leaf_of_applied h.pass)

theorem isLeaf_pathOf : ∀ q ∈ p.report.appliedPaths.map pathOf, GatewayConfig.fields.IsLeaf q :=
  List.forall_mem_map.2 h.isLeaf

theorem exists_readBase (file : String) : ∃ (c' : GatewayConfig) (reloaded : Table),
    readBase (p.report.appliedPaths.foldl (writeLeaf patched) d).text file true = .ok c' ∧
      toTable c' = .ok reloaded ∧
      (Table.setPaths (Table.lookupPath · patched) (p.report.appliedPaths.map pathOf) upper).Ordered ∧
      (Shaped.shape GatewayConfig).Reads (.table (Table.merge lower
        (Table.setPaths (Table.lookupPath · patched) (p.report.appliedPaths.map pathOf) upper)))
        (.table reloaded) :=
  exists_readBase_of_written rfl regular_shape undated_fields h.initial (beneath_default h.initial)
    h.distinct h.settles (fits_toTable h.after) h.isLeaf h.reprints h.faithful file h.denoted h.accepts

theorem open_read? {upper' : Table}
    (hupper' : Table.read? (p.report.appliedPaths.foldl (writeLeaf patched) d).text = some upper') :
    GatewayConfig.fields.Open upper' := by
  have denoted := denoted?_written undated_fields h.distinct h.settles (fits_toTable h.after) h.isLeaf
    h.reprints h.faithful h.denoted
  rw [h.faithful, denoted] at hupper'
  obtain rfl := Option.some.inj hupper'
  exact h.sections.setPaths _ h.isLeaf_pathOf

theorem valueAt_reloaded {c' : GatewayConfig}
    (hc' : readBase (p.report.appliedPaths.foldl (writeLeaf patched) d).text file true = .ok c')
    {path : String} {leaf : Leaf} (hleaf : (path, leaf) ∈ schema.leaves) :
    c'.valueAt path = leftAt path (c.valueAt path) (assignments schema rules lines) := by
  obtain ⟨again, reloaded, hagain, hreloaded, hordered, hreads'⟩ := h.exists_readBase file
  obtain rfl := Except.ok.inj (hc'.symm.trans hagain)
  obtain ⟨applied, value⟩ := assigned_applyTo? h.pass hleaf
  have hq := (isLeaf_of_mem describes_schema hleaf).1
  rw [← mem_map_pathOf describes_schema (exists_leaf_of_applied h.pass) hleaf] at applied
  rw [valueAt_eq h.after, valueAt_eq h.before] at value
  have reload := reload_of_not_blocked regular_shape (beneath_default h.initial) h.isLeaf_pathOf
    (Item.ordered_of_denotedEntries? _ h.denoted) hordered (fits_toTable h.after) hreads' hq h.reads
    (fun hm => by rw [value, Classical.not_not.1 fun given => hm (applied.2 given)])
    (h.sections _ hq)
  rw [valueAt_eq hreloaded, valueAt_eq h.before, reload, leftAt, valueAt_eq h.initial]
  simp only [applied, value]
  rcases given? path (assignments schema rules lines) with _ | _ | v <;> simp

end Written

theorem reload_passOver (h : Sectioned file text c) (hprint : Reprinted rules file lines text)
    (hpass : passOver rules file lines text = .ok (text', report)) :
    ∃ c' : GatewayConfig, Sectioned file text' c' ∧ ∀ path leaf, (path, leaf) ∈ schema.leaves →
      c'.valueAt path = leftAt path (c.valueAt path) (assignments schema rules lines) := by
  obtain ⟨p, d, upper, lower, loaded, patched, written, rfl⟩ := exists_written h hprint hpass
  obtain ⟨c', _, hc', _⟩ := written.exists_readBase file
  exact ⟨c', ⟨hc', fun _ => written.open_read?⟩, fun _ _ => written.valueAt_reloaded hc'⟩

theorem passes_compose (h : Sectioned file text c) {more all : List Line}
    (hlines : all.map Line.content = (lines ++ more).map Line.content)
    (hprint : Reprinted rules file lines text) (hprintAll : Reprinted rules file all text)
    (hprintNext : ∀ text' report, passOver rules file lines text = .ok (text', report) →
      Reprinted rules file more text') :
    ∃ text₁ first text₂ second text' both, ∃ c' : GatewayConfig,
      passOver rules file lines text = .ok (text₁, first) ∧
      passOver rules file more text₁ = .ok (text₂, second) ∧
      passOver rules file all text = .ok (text', both) ∧
      readBase text₂ file true = .ok c' ∧ readBase text' file true = .ok c' ∧
      both.outcomes.map Outcome.status =
        first.outcomes.map Outcome.status ++ second.outcomes.map Outcome.status := by
  obtain ⟨_, _, _, -, -, -, pass₁⟩ := exists_passOver h.loads rules lines
  obtain ⟨c₁, sectioned₁, values₁⟩ := reload_passOver h hprint pass₁
  obtain ⟨_, _, _, -, -, -, pass₂⟩ := exists_passOver sectioned₁.loads rules more
  obtain ⟨c₂, sectioned₂, values₂⟩ := reload_passOver sectioned₁ (hprintNext _ _ pass₁) pass₂
  obtain ⟨_, _, _, -, -, -, pass⟩ := exists_passOver h.loads rules all
  obtain ⟨c', sectioned', values⟩ := reload_passOver h hprintAll pass
  obtain rfl : c₂ = c' := by
    refine eq_of_valueAt fun path leaf hleaf => ?_
    rw [values₂ path leaf hleaf, values₁ path leaf hleaf, values path leaf hleaf,
      assignments_of_content hlines, assignments_append, leftAt_append]
  obtain ⟨t, ht⟩ := exists_toTable isTable_shape c
  have fits := fits_toTable ht
  refine ⟨_, _, _, _, _, _, c₂, pass₁, pass₂, pass, sectioned₂.loads, sectioned'.loads, ?_⟩
  rw [statuses_passOver pass hlines fits, statuses_passOver pass₁ rfl fits,
    statuses_passOver pass₂ rfl (fits_applyLines suits_schema regular_shape rules lines fits),
    outcomes_applyLines_append, List.map_append]

end

end DottedPatch.Gateway
