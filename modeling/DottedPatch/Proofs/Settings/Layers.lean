import DottedPatch.Proofs.Config.Shapes
import DottedPatch.Proofs.Except
import DottedPatch.Proofs.Toml.Members
import DottedPatch.Proofs.Toml.PathEdits
import DottedPatch.Settings.Layer

namespace DottedPatch.Settings

open Config Toml Patch

inductive Setting
  | casing
  | entries
  | traceLookups
  | format
  | onlyRejected
  deriving DecidableEq, Repr

namespace Setting

def path : Setting → List String
  | .casing => ["casing"]
  | .entries => ["map_entries"]
  | .traceLookups => ["trace_lookups"]
  | .format => ["report", "format"]
  | .onlyRejected => ["report", "only_rejected"]

def name (p : Setting) : String := dotted p.path

def shape : Setting → Shape
  | .casing => .choice Casing.names
  | .entries => .choice EntryPolicy.names
  | .format => .choice ReportFormat.names
  | .traceLookups | .onlyRejected => .boolean

theorem path_ne_nil (p : Setting) : p.path ≠ [] := by cases p <;> simp [path]

theorem pathOf_name (p : Setting) : pathOf p.name = p.path := by cases p <;> decide

theorem name_inj {p q : Setting} : p.name = q.name ↔ p = q := by
  cases p <;> cases q <;> decide

theorem path_apart {p q : Setting} (ne : p ≠ q) : Table.Apart p.path q.path := by
  revert ne
  cases p <;> cases q <;> decide

end Setting

def value (settings : Settings) : Setting → Value
  | .casing => .string settings.casing.name
  | .entries => .string settings.entries.name
  | .traceLookups => .boolean settings.traceLookups
  | .format => .string settings.report.format.name
  | .onlyRejected => .boolean settings.report.onlyRejected

def Layer.value? (l : Layer) : Setting → Option Value
  | .casing => l.casing.map fun c => .string c.name
  | .entries => l.entries.map fun p => .string p.name
  | .traceLookups => l.traceLookups.map .boolean
  | .format => (l.report.bind ReportLayer.format).map fun f => .string f.name
  | .onlyRejected => (l.report.bind ReportLayer.onlyRejected).map .boolean

theorem Layer.value_complete (l : Layer) (p : Setting) :
    value l.complete p = (l.value? p).getD (value {} p) := by
  obtain ⟨casing, entries, traceLookups, report⟩ := l
  cases p with
  | casing => cases casing <;> rfl
  | entries => cases entries <;> rfl
  | traceLookups => cases traceLookups <;> rfl
  | format | onlyRejected =>
    rcases report with _ | ⟨format, onlyRejected⟩
    · rfl
    · cases format <;> cases onlyRejected <;> rfl

theorem name_find? {α : Type} {name : α → String} {choices : List α} {s : String}
    (h : s ∈ choices.map name) (other : α) :
    name ((choices.find? fun a => name a = s).getD other) = s := by
  obtain ⟨a, ha, rfl⟩ := List.mem_map.1 h
  cases hf : choices.find? fun b => name b = name a with
  | none => exact absurd (List.find?_eq_none.1 hf a ha) (by simp)
  | some b => simpa using List.find?_some hf

theorem name_casingOf (c : Chosen Casing.names) : (casingOf c).name = c.val := name_find? c.2 _

theorem name_entriesOf (c : Chosen EntryPolicy.names) : (entriesOf c).name = c.val := name_find? c.2 _

theorem name_formatOf (c : Chosen ReportFormat.names) : (formatOf c).name = c.val := name_find? c.2 _

section

variable {fields : Fields} {t : Table}

theorem exists_decodeTable_optional {name : String} {shape : Shape}
    (here : ∀ v, Entries.lookup name t = some v → ∃ w, shape.Reads v w)
    (rest : ∃ c, fields.decodeTable t = .ok c) :
    ∃ c, (Fields.optional name shape fields).decodeTable t = .ok c := by
  obtain ⟨c, hc⟩ := rest
  cases hl : Entries.lookup name t with
  | none => exact ⟨(none, c), Fields.decodeTable_optional.2 ⟨by rw [hl], hc⟩⟩
  | some v =>
    obtain ⟨_, x, hx, _⟩ := here v hl
    exact ⟨(some x, c), Fields.decodeTable_optional.2 ⟨by rw [hl]; exact ⟨x, hx, rfl⟩, hc⟩⟩

end

structure Sectioned (t : Table) : Prop where
  sorted : Entries.Sorted t
  report : ∀ v, Entries.lookup "report" t = some v → ∃ sub, v = .table sub ∧ Entries.Sorted sub

namespace Sectioned

variable {t : Table}

theorem map_name_eq_map_encode {α : Type} {names : List String} {name : α → String}
    {choose : Chosen names → α} (h : ∀ c, name (choose c) = c.val) (c : Option (Chosen names)) :
    (c.map choose).map (fun a => Value.string (name a)) = c.map (Shape.choice names).encode := by
  cases c with
  | none => rfl
  | some c => exact congrArg (some ∘ Value.string) (h c)

theorem reads_report? (h : Sectioned t) {c : Option ReportLayer.shape.Carrier}
    (hc : match Entries.lookup "report" t with
      | some v => ∃ x, ReportLayer.shape.decode v = .ok x ∧ c = some x
      | none => c = none) (p : Setting) {key : String} (hp : p.path = ["report", key])
    (get : ReportLayer.shape.Carrier → Option Value)
    (hget : ∀ x sub, ReportLayer.shape.decode (.table sub) = .ok x → Entries.Sorted sub →
      Place.Reads (some ⟨true, p.shape⟩) (Entries.lookup key sub) (get x)) :
    Place.Reads (some ⟨true, p.shape⟩) (Table.lookupPath p.path t) (c.bind get) := by
  rw [hp, Table.lookupPath_cons (by simp)]
  cases hl : Entries.lookup "report" t with
  | none =>
    rw [hl] at hc
    obtain rfl : c = none := hc
    exact ⟨rfl, rfl⟩
  | some v =>
    obtain ⟨sub, rfl, hs⟩ := h.report v hl
    rw [hl] at hc
    obtain ⟨x, hx, rfl⟩ := hc
    exact hget x sub hx hs

theorem reads_value? (h : Sectioned t) {l : Layer} (hl : ofTable t = .ok l) (p : Setting) :
    Place.Reads (some ⟨true, p.shape⟩) (Table.lookupPath p.path t) (l.value? p) := by
  obtain ⟨c, hc, rfl⟩ : ∃ c, Layer.shape.decode (.table t) = .ok c ∧ Layer.ofCarrier c = l := by
    simp only [ofTable, Configuration.decode] at hl
    cases hc : Layer.shape.decode (.table t) with
    | ok c => exact ⟨c, rfl, by simpa [hc, Except.map] using hl⟩
    | error e => simp [hc, Except.map] at hl
  replace hc := (Shape.decode_record h.sorted).1 hc
  have reads (key : String) := Fields.reads_get? hc key
  have hreport := (Fields.decodeTable_optional.1
    (Fields.decodeTable_optional.1
      (Fields.decodeTable_optional.1 (Fields.decodeTable_optional.1 hc).2).2).2).1
  obtain ⟨casing, entries, traceLookups, report, _⟩ := c
  cases p with
  | casing =>
    exact (congrArg (Place.Reads _ _) (map_name_eq_map_encode name_casingOf casing)).mpr (reads "casing")
  | entries =>
    exact (congrArg (Place.Reads _ _) (map_name_eq_map_encode name_entriesOf entries)).mpr
      (reads "map_entries")
  | traceLookups => exact reads "trace_lookups"
  | format =>
    have get := h.reads_report? hreport .format rfl
      (fun x => (x.1.map formatOf).map fun f => .string f.name) fun x sub hx hs => by
        rw [map_name_eq_map_encode name_formatOf]
        exact Fields.reads_get? ((Shape.decode_record hs).1 hx) "format"
    cases report <;> exact get
  | onlyRejected =>
    have get := h.reads_report? hreport .onlyRejected rfl (fun x => x.2.1.map .boolean)
      fun x sub hx hs => Fields.reads_get? ((Shape.decode_record hs).1 hx) "only_rejected"
    cases report <;> exact get

theorem exists_layer (h : Sectioned t)
    (reads : ∀ (p : Setting) v, Table.lookupPath p.path t = some v → ∃ w, p.shape.Reads v w) :
    ∃ l : Layer, ofTable t = .ok l := by
  have nothing (t : Table) : ∃ c, Fields.nil.decodeTable t = .ok c := ⟨(), rfl⟩
  have report : ∀ v, Entries.lookup "report" t = some v → ∃ w, ReportLayer.shape.Reads v w := by
    intro v hv
    obtain ⟨sub, rfl, hs⟩ := h.report v hv
    have below (p : Setting) (key : String) (hp : p.path = ["report", key]) :
        ∀ v, Entries.lookup key sub = some v → ∃ w, p.shape.Reads v w := fun v hkey =>
      reads p v (by rw [hp, Table.lookupPath_cons_of_table (by simp) hv]; exact hkey)
    obtain ⟨c, hc⟩ := exists_decodeTable_optional (below .format "format" rfl)
      (exists_decodeTable_optional (below .onlyRejected "only_rejected" rfl) (nothing sub))
    exact ⟨_, c, (Shape.decode_record hs).2 hc, rfl⟩
  obtain ⟨c, hc⟩ := exists_decodeTable_optional (reads .casing)
    (exists_decodeTable_optional (reads .entries)
      (exists_decodeTable_optional (reads .traceLookups)
        (exists_decodeTable_optional report (nothing t))))
  have decodes : Layer.shape.decode (.table t) = .ok c := (Shape.decode_record h.sorted).2 hc
  exact ⟨Layer.ofCarrier c, by simp only [ofTable, Configuration.decode, decodes]; rfl⟩

theorem lookupPath_insertPath (p q : Setting) (v : Value) (t : Table) :
    Table.lookupPath q.path (Table.insertPath v p.path t) =
      if p = q then some v else Table.lookupPath q.path t := by
  split
  · rename_i eq
    rw [eq, Table.lookupPath_insertPath q.path_ne_nil]
  · rename_i ne
    exact Table.lookupPath_insertPath_of_apart (Setting.path_apart ne)

theorem insertPath (h : Sectioned t) (p : Setting) (v : Value) :
    Sectioned (Table.insertPath v p.path t) where
  sorted := by
    cases p with
    | casing | entries | traceLookups => exact h.sorted.insert
    | format | onlyRejected =>
      rw [Setting.path, Table.insertPath_cons (by simp)]
      exact h.sorted.insert
  report w hw := by
    cases p with
    | casing | entries | traceLookups =>
      rw [Setting.path, Table.insertPath, Entries.lookup_insert_of_ne (by decide)] at hw
      exact h.report w hw
    | format | onlyRejected =>
      rw [Setting.path, Table.insertPath_cons (by simp), Entries.lookup_insert_self] at hw
      obtain rfl := Option.some.inj hw
      refine ⟨_, rfl, Entries.Sorted.insert ?_⟩
      cases hl : Entries.lookup "report" t with
      | none =>
        rw [Table.below_of_not_table (by rw [hl]; rfl)]
        exact Entries.Sorted.nil
      | some u =>
        obtain ⟨sub, rfl, hs⟩ := h.report u hl
        rw [Table.below_of_table hl]
        exact hs

end Sectioned

end DottedPatch.Settings
