import DottedPatch.Proofs.Config.Collections

/-! What the values of a shape look like as tables, and how tables are read.

`Shape.Reads` relates a value to the form in which the shape writes what it read. For tables it is
settled key by key (`reads_table_iff`), so that configurations are never taken apart. -/

namespace DottedPatch.Config

open Toml

/-- What may stand under a key: something of a shape, or nothing where that is allowed. -/
structure Place where
  optional : Bool
  shape : Shape

namespace Fields

def find? (key : String) : Fields → Option Place
  | .nil => none
  | .required name shape rest => if name = key then some ⟨false, shape⟩ else rest.find? key
  | .optional name shape rest => if name = key then some ⟨true, shape⟩ else rest.find? key

def get? (key : String) : (fields : Fields) → fields.Carrier → Option Value
  | .nil, _ => none
  | .required name shape rest, c => if name = key then some (shape.encode c.1) else rest.get? key c.2
  | .optional name shape rest, c => if name = key then c.1.map shape.encode else rest.get? key c.2

end Fields

namespace Shape

def place? (key : String) : Shape → Option Place
  | .record _ fields => fields.find? key
  | .stringMap => some ⟨true, .string⟩
  | .boolean | .integer _ | .string | .strings | .stringSet | .choice _ => none

def isRecord : Shape → Bool
  | .record _ _ => true
  | _ => false

def isTable : Shape → Bool
  | .record _ _ | .stringMap => true
  | _ => false

end Shape

mutual

/-- No record has two fields of one name, and records are never missing. -/
def Shape.regular : Shape → Bool
  | .record _ fields => fields.regular
  | .boolean | .integer _ | .string | .strings | .stringSet | .stringMap | .choice _ => true

def Fields.regular : Fields → Bool
  | .nil => true
  | .required name shape rest => decide (name ∉ rest.names) && shape.regular && rest.regular
  | .optional name shape rest =>
    decide (name ∉ rest.names) && !shape.isRecord && shape.regular && rest.regular

end

namespace Fields

theorem find?_isSome_of_mem {fields : Fields} {key : String} (h : key ∈ fields.names) :
    (fields.find? key).isSome := by
  cases fields with
  | nil => simp [names] at h
  | required name shape rest | optional name shape rest =>
    simp only [find?]
    split
    · rfl
    · rename_i ne
      rcases List.mem_cons.1 h with rfl | h
      · exact absurd rfl ne
      · exact find?_isSome_of_mem h

theorem mem_names_of_find? {fields : Fields} {key : String} {p : Place} (h : fields.find? key = some p) :
    key ∈ fields.names := by
  cases fields with
  | nil => cases h
  | required name shape rest | optional name shape rest =>
    simp only [find?] at h
    split at h
    · rename_i eq
      exact List.mem_cons.2 (.inl eq.symm)
    · exact List.mem_cons_of_mem _ (mem_names_of_find? h)

theorem place_of_find? {fields : Fields} (hr : fields.regular) {key : String} {p : Place}
    (h : fields.find? key = some p) :
    p.shape.regular ∧ (p.shape.isRecord → p.optional = false) := by
  cases fields with
  | nil => simp [find?] at h
  | required name shape rest | optional name shape rest =>
    simp only [find?] at h
    simp only [regular, Bool.and_eq_true] at hr
    split at h
    · obtain rfl := Option.some.inj h
      exact ⟨hr.1.2, by simp_all⟩
    · exact place_of_find? hr.2 h

theorem regular_of_find? {fields : Fields} (hr : fields.regular) {key : String} {p : Place}
    (h : fields.find? key = some p) : p.shape.regular := (place_of_find? hr h).1

theorem required_of_find? {fields : Fields} (hr : fields.regular) {key : String} {p : Place}
    (h : fields.find? key = some p) (hp : p.shape.isRecord) : p.optional = false :=
  (place_of_find? hr h).2 hp

theorem get?_eq_none {fields : Fields} {key : String} (h : key ∉ fields.names) (c : fields.Carrier) :
    fields.get? key c = none := by
  cases fields with
  | nil => rfl
  | required name shape rest | optional name shape rest =>
    simp only [names, List.mem_cons, not_or] at h
    simp only [get?, if_neg (Ne.symm h.1), get?_eq_none h.2]

theorem lookup_encode {fields : Fields} (hr : fields.regular) (key : String) (c : fields.Carrier) :
    Entries.lookup key (fields.encode c) = fields.get? key c := by
  cases fields with
  | nil => rfl
  | required name shape rest =>
    simp only [regular, Bool.and_eq_true] at hr
    rw [encode, Entries.lookup_insert, get?, lookup_encode hr.2]
  | optional name shape rest =>
    simp only [regular, Bool.and_eq_true, decide_eq_true_eq] at hr
    obtain ⟨x, c⟩ := c
    cases x with
    | none =>
      rw [encode, get?, lookup_encode hr.2]
      split
      · rename_i eq
        subst key
        exact get?_eq_none hr.1.1.1 c
      · rfl
    | some x => rw [encode, Entries.lookup_insert, get?, lookup_encode hr.2, Option.map_some]

theorem sorted_encode (fields : Fields) (c : fields.Carrier) : Entries.Sorted (fields.encode c) := by
  cases fields with
  | nil => exact .nil
  | required name shape rest => exact (sorted_encode rest c.2).insert
  | optional name shape rest =>
    obtain ⟨x, c⟩ := c
    cases x with
    | none => exact sorted_encode rest c
    | some x => exact (sorted_encode rest c).insert

end Fields

namespace Shape

/-- Reading the value and writing what was read gives the second value. -/
def Reads (s : Shape) (v w : Value) : Prop := ∃ c : s.Carrier, s.decode v = .ok c ∧ s.encode c = w

def Fits (s : Shape) (v : Value) : Prop := ∃ c : s.Carrier, s.encode c = v

theorem Reads.fits {s : Shape} {v w : Value} : s.Reads v w → s.Fits w
  | ⟨c, _, h⟩ => ⟨c, h⟩

theorem not_reads_scalar {s : Shape} (ht : s.isTable) {x : Scalar} {w : Value} :
    ¬s.Reads (.scalar x) w := by
  rintro ⟨c, hc, _⟩
  cases s with
  | record | stringMap =>
    simp [decode, decodeStringMap, mismatch, Decoded.fail] at hc
  | boolean | integer | string | strings | stringSet | choice => cases ht

theorem Reads.unique {s : Shape} {v w u : Value} : s.Reads v w → s.Reads v u → w = u
  | ⟨_, hc, hw⟩, ⟨_, hd, hu⟩ => by
    obtain rfl := Except.ok.inj (hc.symm.trans hd)
    exact hw.symm.trans hu

end Shape

def Place.Reads : Option Place → (input output : Option Value) → Prop
  | none, _, output => output = none
  | some p, some v, output => ∃ w, p.shape.Reads v w ∧ output = some w
  | some p, none, output => p.optional = true ∧ output = none

theorem Place.Reads.unique {p : Option Place} {v w u : Option Value} (hw : Place.Reads p v w)
    (hu : Place.Reads p v u) : w = u := by
  match p, v with
  | none, _ => exact Eq.trans hw (Eq.symm hu)
  | some p, none => exact hw.2.trans hu.2.symm
  | some p, some v =>
    obtain ⟨w, hw, rfl⟩ := hw
    obtain ⟨u, hu, rfl⟩ := hu
    rw [hw.unique hu]

namespace Fields

theorem decodeTable_required {name : String} {shape : Shape} {rest : Fields} {m : Table}
    {c : (required name shape rest).Carrier} :
    (required name shape rest).decodeTable m = .ok c ↔
      (∃ v, Entries.lookup name m = some v ∧ shape.decode v = .ok c.1) ∧
        rest.decodeTable m = .ok c.2 := by
  obtain ⟨x, c⟩ := c
  simp only [decodeTable]
  cases Entries.lookup name m with
  | none => simp [Decoded.fail]
  | some v =>
    cases hv : shape.decode v with
    | error e => simp [hv, Decoded.within, bind, Except.bind]
    | ok y =>
      cases rest.decodeTable m with
      | error e => simp [hv, Decoded.within, bind, Except.bind]
      | ok d => simp [hv, Decoded.within, bind, Except.bind, pure, Except.pure]

theorem decodeTable_optional {name : String} {shape : Shape} {rest : Fields} {m : Table}
    {c : (optional name shape rest).Carrier} :
    (optional name shape rest).decodeTable m = .ok c ↔
      (match Entries.lookup name m with
        | some v => ∃ x, shape.decode v = .ok x ∧ c.1 = some x
        | none => c.1 = none) ∧
        rest.decodeTable m = .ok c.2 := by
  obtain ⟨x, c⟩ := c
  simp only [decodeTable]
  cases Entries.lookup name m with
  | none =>
    cases rest.decodeTable m with
    | error e => simp [bind, Except.bind]
    | ok d => simp [bind, Except.bind, pure, Except.pure, eq_comm]
  | some v =>
    cases hv : shape.decode v with
    | error e => simp [hv, Decoded.within, bind, Except.bind]
    | ok y =>
      cases rest.decodeTable m with
      | error e => simp [hv, Decoded.within, bind, Except.bind]
      | ok d => simp [hv, Decoded.within, bind, Except.bind, pure, Except.pure, eq_comm]

theorem reads_get? {fields : Fields} {m : Table} {c : fields.Carrier}
    (h : fields.decodeTable m = .ok c) (key : String) :
    Place.Reads (fields.find? key) (Entries.lookup key m) (fields.get? key c) := by
  cases fields with
  | nil => rfl
  | required name shape rest =>
    obtain ⟨⟨v, hl, hv⟩, hrest⟩ := decodeTable_required.1 h
    simp only [find?, get?]
    split
    · rename_i eq
      rw [← eq, hl]
      exact ⟨_, ⟨c.1, hv, rfl⟩, rfl⟩
    · exact reads_get? hrest key
  | optional name shape rest =>
    obtain ⟨hfield, hrest⟩ := decodeTable_optional.1 h
    simp only [find?, get?]
    split
    · rename_i eq
      rw [← eq]
      split at hfield
      · rename_i v hl
        obtain ⟨x, hv, hx⟩ := hfield
        rw [hl, hx]
        exact ⟨_, ⟨x, hv, rfl⟩, rfl⟩
      · rename_i hl
        rw [hl, hfield]
        exact ⟨rfl, rfl⟩
    · exact reads_get? hrest key

theorem ne_of_mem_names {name key : String} {rest : Fields} (h : name ∉ rest.names)
    (hk : key ∈ rest.names) : name ≠ key :=
  fun eq => h (eq ▸ hk)

theorem exists_decodeTable {fields : Fields} (hr : fields.regular) {m : Table}
    (h : ∀ key ∈ fields.names, ∃ out, Place.Reads (fields.find? key) (Entries.lookup key m) out) :
    ∃ c, fields.decodeTable m = .ok c := by
  cases fields with
  | nil => exact ⟨(), rfl⟩
  | required name shape rest =>
    simp only [regular, Bool.and_eq_true, decide_eq_true_eq] at hr
    obtain ⟨d, hd⟩ := exists_decodeTable (m := m) hr.2 fun key hk => by
      obtain ⟨out, hout⟩ := h key (List.mem_cons_of_mem _ hk)
      rw [find?, if_neg (ne_of_mem_names hr.1.1 hk)] at hout
      exact ⟨out, hout⟩
    obtain ⟨out, hout⟩ := h name List.mem_cons_self
    rw [find?, if_pos rfl] at hout
    cases hl : Entries.lookup name m with
    | none =>
      rw [hl] at hout
      exact absurd hout.1 (by simp)
    | some v =>
      rw [hl] at hout
      obtain ⟨w, ⟨x, hx, _⟩, _⟩ := hout
      exact ⟨(x, d), decodeTable_required.2 ⟨⟨v, hl, hx⟩, hd⟩⟩
  | optional name shape rest =>
    simp only [regular, Bool.and_eq_true, decide_eq_true_eq] at hr
    obtain ⟨d, hd⟩ := exists_decodeTable (m := m) hr.2 fun key hk => by
      obtain ⟨out, hout⟩ := h key (List.mem_cons_of_mem _ hk)
      rw [find?, if_neg (ne_of_mem_names hr.1.1.1 hk)] at hout
      exact ⟨out, hout⟩
    obtain ⟨out, hout⟩ := h name List.mem_cons_self
    rw [find?, if_pos rfl] at hout
    cases hl : Entries.lookup name m with
    | none => exact ⟨(none, d), decodeTable_optional.2 ⟨by rw [hl], hd⟩⟩
    | some v =>
      rw [hl] at hout
      obtain ⟨w, ⟨x, hx, _⟩, _⟩ := hout
      exact ⟨(some x, d), decodeTable_optional.2 ⟨by rw [hl]; exact ⟨x, hx, rfl⟩, hd⟩⟩

theorem entryError?_eq_none {fields : Fields} {m : Table} {c : fields.Carrier}
    (h : fields.decodeTable m = .ok c) {key : String} {v : Value}
    (hl : Entries.lookup key m = some v) : fields.entryError? key v = none := by
  cases fields with
  | nil => rfl
  | required name shape rest =>
    obtain ⟨⟨u, hu, hx⟩, hrest⟩ := decodeTable_required.1 h
    simp only [entryError?]
    split
    · rename_i eq
      obtain rfl := Option.some.inj (hu.symm.trans (eq ▸ hl))
      rw [hx]
      rfl
    · exact entryError?_eq_none hrest hl
  | optional name shape rest =>
    obtain ⟨hfield, hrest⟩ := decodeTable_optional.1 h
    simp only [entryError?]
    split
    · rename_i eq
      rw [eq, hl] at hfield
      obtain ⟨x, hx, _⟩ := hfield
      rw [hx]
      rfl
    · exact entryError?_eq_none hrest hl

end Fields

namespace Shape

theorem decode_record {name : String} {fields : Fields} {m : Table} (hm : Entries.Sorted m)
    {c : fields.Carrier} :
    (record name fields).decode (.table m) = .ok c ↔ fields.decodeTable m = .ok c := by
  rw [decode]
  constructor
  · intro h
    split at h
    · simp at h
    · exact h
  · intro h
    have none : (m.findSome? fun e => fields.entryError? e.1 e.2) = none := by
      rw [List.findSome?_eq_none_iff]
      intro e he
      exact Fields.entryError?_eq_none h (hm.lookup_eq_some_iff.2 he)
    rw [none]
    exact h

end Shape

mutual

theorem Shape.decode_encode {s : Shape} (hr : s.regular) (c : s.Carrier) :
    s.decode (s.encode c) = .ok c := by
  cases s with
  | boolean | string => rfl
  | integer w => simp [Shape.decode, Shape.encode, decodeInteger]
  | strings => exact decodeStrings_strings c
  | stringSet => simp only [Shape.decode, Shape.encode, decodeStrings_strings, Except.map, StringSet.ofList_toList]
  | stringMap => exact decodeStringMap_map c
  | choice names =>
    obtain ⟨name, h⟩ := c
    simp [Shape.decode, Shape.encode, decodeChoice, chosen, h]
  | record name fields =>
    rw [Shape.encode, Shape.decode_record (Fields.sorted_encode fields c)]
    exact Fields.decodeTable_of_lookup hr fun key _ => Fields.lookup_encode hr key c

theorem Fields.decodeTable_of_lookup {fields : Fields} (hr : fields.regular) {c : fields.Carrier}
    {t : Table} (h : ∀ key ∈ fields.names, Entries.lookup key t = fields.get? key c) :
    fields.decodeTable t = .ok c := by
  cases fields with
  | nil => rfl
  | required name shape rest =>
    simp only [Fields.regular, Bool.and_eq_true, decide_eq_true_eq] at hr
    refine Fields.decodeTable_required.2 ⟨⟨shape.encode c.1, ?_, ?_⟩, ?_⟩
    · rw [h name List.mem_cons_self, Fields.get?, if_pos rfl]
    · exact Shape.decode_encode hr.1.2 c.1
    · apply Fields.decodeTable_of_lookup hr.2
      intro key hk
      rw [h key (List.mem_cons_of_mem _ hk), Fields.get?,
        if_neg (Fields.ne_of_mem_names hr.1.1 hk)]
  | optional name shape rest =>
    simp only [Fields.regular, Bool.and_eq_true, decide_eq_true_eq] at hr
    refine Fields.decodeTable_optional.2 ⟨?_, ?_⟩
    · rw [h name List.mem_cons_self, Fields.get?, if_pos rfl]
      cases hx : c.1 with
      | none => rfl
      | some x => exact ⟨x, Shape.decode_encode hr.1.2 x, rfl⟩
    · apply Fields.decodeTable_of_lookup hr.2
      intro key hk
      rw [h key (List.mem_cons_of_mem _ hk), Fields.get?,
        if_neg (Fields.ne_of_mem_names hr.1.1.1 hk)]

end

namespace Shape

variable {s : Shape} {m : Table}

theorem Reads.table (ht : s.isTable) (hr : s.regular) (hm : Entries.Sorted m) {w : Value}
    (h : s.Reads (.table m) w) :
    ∃ t, w = .table t ∧ Entries.Sorted t ∧
      ∀ key, Place.Reads (s.place? key) (Entries.lookup key m) (Entries.lookup key t) := by
  obtain ⟨c, hc, rfl⟩ := h
  cases s with
  | boolean | integer | string | strings | stringSet | choice => simp [isTable] at ht
  | record name fields =>
    refine ⟨fields.encode c, rfl, Fields.sorted_encode fields c, fun key => ?_⟩
    rw [Fields.lookup_encode hr]
    exact Fields.reads_get? ((decode_record hm).1 hc) key
  | stringMap =>
    refine ⟨StringMap.table c, rfl, StringMap.sorted_table c, fun key => ?_⟩
    have hc : (m.mapM decodeEntry).map StringMap.ofList = .ok c := hc
    cases hs : m.mapM decodeEntry with
    | error e => simp [hs, Except.map] at hc
    | ok ds =>
      rw [hs] at hc
      obtain rfl := Except.ok.inj hc
      have keys : Entries.Sorted ds := by
        rw [Entries.Sorted, ← List.pairwise_map (f := Prod.fst), keys_mapM_decodeEntry hs]
        exact List.pairwise_map.2 hm
      have read := lookup_mapM_decodeEntry hs key
      rw [StringMap.lookup_table]
      simp only [StringMap.ofList, ofList_of_sorted keys]
      cases hl : Entries.lookup key m with
      | none =>
        rw [hl] at read
        rw [read]
        exact ⟨rfl, rfl⟩
      | some v =>
        rw [hl] at read
        obtain ⟨text, hv, hd⟩ := read
        rw [hd]
        exact ⟨_, ⟨text, hv, rfl⟩, rfl⟩

theorem exists_reads (ht : s.isTable) (hr : s.regular) (hm : Entries.Sorted m)
    (h : ∀ key, ∃ out, Place.Reads (s.place? key) (Entries.lookup key m) out) :
    ∃ w, s.Reads (.table m) w := by
  cases s with
  | boolean | integer | string | strings | stringSet | choice => simp [isTable] at ht
  | record name fields =>
    obtain ⟨c, hc⟩ := Fields.exists_decodeTable hr fun key _ => h key
    exact ⟨_, c, (decode_record hm).2 hc, rfl⟩
  | stringMap =>
    have entries : ∀ e ∈ m, ∃ text, decodeString e.2 = .ok text := by
      intro e he
      obtain ⟨out, hout⟩ := h e.1
      rw [hm.lookup_eq_some_iff.2 he] at hout
      obtain ⟨_, ⟨text, htext, _⟩, _⟩ := hout
      exact ⟨text, htext⟩
    obtain ⟨ds, hds⟩ := exists_mapM_decodeEntry entries
    refine ⟨_, StringMap.ofList ds, ?_, rfl⟩
    simp [decode, decodeStringMap_table, hds, Except.map]

theorem reads_table_iff (ht : s.isTable) (hr : s.regular) (hm : Entries.Sorted m) {w : Value} :
    s.Reads (.table m) w ↔
      ∃ t, w = .table t ∧ Entries.Sorted t ∧
        ∀ key, Place.Reads (s.place? key) (Entries.lookup key m) (Entries.lookup key t) := by
  refine ⟨Reads.table ht hr hm, ?_⟩
  rintro ⟨t, rfl, sorted, hkey⟩
  obtain ⟨w, hw⟩ := exists_reads ht hr hm fun key => ⟨_, hkey key⟩
  obtain ⟨u, rfl, hu, read⟩ := hw.table ht hr hm
  have eq : u = t := hu.ext sorted fun key => (read key).unique (hkey key)
  rw [← eq]
  exact hw

theorem fits_iff_reads (hr : s.regular) {v : Value} : s.Fits v ↔ s.Reads v v := by
  refine ⟨?_, Reads.fits⟩
  rintro ⟨c, rfl⟩
  exact ⟨c, decode_encode hr c, rfl⟩

theorem Fits.table (ht : s.isTable) {v : Value} (h : s.Fits v) :
    ∃ t, v = .table t ∧ Entries.Sorted t := by
  obtain ⟨c, rfl⟩ := h
  cases s with
  | boolean | integer | string | strings | stringSet | choice => simp [isTable] at ht
  | record name fields => exact ⟨_, rfl, Fields.sorted_encode fields c⟩
  | stringMap => exact ⟨_, rfl, StringMap.sorted_table c⟩

theorem Fits.sorted (ht : s.isTable) (h : s.Fits (.table m)) : Entries.Sorted m := by
  obtain ⟨t, eq, ht⟩ := h.table ht
  obtain rfl := Value.table.inj eq
  exact ht

end Shape

def Place.Fits : Option Place → Option Value → Prop
  | none, v => v = none
  | some p, some v => p.shape.Fits v
  | some p, none => p.optional = true

namespace Shape

variable {s : Shape} {t : Table}

theorem regular_of_place? (hr : s.regular) {key : String} {p : Place} (h : s.place? key = some p) :
    p.shape.regular := by
  cases s with
  | boolean | integer | string | strings | stringSet | choice => simp [place?] at h
  | record name fields => exact Fields.regular_of_find? hr h
  | stringMap =>
    obtain rfl := Option.some.inj h
    rfl

theorem place_reads_self (hr : s.regular) {key : String} {v : Option Value} :
    Place.Reads (s.place? key) v v ↔ Place.Fits (s.place? key) v := by
  cases hp : s.place? key with
  | none => rfl
  | some p =>
    cases v with
    | none => simp [Place.Reads, Place.Fits]
    | some v =>
      rw [Place.Fits, fits_iff_reads (regular_of_place? hr hp)]
      simp [Place.Reads]

theorem fits_table_iff (ht : s.isTable) (hr : s.regular) :
    s.Fits (.table t) ↔
      Entries.Sorted t ∧ ∀ key, Place.Fits (s.place? key) (Entries.lookup key t) := by
  constructor
  · intro h
    have sorted := h.sorted ht
    obtain ⟨u, eq, _, read⟩ := (reads_table_iff ht hr sorted).1 ((fits_iff_reads hr).1 h)
    obtain rfl := Value.table.inj eq
    exact ⟨sorted, fun key => (place_reads_self hr).1 (read key)⟩
  · rintro ⟨sorted, h⟩
    rw [fits_iff_reads hr, reads_table_iff ht hr sorted]
    exact ⟨t, rfl, sorted, fun key => (place_reads_self hr).2 (h key)⟩

end Shape

end DottedPatch.Config
