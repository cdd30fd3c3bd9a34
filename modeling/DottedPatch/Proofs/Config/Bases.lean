import DottedPatch.Config.UnknownKeys
import DottedPatch.Proofs.Config.Places
import DottedPatch.Proofs.Except
import DottedPatch.Proofs.Toml.PathEdits

namespace DottedPatch.Config

open Toml

/-- What a strict base may hold at a place: a table of what the fields accept, or a value that is
read as a whole, like a record written as an array. -/
inductive Shape.Accepts : Shape → Value → Prop
  | table {name : String} {fields : Fields} {u : Table} : Entries.Sorted u →
      (∀ key v, Entries.lookup key u = some v → (fields.find? key).isSome) →
      (∀ key v p, Entries.lookup key u = some v → fields.find? key = some p → Accepts p.shape v) →
      Accepts (.record name fields) (.table u)
  | whole {s : Shape} {v w : Value} : (s.isRecord → v.table? = none) → s.Reads v w →
      s.undeclared v = [] → Accepts s v

mutual

def Shape.bare : Shape → Value → Bool
  | .record _ fields, .table t => fields.bare t
  | .stringMap, v => decide (v = .table [])
  | _, _ => true

def Fields.bare : Fields → Table → Bool
  | .nil, _ => true
  | .required name shape rest, t | .optional name shape rest, t =>
    (match Entries.lookup name t with
    | some v => shape.bare v
    | none => true) &&
      rest.bare t

end

theorem Fields.bare_of_find? {fields : Fields} {t : Table} (h : fields.bare t) {key : String}
    {p : Place} (hp : fields.find? key = some p) {v : Value} (hv : Entries.lookup key t = some v) :
    p.shape.bare v := by
  cases fields with
  | nil => simp [find?] at hp
  | required name shape rest | optional name shape rest =>
    simp only [bare, Bool.and_eq_true] at h
    simp only [find?] at hp
    split at hp
    · rename_i eq
      obtain rfl := Option.some.inj hp
      subst eq
      simpa [hv] using h.1
    · exact bare_of_find? h.2 hp hv

mutual

def Shape.mapless : (s : Shape) → s.Carrier → Bool
  | .record _ fields, c => fields.mapless c
  | .stringMap, m => decide (m.table = [])
  | .boolean, _ | .integer _, _ | .string, _ | .strings, _ | .stringSet, _ | .choice _, _ => true

def Fields.mapless : (fields : Fields) → fields.Carrier → Bool
  | .nil, _ => true
  | .required _ shape rest, c => shape.mapless c.1 && rest.mapless c.2
  | .optional _ shape rest, c =>
    (match c.1 with
    | some x => shape.mapless x
    | none => true) &&
      rest.mapless c.2

end

mutual

theorem Shape.bare_encode {s : Shape} (hr : s.regular) {c : s.Carrier} (h : s.mapless c) :
    s.bare (s.encode c) := by
  cases s with
  | record name fields =>
    exact Fields.bare_of_lookup hr h fun key _ => Fields.lookup_encode hr key c
  | stringMap => simpa [Shape.bare, Shape.encode, Shape.mapless] using h
  | boolean | integer | string | strings | stringSet | choice => rfl

theorem Fields.bare_of_lookup {fields : Fields} (hr : fields.regular) {c : fields.Carrier}
    (h : fields.mapless c) {t : Table}
    (hl : ∀ key ∈ fields.names, Entries.lookup key t = fields.get? key c) : fields.bare t := by
  cases fields with
  | nil => rfl
  | required name shape rest =>
    simp only [Fields.regular, Bool.and_eq_true, decide_eq_true_eq] at hr
    simp only [Fields.mapless, Bool.and_eq_true] at h
    have here := hl name List.mem_cons_self
    have beyond : rest.bare t := Fields.bare_of_lookup hr.2 h.2 fun key hk => by
      rw [hl key (List.mem_cons_of_mem _ hk), Fields.get?, if_neg (Fields.ne_of_mem_names hr.1.1 hk)]
    rw [Fields.get?, if_pos rfl] at here
    simp [Fields.bare, here, beyond, Shape.bare_encode hr.1.2 h.1]
  | optional name shape rest =>
    simp only [Fields.regular, Bool.and_eq_true, decide_eq_true_eq] at hr
    obtain ⟨x, c⟩ := c
    simp only [Fields.mapless, Bool.and_eq_true] at h
    have here := hl name List.mem_cons_self
    have beyond : rest.bare t := Fields.bare_of_lookup hr.2 h.2 fun key hk => by
      rw [hl key (List.mem_cons_of_mem _ hk), Fields.get?, if_neg (Fields.ne_of_mem_names hr.1.1.1 hk)]
    rw [Fields.get?, if_pos rfl] at here
    cases x with
    | none => simp [Fields.bare, here, beyond]
    | some x => simp [Fields.bare, here, beyond, Shape.bare_encode hr.1.2 h.1]

end

structure Shape.Beneath (s : Shape) (lower : Option Value) : Prop where
  fits : ∀ l, lower = some l → s.Fits l
  bare : ∀ l, lower = some l → s.bare l
  present : s.isRecord → lower ≠ none

namespace Shape.Beneath

theorem table {name : String} {fields : Fields} {lower : Option Value}
    (h : (record name fields).Beneath lower) :
    ∃ l, lower = some (.table l) ∧ (record name fields).Fits (.table l) ∧ fields.bare l := by
  cases lower with
  | none => exact absurd rfl (h.present rfl)
  | some v =>
    obtain ⟨l, rfl, _⟩ := (h.fits v rfl).table rfl
    exact ⟨l, rfl, h.fits _ rfl, h.bare _ rfl⟩

theorem find? {name : String} {fields : Fields} (hr : (record name fields).regular) {l : Table}
    (hl : (record name fields).Fits (.table l)) (hb : fields.bare l) {key : String} {p : Place}
    (hp : fields.find? key = some p) : p.shape.Beneath (Entries.lookup key l) where
  fits v hv := by
    have place := hl.place (s := record name fields) hr hp
    rw [hv] at place
    exact place
  bare v hv := Fields.bare_of_find? hb hp hv
  present isRecord absent := by
    have place := hl.place (s := record name fields) hr hp
    rw [absent] at place
    have required := required_of_place? (s := record name fields) hr hp isRecord
    simp [Place.Fits, required] at place

theorem cover_of_whole {s : Shape} {lower : Option Value} (h : s.Beneath lower) {v : Value}
    (ho : v.Ordered) (hv : s.isRecord → v.table? = none) : Table.cover lower v = v := by
  cases hvt : v.table? with
  | none => exact Table.cover_of_not_table hvt lower
  | some u =>
    obtain rfl := Value.table?_eq_some.1 hvt
    cases lower with
    | none => exact Table.cover_none _
    | some l =>
      have fits := h.fits l rfl
      cases s with
      | record name fields => simp [isRecord, Value.table?] at hv
      | stringMap =>
        obtain rfl : l = .table [] := of_decide_eq_true (h.bare l rfl)
        have sorted : Entries.Sorted u := Table.Ordered.sorted ho
        rw [Table.cover, show ([] : Table) = Table.empty from rfl, Table.merge_empty sorted]
      | boolean | integer | string | strings | stringSet | choice =>
        obtain ⟨c, rfl⟩ := fits
        rfl

end Shape.Beneath

namespace Fields

theorem undeclaredEntry_eq_nil {fields : Fields} {key : String} {v : Value} :
    fields.undeclaredEntry key v = [] ↔ ∃ p, fields.find? key = some p ∧ p.shape.undeclared v = [] := by
  cases fields with
  | nil => simp [undeclaredEntry, find?]
  | required name shape rest | optional name shape rest =>
    simp only [undeclaredEntry, find?]
    split
    · simp
    · exact undeclaredEntry_eq_nil

end Fields

namespace Shape

theorem undeclared_table {name : String} {fields : Fields} {t : Table} (ht : Entries.Sorted t) :
    (record name fields).undeclared (.table t) = [] ↔
      ∀ key v, Entries.lookup key t = some v →
        ∃ p, fields.find? key = some p ∧ p.shape.undeclared v = [] := by
  rw [undeclared, List.flatMap_eq_nil_iff]
  constructor
  · intro h key v hv
    exact Fields.undeclaredEntry_eq_nil.1 (h _ (Entries.mem_of_lookup hv))
  · intro h e he
    exact Fields.undeclaredEntry_eq_nil.2 (h e.1 e.2 (ht.lookup_eq_some_iff.2 he))

theorem undeclared_of_fits {s : Shape} (hr : s.regular) {v : Value} (h : s.Fits v) :
    s.undeclared v = [] := by
  have ho := h.ordered
  induction ho generalizing s with
  | scalar => cases s <;> rfl
  | array =>
    cases s with
    | record name fields =>
      obtain ⟨t, eq, _⟩ := h.table rfl
      cases eq
    | boolean | integer | string | strings | stringSet | stringMap | choice => rfl
  | table sorted _ ih =>
    cases s with
    | boolean | integer | string | strings | stringSet | stringMap | choice => rfl
    | record name fields =>
      refine (undeclared_table sorted).2 fun key v hv => ?_
      obtain ⟨p, hp, fits⟩ := h.place_of_lookup hr hv
      exact ⟨p, hp, ih _ (Entries.mem_of_lookup hv) (regular_of_place? hr hp) fits⟩

theorem accepts_of_reads {s : Shape} (hr : s.regular) {lower : Option Value} (hl : s.Beneath lower)
    {v w : Value} (hv : v.Ordered) (h : s.Reads (Table.cover lower v) w)
    (hu : s.undeclared (Table.cover lower v) = []) : s.Accepts v := by
  induction hv generalizing s lower w with
  | scalar x =>
    rw [Table.cover_of_not_table rfl] at h hu
    exact .whole (fun _ => rfl) h hu
  | array =>
    rw [Table.cover_of_not_table rfl] at h hu
    exact .whole (fun _ => rfl) h hu
  | @table u sorted hentries ih =>
    by_cases record : s.isRecord = true
    · cases s with
      | boolean | integer | string | strings | stringSet | stringMap | choice =>
        simp [isRecord] at record
      | record name fields =>
        obtain ⟨l, rfl, fits, bare⟩ := hl.table
        rw [Table.cover] at h hu
        have merged : Entries.Sorted (Table.merge l u) := Table.sorted_merge (fits.sorted rfl)
        obtain ⟨t, rfl, _, hkey⟩ := h.table rfl hr merged
        have declared := (undeclared_table merged).1 hu
        have covered {key : String} {x : Value} (hx : Entries.lookup key u = some x) :
            Entries.lookup key (Table.merge l u) =
              some (Table.cover (Entries.lookup key l) x) := by
          rw [Table.lookup_merge sorted, hx]
        refine .table sorted (fun key x hx => ?_) fun key x p hx hp => ?_
        · obtain ⟨p, hp, _⟩ := declared key _ (covered hx)
          rw [hp]
          rfl
        · obtain ⟨q, hq, hundeclared⟩ := declared key _ (covered hx)
          obtain rfl := Option.some.inj (hp.symm.trans hq)
          have read := hkey key
          rw [covered hx, show (Shape.record name fields).place? key = some p from hp] at read
          obtain ⟨y, hy, _⟩ := read
          exact ih _ (Entries.mem_of_lookup hx) (Fields.regular_of_find? hr hp)
            (Beneath.find? hr fits bare hp) hy hundeclared
    · have whole : s.isRecord → (Value.table u).table? = none := fun h => absurd h record
      rw [hl.cover_of_whole (.table sorted hentries) whole] at h hu
      exact .whole whole h hu

theorem Accepts.reads {s : Shape} {v : Value} (h : s.Accepts v) (hr : s.regular)
    {lower : Option Value} (hl : s.Beneath lower) (hv : v.Ordered) :
    (∃ w, s.Reads (Table.cover lower v) w) ∧ s.undeclared (Table.cover lower v) = [] := by
  induction h generalizing lower with
  | whole whole reads undeclared =>
    rw [hl.cover_of_whole hv whole]
    exact ⟨⟨_, reads⟩, undeclared⟩
  | @table name fields u sorted declared _ ih =>
    obtain ⟨l, rfl, fits, bare⟩ := hl.table
    rw [Table.cover]
    have merged : Entries.Sorted (Table.merge l u) := Table.sorted_merge (fits.sorted rfl)
    obtain ⟨_, lower⟩ := (fits_table_iff rfl hr).1 fits
    constructor
    · refine exists_reads rfl hr merged fun key => ?_
      rw [Table.lookup_merge sorted]
      cases hx : Entries.lookup key u with
      | none => exact ⟨_, (place_reads_self hr).2 (lower key)⟩
      | some x =>
        obtain ⟨p, hp⟩ := Option.isSome_iff_exists.1 (declared key x hx)
        obtain ⟨⟨w, hw⟩, _⟩ := ih key x p hx hp (Fields.regular_of_find? hr hp)
          (Beneath.find? hr fits bare hp) (Table.Ordered.of_lookup hv hx)
        rw [show (Shape.record name fields).place? key = some p from hp]
        exact ⟨_, w, hw, rfl⟩
    · refine (undeclared_table merged).2 fun key y hy => ?_
      rw [Table.lookup_merge sorted] at hy
      cases hx : Entries.lookup key u with
      | none =>
        rw [hx] at hy
        obtain ⟨p, hp, fitsAt⟩ := fits.place_of_lookup hr hy
        exact ⟨p, hp, undeclared_of_fits (regular_of_place? (s := record name fields) hr hp) fitsAt⟩
      | some x =>
        rw [hx] at hy
        obtain rfl := Option.some.inj hy
        obtain ⟨p, hp⟩ := Option.isSome_iff_exists.1 (declared key x hx)
        exact ⟨p, hp, (ih key x p hx hp (Fields.regular_of_find? hr hp)
          (Beneath.find? hr fits bare hp) (Table.Ordered.of_lookup hv hx)).2⟩

theorem accepts_table_iff {name : String} {fields : Fields} {u : Table} :
    (record name fields).Accepts (.table u) ↔
      Entries.Sorted u ∧ ∀ key v, Entries.lookup key u = some v →
        ∃ p, fields.find? key = some p ∧ p.shape.Accepts v := by
  constructor
  · intro h
    cases h with
    | table sorted declared entries =>
      refine ⟨sorted, fun key v hv => ?_⟩
      obtain ⟨p, hp⟩ := Option.isSome_iff_exists.1 (declared key v hv)
      exact ⟨p, hp, entries key v p hv hp⟩
    | whole whole => simp [isRecord, Value.table?] at whole
  · rintro ⟨sorted, h⟩
    refine .table sorted (fun key v hv => ?_) fun key v p hv hp => ?_
    · obtain ⟨p, hp, _⟩ := h key v hv
      rw [hp]
      rfl
    · obtain ⟨q, hq, accepts⟩ := h key v hv
      obtain rfl := Option.some.inj (hp.symm.trans hq)
      exact accepts

theorem accepts_of_fits {s : Shape} (hr : s.regular) {v : Value} (h : s.Fits v) : s.Accepts v := by
  have ho := h.ordered
  induction ho generalizing s with
  | scalar | array => exact .whole (fun _ => rfl) ((fits_iff_reads hr).1 h) (undeclared_of_fits hr h)
  | table sorted _ ih =>
    cases s with
    | record name fields =>
      refine accepts_table_iff.2 ⟨sorted, fun key v hv => ?_⟩
      obtain ⟨p, hp, fits⟩ := h.place_of_lookup hr hv
      exact ⟨p, hp, ih _ (Entries.mem_of_lookup hv) (regular_of_place? hr hp) fits⟩
    | _ =>
      exact .whole (fun record => nomatch record) ((fits_iff_reads hr).1 h) (undeclared_of_fits hr h)

namespace Accepts

variable {name : String} {fields : Fields} {u : Table}

theorem empty : (record name fields).Accepts (.table Table.empty) :=
  accepts_table_iff.2 ⟨.nil, fun _ _ h => by cases h⟩

theorem insert (h : (record name fields).Accepts (.table u)) {key : String} {p : Place} {v : Value}
    (hp : fields.find? key = some p) (hv : p.shape.Accepts v) :
    (record name fields).Accepts (.table (Entries.insert key v u)) := by
  obtain ⟨sorted, entries⟩ := accepts_table_iff.1 h
  refine accepts_table_iff.2 ⟨sorted.insert, fun other w hw => ?_⟩
  rw [Entries.lookup_insert] at hw
  split at hw
  · rename_i eq
    obtain rfl := Option.some.inj hw
    exact ⟨p, eq ▸ hp, hv⟩
  · exact entries other w hw

theorem under (h : (record name fields).Accepts (.table u)) {key : String} {optional : Bool}
    {inner : String} {sub : Fields} (hp : fields.find? key = some ⟨optional, .record inner sub⟩) :
    (record inner sub).Accepts (.table (Table.below key u)) := by
  cases hl : (Entries.lookup key u).bind Value.table? with
  | none =>
    rw [Table.below_of_not_table hl]
    exact empty
  | some w =>
    obtain ⟨v, hv, hvt⟩ := Option.bind_eq_some_iff.1 hl
    obtain rfl := Value.table?_eq_some.1 hvt
    rw [Table.below_of_table hv]
    obtain ⟨q, hq, accepts⟩ := (accepts_table_iff.1 h).2 key _ hv
    obtain rfl := Option.some.inj (hp.symm.trans hq)
    exact accepts

theorem insertPath (h : (record name fields).Accepts (.table u)) {path : List String} {p : Place}
    (hp : fields.leaf? path = some p) {v : Value} (hv : p.shape.Accepts v) :
    (record name fields).Accepts (.table (Table.insertPath v path u)) := by
  induction path generalizing name fields u with
  | nil => simp [Fields.leaf?] at hp
  | cons key rest ih =>
    by_cases hrest : rest = []
    · subst hrest
      exact h.insert hp hv
    · obtain ⟨_, _, _, hf, hp⟩ := (Fields.leaf?_cons hrest).1 hp
      rw [Table.insertPath_cons hrest]
      exact h.insert hf (ih (h.under hf) hp)

theorem erasePath (h : (record name fields).Accepts (.table u)) {path : List String} {p : Place}
    (hp : fields.leaf? path = some p) :
    (record name fields).Accepts (.table (Table.erasePath path u)) := by
  induction path generalizing name fields u with
  | nil => exact h
  | cons key rest ih =>
    by_cases hrest : rest = []
    · subst hrest
      obtain ⟨sorted, entries⟩ := accepts_table_iff.1 h
      refine accepts_table_iff.2 ⟨sorted.erase, fun other w hw => ?_⟩
      have hw : Entries.lookup other (Entries.erase key u) = some w := hw
      rw [Entries.lookup_erase] at hw
      split at hw
      · cases hw
      · exact entries other w hw
    · obtain ⟨_, _, _, hf, hp⟩ := (Fields.leaf?_cons hrest).1 hp
      rw [Table.erasePath_cons hrest]
      split
      · rename_i sub hsub
        refine h.insert hf ?_
        have accepts := h.under hf
        rw [Table.below, hsub] at accepts
        exact ih accepts hp
      · exact h

theorem setPaths (h : (record name fields).Accepts (.table u))
    {value : List String → Option Value} {paths : List (List String)}
    (hp : ∀ path ∈ paths, ∃ p, fields.leaf? path = some p ∧
      ∀ v, value path = some v → p.shape.Accepts v) :
    (record name fields).Accepts (.table (Table.setPaths value paths u)) := by
  induction paths generalizing u with
  | nil => exact h
  | cons path paths ih =>
    obtain ⟨p, hleaf, hv⟩ := hp path List.mem_cons_self
    have set : (record name fields).Accepts (.table (Table.setPath path (value path) u)) := by
      cases hvalue : value path with
      | none => exact h.erasePath hleaf
      | some v => exact h.insertPath hleaf (hv v hvalue)
    exact ih set fun path hmem => hp path (List.mem_cons_of_mem _ hmem)

end Accepts

end Shape

section

variable {s : Shape} (hr : s.regular) {lower upper t : Table} (hl : s.Fits (.table lower))
  (hu : upper.Ordered) (h : s.Reads (.table (Table.merge lower upper)) (.table t))
  {path : List String} {p : Place} (hp : s.at? path = some p)

include hr hl hu h hp

theorem lookupPath_of_set {v : Value} (hv : Table.lookupPath path upper = some v) :
    ∃ w, p.shape.Reads (Table.cover (Table.lookupPath path lower) v) w ∧
      Table.lookupPath path t = some w := by
  have ordered : Table.Ordered lower := hl.ordered
  exact h.lookupPath hr (ordered.merge hu) hp (Table.lookupPath_merge_of_some hu hv)

theorem lookupPath_of_unset (hv : Table.lookupPath path upper = none)
    (hb : Table.blocked path upper = false) :
    Table.lookupPath path t = Table.lookupPath path lower := by
  have ordered : Table.Ordered lower := hl.ordered
  have merged : Table.lookupPath path (Table.merge lower upper) = Table.lookupPath path lower :=
    Table.lookupPath_merge_of_none hu hv hb
  cases hlower : Table.lookupPath path lower with
  | none =>
    rw [hlower] at merged
    exact h.lookupPath_none hr (ordered.merge hu) hp
      (Table.blocked_merge hu (hl.not_blocked hr hp) hb) merged
  | some v =>
    rw [hlower] at merged
    obtain ⟨w, hw, hlookup⟩ := h.lookupPath hr (ordered.merge hu) hp merged
    have fits := hl.of_lookupPath hr hp hlower
    rw [hlookup, hw.unique ((Shape.fits_iff_reads (Shape.regular_of_at? hr hp)).1 fits)]

end

section

variable {α : Type} [Shaped α] [Inhabited α] {text file : String}

theorem readBase_eq_ok_iff {c : α} {lower upper : Table} (hlower : toTable (default : α) = .ok lower)
    (hupper : Table.read? text = some upper) :
    readBase text file true = .ok c ↔
      (Shaped.shape α).decode (.table (Table.merge lower upper)) = .ok (Shaped.toCarrier c) ∧
        (Shaped.shape α).undeclared (.table (Table.merge lower upper)) = [] := by
  have initial : toTable (Configuration.initial : α) = .ok lower := hlower
  simp only [readBase, hupper, initial, bind, Except.bind, readStrictly]
  rw [show Configuration.decode (α := α) (.table (Table.merge lower upper)) =
    ((Shaped.shape α).decode (.table (Table.merge lower upper))).map Shaped.ofCarrier from rfl,
    show Configuration.undeclared α (.table (Table.merge lower upper)) =
      (Shaped.shape α).undeclared (.table (Table.merge lower upper)) from rfl]
  cases (Shaped.shape α).decode (.table (Table.merge lower upper)) with
  | error e => simp [Except.map]
  | ok d =>
    have carrier : Shaped.ofCarrier d = c ↔ d = Shaped.toCarrier c := by
      constructor
      · rintro rfl
        exact (Shaped.toCarrier_ofCarrier d).symm
      · rintro rfl
        exact Shaped.ofCarrier_toCarrier c
    cases (Shaped.shape α).undeclared (.table (Table.merge lower upper)) with
    | nil => simp [Except.map, carrier]
    | cons path paths => simp [Except.map]

theorem exists_read?_of_readBase {c : α} (h : readBase text file true = .ok c) :
    ∃ upper, Table.read? text = some upper := by
  cases hupper : Table.read? text with
  | none => simp [readBase, hupper, throw, throwThe, MonadExceptOf.throw] at h
  | some upper => exact ⟨upper, rfl⟩

variable (hr : (Shaped.shape α).regular) {lower : Table} (hlower : toTable (default : α) = .ok lower)
  (hl : (Shaped.shape α).Beneath (some (.table lower))) {upper : Table}
  (hupper : Table.read? text = some upper) (hu : upper.Ordered)

include hr hlower hl hupper hu

theorem accepts_of_readBase {c : α} (h : readBase text file true = .ok c) :
    (Shaped.shape α).Accepts (.table upper) ∧
      ∃ t, toTable c = .ok t ∧
        (Shaped.shape α).Reads (.table (Table.merge lower upper)) (.table t) := by
  obtain ⟨hdecode, hundeclared⟩ := (readBase_eq_ok_iff hlower hupper).1 h
  have table := Shape.isTable_of_fits (hl.fits _ rfl)
  obtain ⟨t, ht⟩ := exists_toTable table c
  have reads : (Shaped.shape α).Reads (.table (Table.merge lower upper)) (.table t) :=
    ⟨_, hdecode, toTable_eq_ok_iff.1 ht⟩
  exact ⟨Shape.accepts_of_reads hr hl hu reads hundeclared, t, ht, reads⟩

variable (file) in
theorem readBase_of_accepts (h : (Shaped.shape α).Accepts (.table upper)) :
    ∃ (c : α) (t : Table), readBase text file true = .ok c ∧ toTable c = .ok t ∧
      (Shaped.shape α).Reads (.table (Table.merge lower upper)) (.table t) := by
  obtain ⟨⟨w, d, hd, _⟩, undeclared⟩ := h.reads hr hl hu
  have read : readBase text file true = .ok (Shaped.ofCarrier d : α) := by
    rw [readBase_eq_ok_iff hlower hupper, Shaped.toCarrier_ofCarrier]
    exact ⟨hd, undeclared⟩
  obtain ⟨_, t, ht, reads⟩ := accepts_of_readBase hr hlower hl hupper hu read
  exact ⟨_, t, read, ht, reads⟩

end

end DottedPatch.Config
