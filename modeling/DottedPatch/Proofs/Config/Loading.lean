import DottedPatch.Proofs.Config.Strays

namespace DottedPatch.Config

open Toml

def Fields.Readable (fields : Fields) (t : Table) : Prop :=
  ∀ q p, fields.leaf? q = some p → p.shape.isRecord = false →
    ∀ v, Table.lookupPath q t = some v → ∃ w, p.shape.Reads v w

theorem Fields.Readable.under {fields sub : Fields} {t u : Table} (h : fields.Readable t)
    {key : String} {optional : Bool} {name : String}
    (hf : fields.find? key = some ⟨optional, .record name sub⟩)
    (hu : Entries.lookup key t = some (.table u)) : sub.Readable u := by
  intro q p hp hrecord v hv
  have hq : q ≠ [] := IsLeaf.ne_nil ⟨p, hp, hrecord⟩
  refine h (key :: q) p ?_ hrecord v ((Table.lookupPath_cons_of_table hq hu).trans hv)
  exact (leaf?_cons hq).2 ⟨_, _, _, hf, hp⟩

section

variable {name : String} {fields : Fields} (hr : (Shape.record name fields).regular) {lower : Table}

include hr

theorem exists_reads_of_readable (hn : (Shape.record name fields).filled)
    (hl : (Shape.record name fields).Beneath (some (.table lower))) {upper : Table}
    (hu : upper.Ordered) (ho : fields.Open upper) (readable : fields.Readable upper) :
    ∃ w, (Shape.record name fields).Reads (.table (Table.merge lower upper)) w := by
  induction hu using Table.Ordered.induction generalizing name fields lower with
  | @table upper hu ih =>
    obtain ⟨_, eq, fits, bare⟩ := hl.table
    obtain rfl := Value.table.inj (Option.some.inj eq)
    have merged : Entries.Sorted (Table.merge lower upper) := Table.sorted_merge (fits.sorted rfl)
    refine Shape.exists_reads rfl hr merged fun key => ?_
    rw [Table.lookup_merge hu.sorted]
    cases hx : Entries.lookup key upper with
    | none => exact ⟨_, (Shape.place_reads_self hr).2 (((Shape.fits_table_iff rfl hr).1 fits).2 key)⟩
    | some x =>
      change ∃ out, Place.Reads (fields.find? key) (some (Table.cover (Entries.lookup key lower) x)) out
      cases hf : fields.find? key with
      | none => exact ⟨none, rfl⟩
      | some p =>
        have beneath := Shape.Beneath.find? hr fits bare hf
        obtain ⟨optional, shape⟩ := p
        cases shape with
        | record inner sub =>
          have filled : (Shape.record inner sub).filled := Shape.filled_of_find? hn hf
          obtain ⟨u, rfl, openBelow⟩ := ho.under hf (Fields.exists_isLeaf filled) hx
          obtain ⟨l, hlookup, -, -⟩ := beneath.table
          rw [hlookup] at beneath ⊢
          obtain ⟨w, hw⟩ := ih hx (Fields.regular_of_find? hr hf) filled beneath openBelow
            (readable.under hf hx)
          exact ⟨_, w, hw, rfl⟩
        | boolean | integer | string | strings | stringSet | stringMap | choice =>
          obtain ⟨w, hw⟩ := readable [key] _ hf rfl x hx
          rw [beneath.cover_of_whole (hu.of_lookup hx) fun record => nomatch record]
          exact ⟨_, w, hw, rfl⟩

theorem eq_of_reads_of_leaves (hl : (Shape.record name fields).Fits (.table lower))
    {upper upper' t t' : Table} (hu : upper.Ordered) (hu' : upper'.Ordered) (ho : fields.Open upper)
    (ho' : fields.Open upper')
    (h : (Shape.record name fields).Reads (.table (Table.merge lower upper)) (.table t))
    (h' : (Shape.record name fields).Reads (.table (Table.merge lower upper')) (.table t'))
    (same : ∀ q, fields.IsLeaf q → Table.lookupPath q upper' = Table.lookupPath q upper) : t' = t := by
  refine Shape.Fits.eq_of_leaves hr h'.fits h.fits fun q hq => ?_
  have here := same q hq
  cases hv : Table.lookupPath q upper with
  | some v =>
    rw [hv] at here
    exact lookupPath_of_same hr hl hu hu' h h' hq List.prefix_rfl hv here
  | none =>
    rw [hv] at here
    obtain ⟨p, hp, hrecord⟩ := hq
    have hat := Fields.at?_of_leaf? hp name
    rw [lookupPath_of_unset hr hl hu h hat hv (ho q ⟨p, hp, hrecord⟩),
      lookupPath_of_unset hr hl hu' h' hat here (ho' q ⟨p, hp, hrecord⟩)]

end

/-- Loads a base by its table. The text only tells on which lines the unknown keys are. -/
def loadTable {α : Type} [Configuration α] (t : Table) (text file : String) (strict : Bool) :
    Except Failure α := do
  readStrictly (.table (Table.merge (← toTable (Configuration.initial : α)) t)) text file strict

theorem readBase_eq_loadTable {α : Type} [Configuration α] {text : String} {t : Table}
    (h : Table.read? text = some t) (file : String) (strict : Bool) :
    (readBase text file strict : Except Failure α) = loadTable t text file strict := by
  simp only [readBase, h, loadTable]

section

variable {α : Type} [Shaped α] [Inhabited α] {lower : Table}
  (hlower : toTable (default : α) = .ok lower)

include hlower

theorem loadTable_of_decode {t : Table} {c : α}
    (hc : (Shaped.shape α).decode (.table (Table.merge lower t)) = .ok (Shaped.toCarrier c))
    (text file : String) (strict : Bool) :
    loadTable t text file strict =
      let strays := (Shaped.shape α).undeclared (.table (Table.merge lower t))
      if strict = false ∨ strays = [] then .ok c
      else .error (.unknownKeys
        (strays.map fun path => ⟨dotted path, file, keyLine text (dotted path)⟩)) := by
  have initial : toTable (Configuration.initial : α) = .ok lower := hlower
  have decoded : Configuration.decode (.table (Table.merge lower t)) = .ok c := by
    rw [show Configuration.decode (α := α) (.table (Table.merge lower t)) =
      ((Shaped.shape α).decode (.table (Table.merge lower t))).map Shaped.ofCarrier from rfl, hc]
    exact congrArg Except.ok (Shaped.ofCarrier_toCarrier c)
  simp only [loadTable, initial, bind, Except.bind, readStrictly, decoded]
  rw [show Configuration.undeclared α (.table (Table.merge lower t)) =
    (Shaped.shape α).undeclared (.table (Table.merge lower t)) from rfl]
  cases strict <;> cases (Shaped.shape α).undeclared (.table (Table.merge lower t)) <;> simp

variable {name : String} {fields : Fields} (hs : Shaped.shape α = .record name fields)
  (hr : (Shape.record name fields).regular) (hn : (Shape.record name fields).filled)
  (hl : (Shape.record name fields).Beneath (some (.table lower))) {upper : Table}
  (hu : upper.Ordered) (ho : fields.Open upper) (readable : fields.Readable upper)

include hs hr hn hl hu ho readable

theorem exists_loadTable : ∃ (c : α) (t : Table) (strays : List (List String)),
    toTable c = .ok t ∧ (Shape.record name fields).Reads (.table (Table.merge lower upper)) (.table t) ∧
      (∀ path, path ∈ strays ↔ Stray fields.IsLeaf upper path) ∧
      strays.Pairwise Before ∧
      ∀ text file strict, loadTable upper text file strict =
        if strict = false ∨ strays = [] then .ok c
        else .error (.unknownKeys
          (strays.map fun path => ⟨dotted path, file, keyLine text (dotted path)⟩)) := by
  have fits := hl.fits _ rfl
  have merged : Table.Ordered (Table.merge lower upper) := Table.Ordered.merge fits.ordered hu
  have free := ho.merge hr fits hu
  obtain ⟨w, reads⟩ := exists_reads_of_readable hr hn hl hu ho readable
  rw [← hs] at reads
  obtain ⟨d, hd, -⟩ := id reads
  let c : α := Shaped.ofCarrier d
  have decoded : (Shaped.shape α).decode (.table (Table.merge lower upper)) = .ok (Shaped.toCarrier c) := by
    rw [hd, Shaped.toCarrier_ofCarrier]
  obtain ⟨t, ht, read⟩ := ofTable_reads (hs ▸ rfl) (ofTable_eq_ok_iff.2 decoded)
  refine ⟨c, t, _, ht, hs ▸ read, fun path => ?_, ?_, loadTable_of_decode hlower decoded⟩
  · rw [hs, mem_undeclared_iff hn merged free, stray_merge_iff hr hn fits hu ho]
  · rw [hs]
    exact pairwise_undeclared hn merged free

theorem exists_loadTable_strays : ∃ (c : α) (strays : List (List String)),
    (∀ path, path ∈ strays ↔ Stray fields.IsLeaf upper path) ∧
      strays.Pairwise Before ∧
      (∀ text file, loadTable (Table.without strays upper) text file true = .ok c) ∧
      ∀ text file strict, loadTable upper text file strict =
        if strict = false ∨ strays = [] then .ok c
        else .error (.unknownKeys
          (strays.map fun path => ⟨dotted path, file, keyLine text (dotted path)⟩)) := by
  obtain ⟨c, t, strays, ht, reads, mem, order, load⟩ :=
    exists_loadTable hlower hs hr hn hl hu ho readable
  refine ⟨c, strays, mem, order, fun text file => ?_, load⟩
  -- The leaves are as they were, and nothing is in their way.
  have same (q : List String) (hq : fields.IsLeaf q) :
      Table.lookupPath q (Table.without strays upper) = Table.lookupPath q upper :=
    Table.lookupPath_without_of_apart (fun p hp => ((mem p).1 hp).undeclared q hq) upper
  have hu' := hu.without strays
  have ho' : fields.Open (Table.without strays upper) := fun q hq => Table.blocked_without (ho q hq) _
  have readable' : fields.Readable (Table.without strays upper) := fun q p hp hrecord v hv =>
    readable q p hp hrecord v (same q ⟨p, hp, hrecord⟩ ▸ hv)
  obtain ⟨c', t', strays', ht', reads', mem', -, load'⟩ :=
    exists_loadTable hlower hs hr hn hl hu' ho' readable'
  have none : strays' = [] := List.eq_nil_iff_forall_not_mem.2 fun path hpath =>
    not_stray_without mem path ((mem' path).1 hpath)
  obtain rfl := eq_of_reads_of_leaves hr (hl.fits _ rfl) hu hu' ho ho' reads reads' same
  rw [load', if_pos (.inr none), eq_of_toTable (hs ▸ hr) ht' ht]

end

end DottedPatch.Config
