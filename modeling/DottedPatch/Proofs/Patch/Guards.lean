import DottedPatch.Proofs.Schema.Check

/-! When a checked schema guards its passes. The check tries one value at each leaf, at the path of
the leaf. What it does not try are wider numbers, lists that a set does not keep, leaves with dots
in their names, and leaves that lie within others. -/

namespace DottedPatch

open Config Toml Patch

/-- No pass fails, and what the last line gave to a leaf is there afterwards. -/
def Schema.Guards (schema : Schema) (α : Type) [Configuration α] : Prop :=
  ∀ (rules : Rules) (lines : List Line) (c : α), ∃ p t,
    (applyTo? schema rules lines c).1 = .ok p ∧ toTable p.config = .ok t ∧
      ∀ path line, lastApplied? path lines p.report.outcomes = some line →
        ∃ a, line.assignment? schema rules = some a ∧
          Table.lookupPath (pathOf path) t = a.value.map LeafValue.toValue

/-- What a schema needs besides the check. -/
structure Schema.Sound (schema : Schema) (shape : Shape) : Prop where
  dotFree : ∀ target : Target, target.In schema → DotFree target.leaf.name
  within : ∀ target : Target, target.In schema →
    ∀ p, shape.at? target.keys = some p → target.leaf.Within p.shape
  apart : ∀ a b : Target, a.In schema → b.In schema → a.keys <+: b.keys → a.keys = b.keys

namespace Schema

variable {α : Type} [Shaped α] {schema : Schema} {t : Table}

theorem suits_of_sound (hr : (Shaped.shape α).regular) (hp : (Shaped.shape α).plain)
    (h : ∀ target : Target, target.In schema → Probed (Shaped.shape α) t target)
    (hs : schema.Sound (Shaped.shape α)) : schema.Suits (Shaped.shape α) where
  keys target hin := (h target hin).keys_of_dotFree (hs.dotFree target hin)
  place target hin := by
    obtain ⟨p, hat, fits, null⟩ := (h target hin).place
    rw [(h target hin).keys_of_dotFree (hs.dotFree target hin)] at hat
    exact ⟨p, hat, Leaf.suits_of_within (Shape.regular_of_at? hr hat) (Shape.plain_of_at? hp hat)
      fits null (hs.within target hin p hat)⟩

variable [Inhabited α]

theorem guards_of_sound (hr : (Shaped.shape α).regular) (hp : (Shaped.shape α).plain)
    (ht : (Shaped.shape α).isTable)
    (h : ∀ target : Target, target.In schema → Probed (Shaped.shape α) t target)
    (hs : schema.Sound (Shaped.shape α)) : schema.Guards α := by
  intro rules lines c
  have suits := suits_of_sound hr hp h hs
  obtain ⟨p, u, hpass, hu, hu', houtcomes⟩ := applyTo?_of_suits suits hr ht rules lines c
  refine ⟨p, _, hpass, hu', fun path line hlast => ?_⟩
  rw [houtcomes] at hlast
  obtain ⟨here, hin, rfl⟩ := in_of_lastApplied? hlast
  have beside (other : Target) (hother : other.In schema) (ne : other.path ≠ here.path) :
      Table.Apart other.keys (pathOf here.path) := by
    rw [suits.keys here hin]
    have distinct : other.keys ≠ here.keys := fun eq => ne (congrArg dotted eq)
    exact ⟨fun pre => distinct (hs.apart other here hother hin pre),
      fun pre => distinct (hs.apart here other hin hother pre).symm⟩
  have holds := holds_applyLines suits hr beside rules lines (fits_toTable hu)
  rw [hlast] at holds
  obtain ⟨a, ha, _, hlookup⟩ := holds
  exact ⟨a, ha, hlookup⟩

namespace Guards

variable {c : α}

theorem reads (hg : schema.Guards α) (ht : (Shaped.shape α).isTable) (hc : toTable c = .ok t)
    (rules : Rules) (lines : List Line) :
    ∃ u, (Shaped.shape α).Reads (.table (applyLines schema rules lines t).table) (.table u) ∧
      ∀ path line,
        lastApplied? path lines (applyLines schema rules lines t).outcomes = some line →
          ∃ a, line.assignment? schema rules = some a ∧
            Table.lookupPath (pathOf path) u = a.value.map LeafValue.toValue := by
  obtain ⟨p, u, hpass, hu, hlast⟩ := hg rules lines c
  simp only [applyTo?, hc, applyAll] at hpass
  obtain ⟨d, hd, rfl⟩ := ok_of_map hpass
  obtain ⟨u', hu', reads⟩ := ofTable_reads ht hd
  obtain rfl := Except.ok.inj (hu.symm.trans hu')
  exact ⟨u, reads, hlast⟩

theorem single (hg : schema.Guards α) (ht : (Shaped.shape α).isTable) (hc : toTable c = .ok t)
    {target : Target} (hin : target.In schema) {raw : String} {v : LeafValue}
    (hv : coerce .rejectLine target.leaf raw = .ok (some v)) {t' : Table}
    (run : Table.Write.run? ⟨target.parents, target.leaf.name, some v.toValue⟩ t = some t') :
    ∃ u, (Shaped.shape α).Reads (.table t') (.table u) ∧
      Table.lookupPath (pathOf target.path) u = some v.toValue := by
  have ha := hin.assignment? hv 1
  obtain ⟨htable, houtcome⟩ := applyLine_of_run? ha run
  obtain ⟨u, reads, hlast⟩ := hg.reads ht hc ⟨.exact, .rejectLine⟩ [⟨1, target.keys, raw⟩]
  simp only [applyLines, htable, houtcome] at reads hlast
  obtain ⟨a, ha', hlookup⟩ := hlast target.path ⟨1, target.keys, raw⟩ (by
    simp [lastApplied?, Outcome.appliedPath?])
  obtain rfl := Option.some.inj (ha.symm.trans ha')
  exact ⟨u, reads, hlookup⟩

theorem pair (hg : schema.Guards α) (ht : (Shaped.shape α).isTable) (hc : toTable c = .ok t)
    {a b : Target} (ha : a.In schema) (hb : b.In schema) (paths : b.path ≠ a.path)
    {raw raw' : String} {v v' : LeafValue} (hv : coerce .rejectLine a.leaf raw = .ok (some v))
    (hv' : coerce .rejectLine b.leaf raw' = .ok (some v')) {t₁ t₂ : Table}
    (run₁ : Table.Write.run? ⟨a.parents, a.leaf.name, some v.toValue⟩ t = some t₁)
    (run₂ : Table.Write.run? ⟨b.parents, b.leaf.name, some v'.toValue⟩ t₁ = some t₂) :
    ∃ u, (Shaped.shape α).Reads (.table t₂) (.table u) ∧
      Table.lookupPath (pathOf a.path) u = some v.toValue := by
  have assigned₁ := ha.assignment? hv 1
  have assigned₂ := hb.assignment? hv' 2
  obtain ⟨htable₁, houtcome₁⟩ := applyLine_of_run? assigned₁ run₁
  obtain ⟨htable₂, houtcome₂⟩ := applyLine_of_run? assigned₂ run₂
  obtain ⟨u, reads, hlast⟩ := hg.reads ht hc ⟨.exact, .rejectLine⟩
    [⟨1, a.keys, raw⟩, ⟨2, b.keys, raw'⟩]
  simp only [applyLines, htable₁, houtcome₁, htable₂, houtcome₂] at reads hlast
  obtain ⟨first, hfirst, hlookup⟩ := hlast a.path ⟨1, a.keys, raw⟩ (by
    simp [lastApplied?, Outcome.appliedPath?, paths])
  obtain rfl := Option.some.inj (assigned₁.symm.trans hfirst)
  exact ⟨u, reads, hlookup⟩

variable (hr : (Shaped.shape α).regular) (hp : (Shaped.shape α).plain)
  (ht : (Shaped.shape α).isTable) (hc : toTable c = .ok t)

include hr hp ht hc

theorem dotFree (hg : schema.Guards α) {target : Target} (hin : target.In schema)
    (h : Probed (Shaped.shape α) t target) : DotFree target.leaf.name := by
  refine Classical.byContradiction fun dots => ?_
  obtain ⟨p, hat, _⟩ := h.place
  have fits := fits_toTable hc
  have noPlace : (Shaped.shape α).at? (target.parents ++ [target.leaf.name]) = none := by
    rw [h.keys] at hat
    by_cases hparents : target.parents = []
    · rw [hparents] at hat ⊢
      exact Shape.place?_of_dotted hp dots hat
    · rw [Shape.at?_append hparents (pathOf_ne_nil _)] at hat
      obtain ⟨q, hq, hat⟩ := Option.bind_eq_some_iff.1 hat
      rw [Shape.at?_append hparents (by simp), hq]
      exact Shape.place?_of_dotted (Shape.plain_of_at? hp hq) dots hat
  -- Whatever is stored, the table is read as it was before.
  have same {raw : String} {v : LeafValue} (hraw : raw ≠ nullText)
      (hv : coerceTo .rejectLine raw target.leaf.kind = .ok v) :
      Table.lookupPath (pathOf target.path) t = some v.toValue := by
    obtain ⟨t', run⟩ := Table.Write.run?_of_section h.sections target.leaf.name (some v.toValue)
    obtain ⟨u, reads, hlookup⟩ := hg.single ht hc hin (coerce_of_coerceTo hv hraw) run
    have reads' := Shape.reads_of_no_place hr fits h.sections noPlace run
    obtain rfl := Value.table.inj (reads.unique reads')
    exact hlookup
  obtain ⟨raw, v, raw', v', hraw, hraw', hv, hv', distinct⟩ := exists_distinct target.leaf.kind
  exact distinct (Option.some.inj ((same hraw hv).symm.trans (same hraw' hv')))

theorem fits (hg : schema.Guards α) {target : Target} (hin : target.In schema)
    (h : Probed (Shaped.shape α) t target) {p : Place}
    (hat : (Shaped.shape α).at? target.keys = some p) {raw : String} {v : LeafValue}
    (hv : coerce .rejectLine target.leaf raw = .ok (some v)) : p.shape.Fits v.toValue := by
  obtain ⟨t', run⟩ := Table.Write.run?_of_section h.sections target.leaf.name (some v.toValue)
  obtain ⟨u, reads, hlookup⟩ := hg.single ht hc hin hv run
  have ordered : t'.Ordered := by
    refine Table.Write.ordered_run? (fits_toTable hc).ordered ?_ run
    rintro _ ⟨rfl⟩
    exact v.ordered_toValue
  obtain ⟨w, hw, hlookup'⟩ := reads.lookupPath hr ordered hat (Table.Write.lookupPath_run? run)
  rw [h.keys_of_dotFree (hg.dotFree hr hp ht hc hin h), hlookup'] at hlookup
  obtain rfl := Option.some.inj hlookup
  exact hw.fits

theorem within (hg : schema.Guards α) {target : Target} (hin : target.In schema)
    (h : Probed (Shaped.shape α) t target) {p : Place}
    (hat : (Shaped.shape α).at? target.keys = some p) : target.leaf.Within p.shape := by
  have keeps {raw : String} {v : LeafValue}
      (hv : coerce .rejectLine target.leaf raw = .ok (some v)) : p.shape.Fits v.toValue :=
    hg.fits hr hp ht hc hin h hat hv
  obtain ⟨optional, shape⟩ := p
  cases shape with
  | boolean | string | strings | stringMap | choice | record => trivial
  | integer u =>
    have holds {raw : String} {n : Int}
        (hv : coerce .rejectLine target.leaf raw = .ok (some (.integer n))) : u.Holds n := by
      obtain ⟨b, hb⟩ := keeps hv
      cases hb
      exact b.holds
    refine ⟨fun w hk => ?_, fun n hn => ?_⟩
    · refine Classical.byContradiction fun narrow => ?_
      have widths : w = .w64 ∧ u = .w32 := by
        cases w <;> cases u <;> simp [Width.bits] at narrow ⊢
      obtain ⟨rfl, rfl⟩ := widths
      have three : coerceTo .rejectLine "3000000000" target.leaf.kind = .ok (.integer 3000000000) := by
        rw [hk]
        rfl
      have := holds (coerce_of_coerceTo three (by decide))
      revert this
      decide
    · have reset : coerce .rejectLine target.leaf nullText = .ok (some (.integer n)) := by
        simp [coerce, hn, OnNull.value?]
      exact holds reset
  | stringSet =>
    intro d hk
    have twice : coerceTo .rejectLine (Coercion.uncut d ++ .singleton d ++ Coercion.uncut d)
        target.leaf.kind = .ok (.list [Coercion.uncut d, Coercion.uncut d]) := by
      rw [hk, coerceTo, Coercion.tokens_append, Coercion.tokens_uncut]
      rfl
    have notNull : Coercion.uncut d ++ .singleton d ++ Coercion.uncut d ≠ nullText := by
      intro eq
      have := congrArg String.length eq
      simp only [String.length_append, Coercion.length_uncut, String.length_singleton] at this
      cases this
    obtain ⟨items, hitems⟩ := keeps (coerce_of_coerceTo twice notNull)
    have eq : items.toList = [Coercion.uncut d, Coercion.uncut d] :=
      (List.map_inj_right fun _ _ h => by simpa using h).1 (Value.array.inj hitems)
    have sorted := items.sorted
    rw [eq, List.pairwise_pair] at sorted
    exact String.lt_irrefl _ sorted

theorem apart (hg : schema.Guards α)
    (h : ∀ target : Target, target.In schema → Probed (Shaped.shape α) t target) {a b : Target}
    (ha : a.In schema) (hb : b.In schema) (hpre : a.keys <+: b.keys) : a.keys = b.keys := by
  refine Classical.byContradiction fun ne => ?_
  have pathA := (h a ha).keys_of_dotFree (hg.dotFree hr hp ht hc ha (h a ha))
  have pathB := (h b hb).keys_of_dotFree (hg.dotFree hr hp ht hc hb (h b hb))
  obtain ⟨pa, hpa, sample, _⟩ := (h a ha).place
  obtain ⟨pb, hpb, _⟩ := (h b hb).place
  rw [pathA] at hpa
  rw [pathB] at hpb
  obtain ⟨rest, eq⟩ := hpre
  have hrest : rest ≠ [] := by
    rintro rfl
    exact ne (by simpa using eq)
  have table : pa.shape.isTable := by
    rw [← eq, Shape.at?_append a.keys_ne_nil hrest, hpa] at hpb
    exact Shape.isTable_of_at? hpb
  have kind : a.leaf.kind = .map := Kind.eq_map_of_sample table sample
  -- The map is emptied, and then the leaf within it gets a value.
  have emptied : coerce .rejectLine a.leaf "" = .ok (some (.map (.ofList []))) := by
    refine coerce_of_coerceTo ?_ (by decide)
    rw [kind]
    rfl
  obtain ⟨raw, v, _, _, hraw, _, hv, _⟩ := exists_distinct b.leaf.kind
  have given : coerce .rejectLine b.leaf raw = .ok (some v) := coerce_of_coerceTo hv hraw
  obtain ⟨t₁, run₁, fits₁⟩ := (fits_toTable hc).run? hr
    (w := ⟨a.parents, a.leaf.name, some (LeafValue.toValue (.map (.ofList [])))⟩) hpa
    (hg.fits hr hp ht hc ha (h a ha) hpa emptied)
  obtain ⟨t₂, run₂, fits₂⟩ := fits₁.run? hr
    (w := ⟨b.parents, b.leaf.name, some v.toValue⟩) hpb
    (hg.fits hr hp ht hc hb (h b hb) hpb given)
  have paths : b.path ≠ a.path := by
    intro same
    exact ne (by rw [← pathA, ← pathB, same])
  obtain ⟨u, reads, hlookup⟩ := hg.pair ht hc ha hb paths emptied given run₁ run₂
  obtain rfl := Value.table.inj (reads.unique ((Shape.fits_iff_reads hr).1 fits₂))
  rw [pathA] at hlookup
  have stored := Table.Write.lookupPath_run? run₂
  rw [show Table.Write.path ⟨b.parents, b.leaf.name, some v.toValue⟩ = b.keys from rfl, ← eq,
    Table.lookupPath_append hrest hlookup] at stored
  have none := Table.lookupPath_empty rest
  exact absurd (none.symm.trans stored) (by simp)

end Guards

theorem guards_iff_sound (hr : (Shaped.shape α).regular) (hp : (Shaped.shape α).plain)
    (ht : (Shaped.shape α).isTable) {d : α} (h : schema.check d = .ok ()) :
    schema.Guards α ↔ schema.Sound (Shaped.shape α) := by
  obtain ⟨t, hd, probed⟩ := check_ok hr hp ht h
  refine ⟨fun hg => ⟨?_, ?_, ?_⟩, guards_of_sound hr hp ht probed⟩
  · intro target hin
    exact hg.dotFree hr hp ht hd hin (probed target hin)
  · intro target hin p hat
    exact hg.within hr hp ht hd hin (probed target hin) hat
  · intro a b ha hb hpre
    exact hg.apart hr hp ht hd probed ha hb hpre

end Schema

end DottedPatch
