import DottedPatch.Proofs.Gateway.Passes
import DottedPatch.Proofs.Patch.Reload

namespace DottedPatch.Gateway

open Config Toml Patch

theorem undated_fields : GatewayConfig.fields.undated := by decide +kernel

section

variable [Machine]

theorem bare_default :
    (Shaped.shape GatewayConfig).bare ((Shaped.shape GatewayConfig).encode (Shaped.toCarrier default)) :=
  Shape.bare_encode regular_shape rfl

theorem beneath_default {lower : Table} (h : toTable (default : GatewayConfig) = .ok lower) :
    (Shaped.shape GatewayConfig).Beneath (some (.table lower)) where
  fits _ hl := Option.some.inj hl ▸ fits_toTable h
  bare _ hl := by
    rw [← Option.some.inj hl, ← toTable_eq_ok_iff.1 h]
    exact bare_default
  present _ := by simp

theorem exists_leaf_of_applied {rules : Rules} {lines : List Line} {c : GatewayConfig}
    {p : Patched GatewayConfig} (hp : (applyTo? schema rules lines c).1 = .ok p) :
    ∀ path ∈ p.report.appliedPaths, ∃ leaf, (path, leaf) ∈ schema.leaves :=
  mem_leaves_of_applied describes_schema hp

/-- Whatever the document and the lines, what a pass writes back is read as it was patched exactly if
the document keeps what it says. -/
theorem writeBack_roundTrips_iff {text file : String} {c : GatewayConfig}
    (hc : readBase text file true = .ok c) (rules : Rules) (lines : List Line) :
    ∃ p d upper lower loaded patched, (applyTo? schema rules lines c).1 = .ok p ∧
      Document.read? text = some d ∧ d.denoted? = some upper ∧
      toTable (default : GatewayConfig) = .ok lower ∧ toTable c = .ok loaded ∧
      toTable p.config = .ok patched ∧
      let edited := p.report.appliedPaths.foldl (writeLeaf patched) d
      (edited.Reprints → edited.Faithful →
        (RoundTrips schema text file p.report p.config ↔
          Keeps schema upper lower loaded patched p.report.appliedPaths)) := by
  obtain ⟨upper, hupper⟩ := exists_read?_of_readBase hc
  obtain ⟨d, hdoc, hd⟩ := Option.bind_eq_some_iff.1 hupper
  obtain ⟨lower, hlower⟩ := exists_toTable isTable_shape (default : GatewayConfig)
  obtain ⟨p, loaded, hp, hloaded, hpatched, houtcomes⟩ :=
    applyTo?_of_suits suits_schema regular_shape isTable_shape rules lines c
  have same (path : String) (leaf : Leaf) (hl : (path, leaf) ∈ schema.leaves)
      (hm : path ∉ p.report.appliedPaths) :
      Table.lookupPath (pathOf path) (applyLines schema rules lines loaded).table =
        Table.lookupPath (pathOf path) loaded :=
    lookupPath_applyLines_of_unapplied suits_schema regular_shape
      (fun _ hin ne => apart_of_describes describes_schema hl hin ne) rules lines (fits_toTable hloaded)
      fun o ho applied => hm (mem_appliedPaths.2 ⟨o, houtcomes ▸ ho, applied⟩)
  exact ⟨p, d, upper, lower, loaded, _, hp, hdoc, hd, hlower, hloaded, hpatched,
    roundTrips_iff_keeps rfl regular_shape undated_fields hlower (beneath_default hlower)
      describes_schema hdoc hd hc hloaded hpatched (exists_leaf_of_applied hp) same⟩

def patchedOver (rules : Rules) (file : String) (lines : List Line) (text : String) :
    Except Failure (Patched GatewayConfig) := do
  let c : GatewayConfig ← readBase text file true
  (applyTo? schema rules lines c).1

def passPrints (rules : Rules) (file : String) (lines : List Line) (text text' : String) : Bool :=
  yields (patchedOver rules file lines text) fun p => yields (toTable p.config) fun t =>
    (Document.read? text).any fun d =>
      let edited := p.report.appliedPaths.foldl (writeLeaf t) d
      edited.prints text' && decide (Table.read? text' = some edited.table) &&
        decide (Table.read? text' = edited.denoted?)

section

variable {rules : Rules} {file text text' : String} {lines : List Line}

theorem patchedOver_eq_ok_iff {p : Patched GatewayConfig} :
    patchedOver rules file lines text = .ok p ↔
      ∃ c : GatewayConfig, readBase text file true = .ok c ∧ (applyTo? schema rules lines c).1 = .ok p := by
  constructor
  · exact ok_of_bind
  · rintro ⟨c, hc, hp⟩
    rw [patchedOver, hc]
    exact hp

theorem exists_of_passPrints (h : passPrints rules file lines text text') :
    ∃ (c : GatewayConfig) (p : Patched GatewayConfig) (d : Document) (t : Table),
      readBase text file true = .ok c ∧ (applyTo? schema rules lines c).1 = .ok p ∧
      Document.read? text = some d ∧ toTable p.config = .ok t ∧
      let edited := p.report.appliedPaths.foldl (writeLeaf t) d
      edited.text = text' ∧ edited.Reprints ∧ edited.Faithful := by
  obtain ⟨p, hpass, h⟩ := exists_of_yields h
  obtain ⟨c, hc, hp⟩ := patchedOver_eq_ok_iff.1 hpass
  obtain ⟨t, ht, h⟩ := exists_of_yields h
  obtain ⟨d, hd, printed⟩ := (Option.any_eq_true _ _).1 h
  simp only [Bool.and_eq_true, decide_eq_true_eq] at printed
  obtain ⟨⟨prints, tree⟩, denoted⟩ := printed
  have text := Document.text_of_prints prints
  refine ⟨c, p, d, t, hc, hp, hd, ht, text, ?_, ?_⟩
  · rw [Document.Reprints, text, tree]
  · rw [Document.Faithful, text, denoted]

end

end

def maxSizeLine : Line := ⟨1, ["FileConfig", "maxSize"], "7"⟩

def headedSection : String := "[FileConfig]\nmaxSize = 5\n"

theorem prints_headedSection :
    passPrints {} "" [maxSizeLine] headedSection "[FileConfig]\nmaxSize = 7\n" := by
  decide +kernel

theorem writeBack_roundTrips_headedSection : ∃ (c : GatewayConfig) (p : Patched GatewayConfig),
    readBase headedSection "" true = .ok c ∧ (applyTo? schema {} [maxSizeLine] c).1 = .ok p ∧
      RoundTrips schema headedSection "" p.report p.config := by
  obtain ⟨c, p, d, patched, hc, hp, hdoc, hpatched, -, reprints, faithful⟩ :=
    exists_of_passPrints prints_headedSection
  refine ⟨c, p, hc, hp, ?_⟩
  obtain ⟨p', d', upper, lower, loaded, patched', hp', hdoc', hd, -, -, hpatched', iff⟩ :=
    writeBack_roundTrips_iff hc {} [maxSizeLine]
  obtain rfl := Except.ok.inj (hp.symm.trans hp')
  obtain rfl := Option.some.inj (hdoc.symm.trans hdoc')
  obtain rfl := Except.ok.inj (hpatched.symm.trans hpatched')
  have sections : (Table.read? headedSection).any fun t => GatewayConfig.fields.sectioned t := by
    decide +kernel
  rw [Table.read?, hdoc, Option.bind_some, hd, Option.any_some] at sections
  exact (iff reprints faithful).2 (keeps_of_sectioned describes_schema sections _ _ _ _)

def wholeSection : String := "FileConfig = [true, 5]\n"

theorem prints_wholeSection :
    passPrints {} "" [maxSizeLine] wholeSection "[FileConfig ]\nmaxSize = 7\n" ∧
      (yields (patchedOver {} "" [maxSizeLine] wholeSection) fun p =>
        decide (p.report.appliedPaths = ["FileConfig.maxSize"]) && yields (toTable p.config) fun t =>
          decide (Table.lookupPath ["FileConfig", "enabled"] t = some (.boolean true))) ∧
      yields
        (do
          let again : GatewayConfig ← readBase "[FileConfig ]\nmaxSize = 7\n" "" true
          toTable again)
        fun t => decide (Table.lookupPath ["FileConfig", "enabled"] t = some (.boolean false)) := by
  decide +kernel

/-- A field of a section that is written as an array is lost when another one is set. -/
theorem not_roundTrips_wholeSection :
    ¬∀ (text file : String) (c : GatewayConfig) (rules : Rules) (lines : List Line)
      (p : Patched GatewayConfig) (d : Document) (patched : Table),
      readBase text file true = .ok c → (applyTo? schema rules lines c).1 = .ok p →
        Document.read? text = some d → toTable p.config = .ok patched →
        (p.report.appliedPaths.foldl (writeLeaf patched) d).Reprints →
        (p.report.appliedPaths.foldl (writeLeaf patched) d).Faithful →
        RoundTrips schema text file p.report p.config := by
  intro roundTrips
  obtain ⟨prints, values, lost⟩ := prints_wholeSection
  obtain ⟨c, p, d, patched, hc, hp, hdoc, hpatched, text, reprints, faithful⟩ :=
    exists_of_passPrints prints
  simp only [patchedOver_eq_ok_iff.2 ⟨c, hc, hp⟩, hpatched, yields, Bool.and_eq_true,
    decide_eq_true_eq] at values
  obtain ⟨applied, enabled⟩ := values
  obtain ⟨lower, hlower⟩ := exists_toTable isTable_shape (default : GatewayConfig)
  have trip := roundTrips wholeSection "" c {} [maxSizeLine] p d patched hc hp hdoc hpatched reprints
    faithful
  rw [roundTrips_iff hdoc hlower hpatched (exists_leaf_of_applied hp), text, applied] at trip
  obtain ⟨again, reloaded, hagain, hreloaded, hleaves⟩ := trip
  simp only [hagain, bind, Except.bind, hreloaded, yields, decide_eq_true_eq] at lost
  have keys : pathOf "FileConfig.enabled" = ["FileConfig", "enabled"] := by decide
  have stays : "FileConfig.enabled" ∉ reverted patched lower ["FileConfig.maxSize"] := fun hm =>
    absurd (mem_reverted.1 hm).1 (by decide)
  have kept := hleaves "FileConfig.enabled" (.boolean "enabled") List.mem_cons_self
  rw [if_neg stays, keys, lost, enabled] at kept
  cases kept

end DottedPatch.Gateway
