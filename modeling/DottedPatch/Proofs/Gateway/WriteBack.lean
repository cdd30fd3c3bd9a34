import DottedPatch.Proofs.Gateway.Reload

namespace DottedPatch.Gateway

open Config Toml Patch

/-- Whatever the document, the pass and the configuration that is written, a write changes the tree of
the document at the applied leaves and nowhere else: each of them then holds what the configuration
holds there. The same goes for what is read from the text that is written. -/
theorem writeBack_touches [Machine] (text file : String) (rules : Rules) (lines : List Line)
    (c config : GatewayConfig) :
    ∃ p t, (applyTo? schema rules lines c).1 = .ok p ∧ toTable config = .ok t ∧
      match Document.read? text with
      | none => writeBack text file p.report config = .error (.uneditable file)
      | some d =>
        let edited := p.report.appliedPaths.foldl (writeLeaf t) d
        writeBack text file p.report config = .ok edited.text ∧
          Table.Touches (Table.lookupPath · t) (p.report.appliedPaths.map pathOf) d.table
            edited.table ∧
          (edited.Reprints → ∃ written, Table.read? edited.text = some written ∧
            Table.Touches (Table.lookupPath · t) (p.report.appliedPaths.map pathOf) d.table
              written) := by
  obtain ⟨p, _, hp, _, _, _⟩ :=
    applyTo?_of_suits suits_schema regular_shape isTable_shape rules lines c
  obtain ⟨t, ht⟩ := exists_toTable isTable_shape config
  refine ⟨p, t, hp, ht, ?_⟩
  cases hd : Document.read? text with
  | none =>
    simp only [writeBack, hd]
    rfl
  | some d =>
    have touches := touches_writeLeaves (fits_toTable ht).ordered
      (isLeaf_of_leaves describes_schema (exists_leaf_of_applied hp)) (Document.distinct_read? hd)
    refine ⟨?_, touches, fun reprints => ⟨_, reprints, touches⟩⟩
    simp only [writeBack, hd, ht]
    rfl

theorem writeBack_touches_headedSection : ∃ (c : GatewayConfig) (p : Patched GatewayConfig)
    (d : Document) (t written : Table), readBase headedSection "" true = .ok c ∧
      (applyTo? schema {} [maxSizeLine] c).1 = .ok p ∧ Document.read? headedSection = some d ∧
      toTable p.config = .ok t ∧
      writeBack headedSection "" p.report p.config = .ok "[FileConfig]\nmaxSize = 7\n" ∧
      Table.read? "[FileConfig]\nmaxSize = 7\n" = some written ∧
      Table.Touches (Table.lookupPath · t) (p.report.appliedPaths.map pathOf) d.table written := by
  obtain ⟨c, p, d, t, hc, hp, hd, ht, text, reprints, -⟩ := exists_of_passPrints prints_headedSection
  -- From here on it may be any text.
  generalize headedSection = source at *
  obtain ⟨p', t', hp', ht', touches⟩ := writeBack_touches source "" {} [maxSizeLine] c p.config
  obtain rfl := Except.ok.inj (hp.symm.trans hp')
  obtain rfl := Except.ok.inj (ht.symm.trans ht')
  simp only [hd] at touches
  obtain ⟨writes, -, read⟩ := touches
  obtain ⟨written, hwritten, touches⟩ := read reprints
  rw [text] at writes hwritten
  exact ⟨c, p, d, t, written, hc, hp, hd, ht, writes, hwritten, touches⟩

end DottedPatch.Gateway
