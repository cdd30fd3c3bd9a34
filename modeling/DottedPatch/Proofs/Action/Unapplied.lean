import DottedPatch.Proofs.Action.Composition
import DottedPatch.Proofs.Toml.RoundTrip

namespace DottedPatch

open Config Gateway Patch Toml

namespace Patch

def Report.Unapplied (report : Report) : Prop := ∀ o ∈ report.outcomes, o.isApplied = false

instance (report : Report) : Decidable report.Unapplied :=
  inferInstanceAs (Decidable (∀ o ∈ report.outcomes, _))

theorem Report.Unapplied.appliedPaths {report : Report} (h : report.Unapplied) :
    report.appliedPaths = [] := by
  have none : report.outcomes.filterMap Outcome.appliedPath? = [] :=
    List.filterMap_eq_nil_iff.2 fun o ho =>
      Option.isNone_iff_eq_none.1 (Option.isSome_eq_false_iff.1 (h o ho))
  rw [Report.appliedPaths, none, List.eraseDups_nil]

theorem writeBack_of_unapplied {α : Type} [Configuration α] {text : String} {d : Document}
    (hd : Document.read? text = some d) {report : Report} (h : report.Unapplied) (file : String)
    (c : α) : writeBack text file report c = (toTable c).map fun _ => d.text := by
  simp only [writeBack, hd, h.appliedPaths]
  rfl

end Patch

variable {fs fs' : Files} {settings : Settings} {base patch text lines : String} {d : Document}

theorem Files.Rewritten.file?_eq (h : fs.Rewritten base text fs') (hread : fs.read base = .ok text)
    (names : List String) : fs'.file? names = fs.file? names := by
  obtain ⟨written, hl, others⟩ := h.others
  by_cases same : names = written
  · obtain ⟨_, hl', hnode⟩ := Files.read_eq_ok_iff.1 hread
    obtain ⟨_, hl'', hnode'⟩ := Files.read_eq_ok_iff.1 h.read
    cases hl.symm.trans hl'
    cases (h.extended.locate hl).symm.trans hl''
    rw [same, Files.file?_of_text hnode, Files.file?_of_text hnode']
  · exact others names same

section

variable [Machine]

theorem savingRun_of_unapplied (settings : Settings) (printConfig : Bool) (rooted : fs.Rooted)
    (hread : fs.read base = .ok text) (hlines : fs.read patch = .ok lines)
    (hd : Document.read? text = some d) {c : GatewayConfig} (hc : readBase text base true = .ok c) :
    ∃ a fs', savingRun settings base printConfig fs patch = (.ok (.patched a), fs') ∧
      (a.report.Unapplied → fs.Rewritten base d.text fs') := by
  obtain ⟨p, d', _, _, hd', _, pass⟩ := exists_passOver hc settings.rules (readLines lines)
  obtain rfl := Option.some.inj (hd.symm.trans hd')
  obtain ⟨a, fs', run, hreport, rewritten⟩ :=
    savingRun_of_passOver printConfig rooted hread hlines pass
  refine ⟨a, fs', run, fun h => ?_⟩
  rw [hreport] at h
  rwa [h.appliedPaths] at rewritten

theorem report_of_savingRun {printConfig : Bool} {p : Patched GatewayConfig} {a : PassAnswer}
    (rooted : fs.Rooted) (hread : fs.read base = .ok text) (hlines : fs.read patch = .ok lines)
    (hpass : patchedOver settings.rules base (readLines lines) text = .ok p)
    (run : savingRun settings base printConfig fs patch = (.ok (.patched a), fs')) :
    a.report = p.report := by
  obtain ⟨c, hc, hp⟩ := patchedOver_eq_ok_iff.1 hpass
  obtain ⟨p', _, _, hp', -, -, pass⟩ := exists_passOver hc settings.rules (readLines lines)
  obtain rfl := Except.ok.inj (hp.symm.trans hp')
  obtain ⟨_, _, run', hreport, -⟩ := savingRun_of_passOver printConfig rooted hread hlines pass
  obtain ⟨answer, -⟩ := Prod.mk.inj (run.symm.trans run')
  obtain rfl := Answer.patched.inj (Except.ok.inj answer)
  exact hreport

/-- If no line was applied, what is written is the document as it is printed. For a text whose
statements come in the order in which they are printed this is the text itself, but for a byte order
mark, carriage returns, and the end of the last line where it is missing. -/
theorem unapplied_reprints_text (hd : Document.read? text = some d) :
    (∀ (file : String) (report : Report) (c : GatewayConfig), report.Unapplied →
      writeBack text file report c = .ok d.text) ∧
    (∀ (settings : Settings) (base patch lines : String) (printConfig : Bool) (fs : Files)
        (c : GatewayConfig), fs.Rooted → fs.read base = .ok text → readBase text base true = .ok c →
        fs.read patch = .ok lines →
      ∃ a fs', savingRun settings base printConfig fs patch = (.ok (.patched a), fs') ∧
        (a.report.Unapplied → fs.Rewritten base d.text fs' ∧
          (d.text = text → ∀ names, fs'.file? names = fs.file? names))) ∧
    (Document.regular? text = some d →
      (∃ missing, (missing = [] ∨ missing = ['\n'] ∧ ¬d.Ended (Document.dropMark text.toList)) ∧
        Relaid (Document.dropMark text.toList ++ missing) d.text.toList) ∧
      ('\r' ∉ text.toList →
        (d.text = text ↔ text.toList.head? ≠ some '\ufeff' ∧ d.Ended text.toList))) := by
  refine ⟨fun file report c h => ?_, ?_, fun regular => ?_⟩
  · obtain ⟨t, ht⟩ := exists_toTable isTable_shape c
    rw [writeBack_of_unapplied hd h, ht]
    rfl
  · intro settings base patch lines printConfig fs c rooted hread hc hlines
    obtain ⟨a, fs', run, printed⟩ :=
      savingRun_of_unapplied settings printConfig rooted hread hlines hd hc
    refine ⟨a, fs', run, fun h => ⟨printed h, fun same => ?_⟩⟩
    have rewritten := printed h
    rw [same] at rewritten
    exact rewritten.file?_eq hread
  · exact ⟨Document.text_of_regular? regular, Document.text_eq_iff regular⟩

end

def commentedBase : String := "FileConfig.enabled = true
FileConfig.maxSize  = 0x0A # ten
UpstreamCheck = \x7b SwitchConfig . local=false \x7d

[ ExcludePath ] # one
\tpaths = [
  'a', ]

# end"

def refusedLines : String := "FileConfig.maxSize=x\nnope=1\n"

theorem unapplied_reprints_text_commented :
    (∀ (file : String) (report : Report) (c : GatewayConfig), report.Unapplied →
      writeBack commentedBase file report c = .ok commentedBase) ∧
    ∀ printConfig, ∃ a fs', savingRun {} "base.toml" printConfig
        (patchFiles commentedBase refusedLines "") "one.txt" = (.ok (.patched a), fs') ∧
      a.report.outcomes.length = 2 ∧ a.report.Unapplied ∧
      ∀ names, fs'.file? names = (patchFiles commentedBase refusedLines "").file? names := by
  have parsed : ((Document.regular? commentedBase).any fun d => decide (d.trailing ≠ "")) ∧
      '\r' ∉ commentedBase.toList ∧ commentedBase.toList.head? ≠ some '\ufeff' := by decide +kernel
  have reported : yields (patchedOver ({} : Settings).rules "base.toml" (readLines refusedLines)
      commentedBase) fun p => p.report.outcomes.length = 2 && decide p.report.Unapplied := by
    decide +kernel
  obtain ⟨printed, carriage, mark⟩ := parsed
  obtain ⟨d, regular, trailing⟩ := (Option.any_eq_true ..).1 printed
  obtain ⟨written, saved, reprint⟩ := unapplied_reprints_text (Document.read?_of_regular? regular)
  have same : d.text = commentedBase :=
    ((reprint regular).2 carriage).2 ⟨mark, .inr (.inr (of_decide_eq_true trailing))⟩
  rw [same] at written
  refine ⟨written, fun printConfig => ?_⟩
  obtain ⟨p, hpass, refused⟩ := exists_of_yields reported
  rw [Bool.and_eq_true, decide_eq_true_eq, decide_eq_true_eq] at refused
  obtain ⟨c, hc, -⟩ := patchedOver_eq_ok_iff.1 hpass
  have hread : (patchFiles commentedBase refusedLines "").read "base.toml" = .ok commentedBase := rfl
  have hlines : (patchFiles commentedBase refusedLines "").read "one.txt" = .ok refusedLines := rfl
  have rooted : (patchFiles commentedBase refusedLines "").Rooted := .inl rfl
  obtain ⟨a, fs', run, kept⟩ := saved {} "base.toml" "one.txt" refusedLines printConfig _ c rooted
    hread hc hlines
  rw [← report_of_savingRun rooted hread hlines hpass run] at refused
  exact ⟨a, fs', run, refused.1, refused.2, (kept refused.2).2 same⟩

/-- The last line gets a line end. -/
theorem not_unapplied_keeps_text :
    ¬∀ (text file : String) (d : Document) (report : Report) (c : GatewayConfig),
      Document.read? text = some d → report.Unapplied → writeBack text file report c = .ok text := by
  intro keeps
  have printed : (Document.read? "[FileConfig]\nmaxSize = 5").any
      (·.prints "[FileConfig]\nmaxSize = 5\n") := by decide +kernel
  obtain ⟨d, hd, hprints⟩ := (Option.any_eq_true ..).1 printed
  have none : Report.Unapplied ⟨[⟨1, "nope", .rejected "" (.unknownSegment "nope")⟩]⟩ := by decide
  obtain ⟨t, ht⟩ := exists_toTable isTable_shape (default : GatewayConfig)
  have same := keeps _ "" d _ default hd none
  rw [writeBack_of_unapplied hd none, ht, Document.text_of_prints hprints] at same
  have same : "[FileConfig]\nmaxSize = 5\n" = "[FileConfig]\nmaxSize = 5" := Except.ok.inj same
  exact absurd same (by decide)

end DottedPatch
