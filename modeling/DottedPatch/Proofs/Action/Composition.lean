import DottedPatch.Proofs.Action.Runs
import DottedPatch.Proofs.Disk.Parents
import DottedPatch.Proofs.Gateway.Saves

namespace DottedPatch

open Config Gateway Patch

variable {fs fs' : Files} {settings : Settings} {base patch text text' lines : String}
  {printConfig : Bool} {report : Report}

theorem leads_makeParent_of_read (rooted : fs.Rooted) (hread : fs.read base = .ok text) :
    Command.Leads (makeParent base) fs (.ok ()) fs := by
  obtain ⟨names, hl, hnode⟩ := Files.read_eq_ok_iff.1 hread
  rw [makeParent]
  cases hd : (FilePath.parent? base).filter (· ≠ "") with
  | none => exact .pure () fs
  | some directory =>
    have parent := (Option.filter_eq_some_iff.1 hd).1
    exact .makeDirectories_ok (Files.makeDirectories_parent rooted hl (Files.file?_of_text hnode) parent)

section

variable [Machine]

def savingRun (settings : Settings) (base : String) (printConfig : Bool) (fs : Files) (patch : String) :
    Except Failure Answer × Files :=
  Action.runOn settings (.apply patch (some base) true printConfig) fs

theorem savingRun_of_passOver (printConfig : Bool) (rooted : fs.Rooted) (hread : fs.read base = .ok text)
    (hlines : fs.read patch = .ok lines)
    (hpass : passOver settings.rules base (readLines lines) text = .ok (text', report)) :
    ∃ a fs', savingRun settings base printConfig fs patch = (.ok (.patched a), fs') ∧
      a.report = report ∧ fs.Rewritten base text' fs' := by
  obtain ⟨c, p, hc, hp, hw, rfl⟩ := passOver_eq_ok_iff.1 hpass
  obtain ⟨reverted, fs', hsave, rewritten⟩ :=
    leads_persist hread hw (.refl fs) (leads_makeParent_of_read rooted hread)
  obtain ⟨a, hreport, leads⟩ := leads_runApply (leads_passed hread hc hlines hp) hsave
  exact ⟨a, fs', runOn_of_leads (leads.bind (.pure (Answer.patched a) fs')), hreport, rewritten⟩

def LoadsAs (base : String) (fs : Files) (c : GatewayConfig) : Prop :=
  ∃ text, fs.read base = .ok text ∧ readBase text base true = .ok c

/-- Saving one patch and then another comes to the same as saving both in one: the base file is read
as the same configuration, and the lines have the same statuses. -/
def Composes (settings : Settings) (base : String) (printConfig : Bool) (one two both : String)
    (fs : Files) : Prop :=
  ∃ a₁ fs₁ a₂ fs₂ a fs' c,
    savingRun settings base printConfig fs one = (.ok (.patched a₁), fs₁) ∧
    savingRun settings base printConfig fs₁ two = (.ok (.patched a₂), fs₂) ∧
    savingRun settings base printConfig fs both = (.ok (.patched a), fs') ∧
    LoadsAs base fs₂ c ∧ LoadsAs base fs' c ∧
    a.report.outcomes.map Outcome.status =
      a₁.report.outcomes.map Outcome.status ++ a₂.report.outcomes.map Outcome.status

variable {one two both textOne textTwo textBoth : String} {c : GatewayConfig}

/-- Over any base whose sections are tables, runs that save compose. -/
theorem runs_compose (rooted : fs.Rooted) (hread : fs.read base = .ok text)
    (hbase : readBase text base true = .ok c)
    (hsections : (Toml.Table.read? text).any GatewayConfig.fields.sectioned)
    (hone : fs.read one = .ok textOne) (htwo : fs.read two = .ok textTwo)
    (hboth : fs.read both = .ok textBoth)
    (hlines : (readLines textBoth).map Line.content =
      (readLines textOne ++ readLines textTwo).map Line.content)
    (apart : fs.locate two ≠ fs.locate base)
    (hprint : Reprinted settings.rules base (readLines textOne) text)
    (hprintBoth : Reprinted settings.rules base (readLines textBoth) text)
    (hprintNext : ∀ text' report,
      passOver settings.rules base (readLines textOne) text = .ok (text', report) →
        Reprinted settings.rules base (readLines textTwo) text') :
    Composes settings base printConfig one two both fs := by
  obtain ⟨text₁, first, text₂, second, text', report, c', pass₁, pass₂, pass, hc₂, hc', statuses⟩ :=
    passes_compose (sectioned_of_any hbase hsections) hlines hprint hprintBoth hprintNext
  obtain ⟨a₁, fs₁, run₁, report₁, rewritten₁⟩ :=
    savingRun_of_passOver printConfig rooted hread hone pass₁
  obtain ⟨a₂, fs₂, run₂, report₂, rewritten₂⟩ := savingRun_of_passOver printConfig
    (rooted.of_extends rewritten₁.extended) rewritten₁.read (rewritten₁.read_of_apart htwo apart) pass₂
  obtain ⟨a, fs', run, report', rewritten⟩ :=
    savingRun_of_passOver printConfig rooted hread hboth pass
  refine ⟨a₁, fs₁, a₂, fs₂, a, fs', c', run₁, run₂, run, ⟨text₂, rewritten₂.read, hc₂⟩,
    ⟨text', rewritten.read, hc'⟩, ?_⟩
  rw [report', report₁, report₂]
  exact statuses

theorem reprinted_of_passPrints {rules : Rules} {file : String} {lines : List Line}
    (h : passPrints rules file lines text text') :
    Reprinted rules file lines text ∧
      ∀ written report, passOver rules file lines text = .ok (written, report) → written = text' := by
  obtain ⟨c, p, d, t, hc, hp, hd, ht, printed, reprints⟩ := exists_of_passPrints h
  constructor
  · intro c' p' d' t' hc' hp' hd' ht'
    obtain rfl := Except.ok.inj (hc.symm.trans hc')
    obtain rfl := Except.ok.inj (hp.symm.trans hp')
    obtain rfl := Option.some.inj (hd.symm.trans hd')
    obtain rfl := Except.ok.inj (ht.symm.trans ht')
    exact reprints
  · intro written report hpass
    obtain ⟨p', d', t', hp', hd', ht', hpass'⟩ := exists_passOver hc rules lines
    obtain rfl := Except.ok.inj (hp.symm.trans hp')
    obtain rfl := Option.some.inj (hd.symm.trans hd')
    obtain rfl := Except.ok.inj (ht.symm.trans ht')
    exact (Prod.mk.inj (Except.ok.inj (hpass.symm.trans hpass'))).1.trans printed

end

def patchFiles (text one two : String) : Files where
  nodes := [(["base.toml"], .text text), (["one.txt"], .text one), (["two.txt"], .text two),
    (["both.txt"], .text (one ++ two))]

theorem apart_patchFiles (text one two : String) :
    (patchFiles text one two).locate "two.txt" ≠ (patchFiles text one two).locate "base.toml" := by
  have base : (patchFiles text one two).locate "base.toml" = .ok (.inside ["base.toml"]) := rfl
  have two : (patchFiles text one two).locate "two.txt" = .ok (.inside ["two.txt"]) := rfl
  rw [base, two]
  decide

def passesPrint (text one two text₁ text₂ text' : String) : Bool :=
  ((Toml.Table.read? text).any fun t => GatewayConfig.fields.sectioned t) &&
  decide ((readLines (one ++ two)).map Line.content =
    (readLines one ++ readLines two).map Line.content) &&
  passPrints ({} : Settings).rules "base.toml" (readLines one) text text₁ &&
  passPrints ({} : Settings).rules "base.toml" (readLines two) text₁ text₂ &&
  passPrints ({} : Settings).rules "base.toml" (readLines (one ++ two)) text text'

theorem runs_compose_reset :
    Composes {} "base.toml" false "one.txt" "two.txt" "both.txt"
      (patchFiles "[FileConfig]\nmaxSize = 5\n" "FileConfig.maxSize=7\nExtPlugin.threads=4\n"
        "ExtPlugin.threads=null\nExtPlugin.thread=1\n") := by
  have checked : passesPrint "[FileConfig]\nmaxSize = 5\n"
      "FileConfig.maxSize=7\nExtPlugin.threads=4\n" "ExtPlugin.threads=null\nExtPlugin.thread=1\n"
      "[FileConfig]\nmaxSize = 7\n\n[ExtPlugin]\nthreads = 4\n"
      "[FileConfig]\nmaxSize = 7\n\n[ExtPlugin]\n" "[FileConfig]\nmaxSize = 7\n" := by decide +kernel
  simp only [passesPrint, Bool.and_eq_true, decide_eq_true_eq] at checked
  obtain ⟨⟨⟨⟨sections, hlines⟩, print⟩, printNext⟩, printBoth⟩ := checked
  obtain ⟨c, _, _, _, hc, -⟩ := exists_of_passPrints print
  obtain ⟨hprint, texts⟩ := reprinted_of_passPrints print
  refine runs_compose (.inl rfl) rfl hc sections rfl rfl rfl hlines (apart_patchFiles _ _ _) hprint
    (reprinted_of_passPrints printBoth).1 fun written report hpass => ?_
  obtain rfl := texts written report hpass
  exact (reprinted_of_passPrints printNext).1

end DottedPatch
