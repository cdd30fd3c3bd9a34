import DottedPatch.Action.Run
import DottedPatch.Proofs.Config.Places
import DottedPatch.Proofs.Disk.Commands
import DottedPatch.Proofs.Disk.Files
import DottedPatch.Proofs.Gateway.Passes

namespace DottedPatch

open Config Gateway Patch

variable {fs fs' : Files}

theorem exists_reverting [Machine] (report : Report) (c : GatewayConfig) :
    ∃ reverted, reverting report c = .ok reverted := by
  obtain ⟨patched, hp⟩ := exists_toTable isTable_shape c
  obtain ⟨defaults, hd⟩ := exists_toTable isTable_shape (default : GatewayConfig)
  have hd : toTable (Configuration.initial : GatewayConfig) = .ok defaults := hd
  rw [reverting, hp, hd]
  exact ⟨_, rfl⟩

theorem exists_text (c : GatewayConfig) : ∃ text, c.text = .ok text := ⟨_, rfl⟩

theorem leads_makeParent (path : String) (fs : Files) :
    (∃ e, Command.Leads (makeParent path) fs (.error e) fs) ∨
      ∃ fs', fs.Deepens fs' ∧ Command.Leads (makeParent path) fs (.ok ()) fs' := by
  rw [makeParent]
  cases (FilePath.parent? path).filter (· ≠ "") with
  | none => exact .inr ⟨fs, .refl fs, .pure () fs⟩
  | some directory =>
    rcases Command.Leads.makeDirectories directory fs with fails | ⟨fs', made, leads⟩
    · exact .inl fails
    · exact .inr ⟨fs', Files.deepens_of_makeDirectories made, leads⟩

theorem leads_persist [Machine] {path old text : String} {made : Files} {report : Report} {c : GatewayConfig}
    (hread : fs.read path = .ok old) (hw : writeBack old path report c = .ok text)
    (deepens : fs.Deepens made) (hmade : Command.Leads (makeParent path) fs (.ok ()) made) :
    ∃ reverted fs', Command.Leads (persist path report c) fs (.ok reverted) fs' ∧
      fs.Rewritten path text fs' := by
  have edited : Command.Leads (.ofExcept (writeBack old path report c)) fs (.ok text) fs :=
    hw ▸ .ofExcept _ fs
  obtain ⟨reverted, hreverted⟩ := exists_reverting report c
  obtain ⟨fs', hwrite, rewritten⟩ := Files.rewritten_of_read hread deepens text
  have answered : Command.Leads (.ofExcept (reverting report c)) fs' (.ok reverted) fs' :=
    hreverted ▸ .ofExcept _ fs'
  refine ⟨reverted, fs', ?_, rewritten⟩
  exact (Command.Leads.readFile? hread).bind (edited.bind (hmade.bind
    ((Command.Leads.writeFile hwrite).bind ((Command.Leads.note _ fs').bind (answered.bind
      ((Command.Leads.noteAll _ fs').bind (.pure reverted fs')))))))

theorem leads_persist_or [Machine] {path old : String} (hread : fs.read path = .ok old) (report : Report)
    (c : GatewayConfig) :
    (∃ e, Command.Leads (persist path report c) fs (.error e) fs) ∨
      ∃ text reverted fs', Command.Leads (persist path report c) fs (.ok reverted) fs' ∧
        fs.Rewritten path text fs' := by
  have read := Command.Leads.readFile? hread
  cases hw : writeBack old path report c with
  | error e => exact .inl ⟨e, read.bind (.bind_error (hw ▸ .ofExcept _ fs))⟩
  | ok text =>
    rcases leads_makeParent path fs with ⟨e, fails⟩ | ⟨made, deepens, leads⟩
    · have edited : Command.Leads (.ofExcept (writeBack old path report c)) fs (.ok text) fs :=
        hw ▸ .ofExcept _ fs
      exact .inl ⟨e, read.bind (edited.bind (.bind_error fails))⟩
    · exact .inr ⟨text, leads_persist hread hw deepens leads⟩

theorem leads_loadBase {α : Type} [Configuration α] {path text : String} {strict : Bool} {c : α}
    (hread : fs.read path = .ok text) (hbase : readBase text path strict = .ok c) :
    Command.Leads (loadBase path strict) fs (.ok c) fs := by
  have decoded : Command.Leads (.ofExcept (readBase text path strict)) fs (.ok c) fs :=
    hbase ▸ .ofExcept _ fs
  exact (Command.Leads.readFile_ok hread).bind (decoded.bind ((Command.Leads.note _ fs).bind (.pure c fs)))

theorem leads_loadBase_or {α : Type} [Configuration α] (path : String) (strict : Bool) (fs : Files) :
    (∃ e, Command.Leads (loadBase (α := α) path strict) fs (.error e) fs) ∨
      ∃ text c, fs.read path = .ok text ∧ readBase (α := α) text path strict = .ok c := by
  cases hread : fs.read path with
  | error fault => exact .inl ⟨_, .bind_error (.readFile_error hread)⟩
  | ok text =>
    cases hbase : readBase (α := α) text path strict with
    | error e => exact .inl ⟨e, (Command.Leads.readFile_ok hread).bind (.bind_error (hbase ▸ .ofExcept _ fs))⟩
    | ok c => exact .inr ⟨text, c, rfl, hbase⟩

theorem leads_printed (printConfig : Bool) (c : GatewayConfig) (fs : Files) :
    ∃ config, Command.Leads (Action.printed printConfig c) fs (.ok config) fs := by
  cases printConfig with
  | false => exact ⟨none, .pure none fs⟩
  | true =>
    obtain ⟨text, htext⟩ := exists_text c
    have printed : Command.Leads (.ofExcept c.text) fs (.ok text) fs := htext ▸ .ofExcept _ fs
    exact ⟨some text, printed.bind (.pure (some text) fs)⟩

section

variable [Machine] {settings : Settings} {base patch old lines : String} {printConfig : Bool}
  {c : GatewayConfig} {patched : Patched GatewayConfig}

theorem leads_passed (hread : fs.read base = .ok old) (hbase : readBase old base true = .ok c)
    (hlines : fs.read patch = .ok lines)
    (hpass : (applyTo? schema settings.rules (readLines lines) c).1 = .ok patched) :
    Command.Leads (Action.passed settings patch (some base)) fs (.ok patched) fs := by
  have result : Command.Leads (.ofExcept (applyTo? schema settings.rules (readLines lines) c).1) fs
      (.ok patched) fs := hpass ▸ .ofExcept _ fs
  exact (leads_loadBase hread hbase).bind ((Command.Leads.readFile_ok hlines).bind
    ((Command.Leads.noteAll _ fs).bind result))

theorem leads_passed_or (settings : Settings) (base patch : String) (fs : Files) :
    (∃ e, Command.Leads (Action.passed settings patch (some base)) fs (.error e) fs) ∨
      ∃ old patched, fs.read base = .ok old ∧
        Command.Leads (Action.passed settings patch (some base)) fs (.ok patched) fs := by
  rcases leads_loadBase_or (α := GatewayConfig) base true fs with ⟨e, fails⟩ | ⟨old, c, hread, hbase⟩
  · exact .inl ⟨e, .bind_error fails⟩
  have loads := leads_loadBase hread hbase
  cases hlines : fs.read patch with
  | error fault => exact .inl ⟨_, loads.bind (.bind_error (.readFile_error hlines))⟩
  | ok lines =>
    cases hpass : (applyTo? schema settings.rules (readLines lines) c).1 with
    | error e =>
      have result : Command.Leads (.ofExcept (applyTo? schema settings.rules (readLines lines) c).1) fs
          (.error e) fs := hpass ▸ .ofExcept _ fs
      exact .inl ⟨e, loads.bind ((Command.Leads.readFile_ok hlines).bind
        ((Command.Leads.noteAll _ fs).bind result))⟩
    | ok patched => exact .inr ⟨old, patched, hread, leads_passed hread hbase hlines hpass⟩

theorem leads_runApply {reverted : List String}
    (hpassed : Command.Leads (Action.passed settings patch (some base)) fs (.ok patched) fs)
    (hsave : Command.Leads (persist base patched.report patched.config) fs (.ok reverted) fs') :
    ∃ a, a.report = patched.report ∧
      Command.Leads (Action.runApply settings patch (some base) true printConfig) fs (.ok a) fs' := by
  obtain ⟨config, hprinted⟩ := leads_printed printConfig patched.config fs'
  let answer : PassAnswer :=
    { report := patched.report
      rendered := patched.report.render settings.report.format settings.report.onlyRejected
      config, written := some base, reverted }
  have saved : Command.Leads (Action.saved (some base) true patched.report patched.config) fs
      (.ok (some base, reverted)) fs' := hsave.bind (.pure (some base, reverted) fs')
  refine ⟨answer, rfl, ?_⟩
  simp only [Action.runApply, Option.isNone_some, Bool.and_false, Bool.false_eq_true, if_false]
  exact hpassed.bind (saved.bind (hprinted.bind (.pure answer fs')))

end

def Untouching {α : Type} (c : Command (StateM Files) α) : Prop :=
  ∀ fs, ∃ result, Command.Leads c fs result fs

namespace Untouching

variable {α β : Type}

theorem pure (a : α) : Untouching (Pure.pure a) := fun fs => ⟨.ok a, .pure a fs⟩

theorem ofExcept (result : Except Failure α) : Untouching (Command.ofExcept result) :=
  fun fs => ⟨result, .ofExcept result fs⟩

theorem bind {c : Command (StateM Files) α} {k : α → Command (StateM Files) β} (hc : Untouching c)
    (hk : ∀ a, Untouching (k a)) : Untouching (c >>= k) := by
  intro fs
  obtain ⟨result, hc⟩ := hc fs
  cases result with
  | error e => exact ⟨.error e, hc.bind_error⟩
  | ok a =>
    obtain ⟨last, hk⟩ := hk a fs
    exact ⟨last, hc.bind hk⟩

theorem readFile (path : String) : Untouching (Command.readFile path) := by
  intro fs
  cases h : fs.read path with
  | ok text => exact ⟨.ok text, .readFile_ok h⟩
  | error fault => exact ⟨.error (.file path fault), .readFile_error h⟩

theorem startingConfig [Machine] (base : Option String) : Untouching (Action.startingConfig base) := by
  intro fs
  cases base with
  | none => exact ⟨.ok default, .pure default fs⟩
  | some path =>
    rcases leads_loadBase_or (α := GatewayConfig) path true fs with ⟨e, fails⟩ | ⟨text, c, hread, hbase⟩
    · exact ⟨.error e, fails⟩
    · exact ⟨.ok c, leads_loadBase hread hbase⟩

theorem passed [Machine] (settings : Settings) (patch : String) (base : Option String) :
    Untouching (Action.passed settings patch base) :=
  (startingConfig base).bind fun _ => (readFile patch).bind fun _ =>
    bind (fun fs => ⟨.ok (), .noteAll _ fs⟩) fun _ => ofExcept _

theorem printed (printConfig : Bool) (c : GatewayConfig) : Untouching (Action.printed printConfig c) := by
  intro fs
  obtain ⟨config, leads⟩ := leads_printed printConfig c fs
  exact ⟨.ok config, leads⟩

end Untouching

def Action.saves : Action → Option String
  | .apply _ base true _ => base
  | _ => none

section

variable [Machine]

theorem Untouching.runApply (settings : Settings) (patch : String) {base : Option String} {write : Bool}
    (printConfig : Bool) (h : write = false ∨ base = none) :
    Untouching (Action.runApply settings patch base write printConfig) := by
  rw [Action.runApply]
  cases write with
  | false =>
    refine (passed settings patch base).bind fun patched => ?_
    refine .bind ?_ fun _ => (printed printConfig patched.config).bind fun _ => .pure _
    cases base <;> exact .pure (none, [])
  | true =>
    obtain rfl : base = none := h.resolve_left Bool.noConfusion
    exact fun fs => ⟨.error .noBaseFile, .throw _ fs⟩

theorem untouching_run (settings : Settings) {action : Action} (h : action.saves = none) :
    Untouching (Action.run settings action) := by
  cases action with
  | apply patch base write printConfig =>
    refine (Untouching.runApply settings patch printConfig ?_).bind fun a => .pure (Answer.patched a)
    cases write with
    | false => exact .inl rfl
    | true => exact .inr h
  | list base =>
    exact (Untouching.startingConfig base).bind fun _ => (Untouching.ofExcept _).bind fun _ => .pure _
  | get key base =>
    exact (Untouching.startingConfig base).bind fun _ => (Untouching.ofExcept _).bind fun _ => .pure _
  | schema => exact .pure _
  | template => exact .pure _

def Action.runOn (settings : Settings) (action : Action) (fs : Files) :
    Except Failure Answer × Files :=
  let ((result, _), fs') := (Command.outcome (m := StateM Files) (action.run settings)).run fs
  (result, fs')

theorem runOn_of_leads {settings : Settings} {action : Action} {result : Except Failure Answer}
    (h : Command.Leads (action.run settings) fs result fs') :
    action.runOn settings fs = (result, fs') := by
  obtain ⟨trail, h⟩ := h.outcome
  rw [Action.runOn, h]

theorem leads_run_of_not_passed {settings : Settings} {patch base : String} {printConfig : Bool}
    {e : Failure} (h : Command.Leads (Action.passed settings patch (some base)) fs (.error e) fs) :
    Command.Leads (Action.run settings (.apply patch (some base) true printConfig)) fs (.error e) fs := by
  refine .bind_error ?_
  simp only [Action.runApply, Option.isNone_some, Bool.and_false, Bool.false_eq_true, if_false]
  exact h.bind_error

theorem leads_run_saving (settings : Settings) (patch base : String) (printConfig : Bool) (fs : Files) :
    (∃ e, Command.Leads (Action.run settings (.apply patch (some base) true printConfig)) fs (.error e) fs) ∨
      ∃ a text fs', fs.Rewritten base text fs' ∧
        Command.Leads (Action.run settings (.apply patch (some base) true printConfig)) fs
          (.ok (.patched a)) fs' := by
  rcases leads_passed_or settings base patch fs with ⟨e, fails⟩ | ⟨old, patched, hread, hpassed⟩
  · exact .inl ⟨e, leads_run_of_not_passed fails⟩
  · rcases leads_persist_or hread patched.report patched.config with
      ⟨e, fails⟩ | ⟨text, reverted, fs', hsave, rewritten⟩
    · refine .inl ⟨e, .bind_error ?_⟩
      simp only [Action.runApply, Option.isNone_some, Bool.and_false, Bool.false_eq_true, if_false]
      exact hpassed.bind (.bind_error (.bind_error fails))
    · obtain ⟨a, -, leads⟩ := leads_runApply hpassed hsave
      exact .inr ⟨a, text, fs', rewritten, leads.bind (.pure _ fs')⟩

theorem leads_run (settings : Settings) (action : Action) (fs : Files) :
    ∃ result fs', Command.Leads (action.run settings) fs result fs' ∧
      ((fs' = fs ∧ (action.saves = none ∨ ∃ e, result = .error e)) ∨
        ∃ base text answer, action.saves = some base ∧ result = .ok answer ∧ fs.Rewritten base text fs') := by
  cases h : action.saves with
  | none =>
    obtain ⟨result, leads⟩ := untouching_run settings h fs
    exact ⟨result, fs, leads, .inl ⟨rfl, .inl rfl⟩⟩
  | some base =>
    obtain ⟨patch, printConfig, rfl⟩ : ∃ patch printConfig, action = .apply patch (some base) true printConfig := by
      cases action with
      | apply patch base' write printConfig =>
        cases write with
        | false => cases h
        | true => exact ⟨patch, printConfig, by rw [show base' = some base from h]⟩
      | _ => cases h
    rcases leads_run_saving settings patch base printConfig fs with
      ⟨e, fails⟩ | ⟨a, text, fs', rewritten, leads⟩
    · exact ⟨_, fs, fails, .inl ⟨rfl, .inr ⟨e, rfl⟩⟩⟩
    · exact ⟨_, fs', leads, .inr ⟨base, text, _, rfl, rfl, rewritten⟩⟩

/-- A run that fails leaves all files as they were, and so does one that has no base file to change.
One that changes its base file changes no other file. Once the file is saved, nothing can fail. -/
theorem run_atomic (settings : Settings) (action : Action) (fs : Files) :
    (∀ e, (action.runOn settings fs).1 = .error e → (action.runOn settings fs).2 = fs) ∧
    (action.saves = none → (action.runOn settings fs).2 = fs) ∧
    (∀ base answer, action.saves = some base → (action.runOn settings fs).1 = .ok answer →
      ∃ text, fs.Rewritten base text (action.runOn settings fs).2) ∧
    (∀ (report : Report) (c : GatewayConfig), ∃ reverted, reverting report c = .ok reverted) ∧
    ∀ c : GatewayConfig, ∃ text, c.text = .ok text := by
  obtain ⟨result, fs', leads, effect⟩ := leads_run settings action fs
  rw [runOn_of_leads leads]
  refine ⟨?_, ?_, ?_, exists_reverting, exists_text⟩
  · rintro e rfl
    obtain ⟨same, -⟩ | ⟨_, _, _, -, hresult, -⟩ := effect
    · exact same
    · cases hresult
  · intro h
    obtain ⟨same, -⟩ | ⟨_, _, _, hsaves, -, -⟩ := effect
    · exact same
    · cases h.symm.trans hsaves
  · rintro base answer h rfl
    obtain ⟨-, none_or_error⟩ | ⟨_, text, _, hsaves, -, rewritten⟩ := effect
    · obtain hnone | ⟨e, he⟩ := none_or_error
      · cases hnone.symm.trans h
      · cases he
    · obtain rfl := Option.some.inj (h.symm.trans hsaves)
      exact ⟨text, rewritten⟩

end

end DottedPatch
