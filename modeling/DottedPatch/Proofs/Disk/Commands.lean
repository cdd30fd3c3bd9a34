import DottedPatch.Disk.Files

namespace DottedPatch.Command

open Patch (Event)

variable {α β : Type} {fs fs' fs'' : Files} {e : Failure} {a : α}

/-- Carried out on some files, the command has a result and leaves some files, whatever the trail
before it. -/
def Leads (c : Command (StateM Files) α) (fs : Files) (result : Except Failure α) (fs' : Files) : Prop :=
  ∀ trail, ∃ trail', ((ExceptT.run c).run trail).run fs = ((result, trail'), fs')

namespace Leads

variable {c : Command (StateM Files) α} {k : α → Command (StateM Files) β} {result : Except Failure α}
  {last : Except Failure β}

theorem outcome (h : Leads c fs result fs') :
    ∃ trail, (Command.outcome c).run fs = ((result, trail), fs') := h []

theorem pure (a : α) (fs : Files) : Leads (Pure.pure a) fs (.ok a) fs := fun trail => ⟨trail, rfl⟩

theorem throw (e : Failure) (fs : Files) : Leads (α := α) (throw e) fs (.error e) fs :=
  fun trail => ⟨trail, rfl⟩

theorem bind (h : Leads c fs (.ok a) fs') (hk : Leads (k a) fs' last fs'') :
    Leads (c >>= k) fs last fs'' := by
  intro trail
  obtain ⟨middle, h⟩ := h trail
  obtain ⟨trail', hk⟩ := hk middle
  refine ⟨trail', ?_⟩
  rw [ExceptT.run_bind, StateT.run_bind, StateT.run_bind, h]
  exact hk

theorem bind_error (h : Leads c fs (.error e) fs') : Leads (c >>= k) fs (.error e) fs' := by
  intro trail
  obtain ⟨trail', h⟩ := h trail
  refine ⟨trail', ?_⟩
  rw [ExceptT.run_bind, StateT.run_bind, StateT.run_bind, h]
  rfl

theorem note (event : Event) (fs : Files) : Leads (note event) fs (.ok ()) fs :=
  fun trail => ⟨trail ++ [event], rfl⟩

theorem noteAll (events : List Event) (fs : Files) : Leads (noteAll events) fs (.ok ()) fs :=
  fun trail => ⟨trail ++ events, rfl⟩

theorem ofExcept (result : Except Failure α) (fs : Files) : Leads (ofExcept result) fs result fs := by
  cases result with
  | ok a => exact pure a fs
  | error e => exact throw e fs

theorem lift {step : StateM Files α} (h : step fs = (a, fs')) : Leads (liftM step) fs (.ok a) fs' :=
  fun trail => ⟨trail, congrArg (fun r : α × Files => ((Except.ok r.1, trail), r.2)) h⟩

theorem readFile_ok {path text : String} (h : fs.read path = .ok text) :
    Leads (readFile path) fs (.ok text) fs := by
  have found : (Disk.read path : StateM Files _) fs = (.ok text, fs) := congrArg (·, fs) h
  exact (lift found).bind (pure text fs)

theorem readFile_error {path : String} {fault : FileFault} (h : fs.read path = .error fault) :
    Leads (readFile path) fs (.error (.file path fault)) fs := by
  have failed : (Disk.read path : StateM Files _) fs = (.error fault, fs) := congrArg (·, fs) h
  exact (lift failed).bind (throw _ fs)

theorem readFile? {path text : String} (h : fs.read path = .ok text) :
    Leads (readFile? path) fs (.ok (some text)) fs := by
  have found : (Disk.read path : StateM Files _) fs = (.ok text, fs) := congrArg (·, fs) h
  exact (lift found).bind (pure (some text) fs)

theorem writeFile {path text : String} (h : fs.write path text = .ok fs') :
    Leads (writeFile path text) fs (.ok ()) fs' := by
  have changed : (Disk.write path text : StateM Files _) fs = (.ok (), fs') := by
    simp only [Disk.write, Files.changing, h]
  exact (lift changed).bind (pure () fs')

theorem makeDirectories_ok {path : String} (h : fs.makeDirectories path = .ok fs') :
    Leads (makeDirectories path) fs (.ok ()) fs' := by
  have made : (Disk.makeDirectories path : StateM Files _) fs = (.ok (), fs') := by
    simp only [Disk.makeDirectories, Files.changing, h]
  exact (lift made).bind (pure () fs')

theorem makeDirectories (path : String) (fs : Files) :
    (∃ e, Leads (makeDirectories path) fs (.error e) fs) ∨
      ∃ fs', fs.makeDirectories path = .ok fs' ∧ Leads (makeDirectories path) fs (.ok ()) fs' := by
  cases h : fs.makeDirectories path with
  | ok fs' => exact .inr ⟨fs', rfl, makeDirectories_ok h⟩
  | error fault =>
    have failed : (Disk.makeDirectories path : StateM Files _) fs = (.error fault, fs) := by
      simp only [Disk.makeDirectories, Files.changing, h]
    exact .inl ⟨.file path fault, (lift failed).bind (throw _ fs)⟩

end Leads

end DottedPatch.Command
