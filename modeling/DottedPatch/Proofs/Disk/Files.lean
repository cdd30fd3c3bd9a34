import DottedPatch.Disk.Files
import DottedPatch.Proofs.Except
import DottedPatch.Proofs.Text.Pieces

namespace DottedPatch.Files

variable {fs fs' fs'' : Files} {place next : Place} {names other : List String} {node : Node}
  {name path text : String}

def locate (fs : Files) (path : String) : Except FileFault Place := do
  let (place, names) ← fs.start path
  fs.walk place names

def file? (fs : Files) (names : List String) : Option Node := (fs.node? names).filter (· ≠ .directory)

theorem file?_eq_some_iff :
    fs.file? names = some node ↔ fs.node? names = some node ∧ node ≠ .directory := by
  simp [file?, Option.filter_eq_some_iff]

theorem file?_congr (h : fs'.node? names = fs.node? names) : fs'.file? names = fs.file? names := by
  rw [file?, file?, h]

theorem node?_put (h : names ≠ []) (node : Node) (fs : Files) (other : List String) :
    (fs.put names node).node? other = if other = names then some node else fs.node? other := by
  by_cases hother : other = []
  · rw [node?, if_pos hother, if_neg (hother ▸ Ne.symm h), node?, if_pos hother]
  · simp only [node?, put, if_neg hother, List.find?_append, List.find?_filter]
    split
    · rename_i eq
      subst eq
      have none_left : fs.nodes.find? (fun _ => false) = none := List.find?_eq_none.2 (by simp)
      simp [none_left]
    · rename_i ne
      have others : (fun a : List String × Node => !decide (a.1 = names) && decide (a.1 = other)) =
          fun a => decide (a.1 = other) := by
        funext a
        by_cases ha : a.1 = other
        · simp [ha, ne]
        · simp [ha]
      simp [others, Ne.symm ne]

theorem node?_put_self (h : names ≠ []) : (fs.put names node).node? names = some node := by
  rw [node?_put h, if_pos rfl]

theorem node?_put_of_ne (h : names ≠ []) (hne : other ≠ names) :
    (fs.put names node).node? other = fs.node? other := by
  rw [node?_put h, if_neg hne]

theorem ne_nil_of_file? (h : fs.file? names = some node) : names ≠ [] := by
  rintro rfl
  obtain ⟨hn, hne⟩ := file?_eq_some_iff.1 h
  rw [node?, if_pos rfl] at hn
  exact hne (Option.some.inj hn).symm

def Place.up : Place → Place
  | .outside => .outside
  | .inside names => if names = [] then .outside else .inside names.dropLast

theorem cases_of_step (h : fs.step place name = .ok next) :
    fs.isDirectory place ∧
      ((name = "." ∧ next = place) ∨ (name = ".." ∧ next = place.up) ∨
        ∃ names node, place = .inside names ∧ name ≠ "." ∧ name ≠ ".." ∧
          name.utf8ByteSize ≤ longestName ∧ fs.node? (names ++ [name]) = some node ∧
          next = .inside (names ++ [name])) := by
  unfold step at h
  split at h
  · cases h
  · rename_i directory
    refine ⟨by simpa using directory, ?_⟩
    split at h
    · rename_i stays
      exact .inl ⟨stays, (Except.ok.inj h).symm⟩
    · rename_i moves
      cases place with
      | outside =>
        simp only at h
        split at h
        · rename_i up
          exact .inr (.inl ⟨up, (Except.ok.inj h).symm⟩)
        · cases h
      | inside names =>
        simp only at h
        split at h
        · rename_i up
          exact .inr (.inl ⟨up, (Except.ok.inj h).symm⟩)
        · rename_i down
          split at h
          · cases h
          · rename_i short
            split at h
            · rename_i node found
              exact .inr (.inr ⟨names, node, rfl, moves, down, by omega, found,
                (Except.ok.inj h).symm⟩)
            · cases h

theorem walk_cons {names : List String} :
    fs.walk place (name :: names) = fs.step place name >>= fun next => fs.walk next names :=
  List.foldlM_cons

theorem walk_append {before after : List String} :
    fs.walk place (before ++ after) = fs.walk place before >>= fun next => fs.walk next after :=
  List.foldlM_append

theorem walk_singleton : fs.walk place [name] = fs.step place name := by
  simp [walk]

def Reached (fs : Files) : Place → Prop
  | .outside => True
  | .inside names => ∀ before, before <+: names → before ≠ names → fs.node? before = some .directory

theorem reached_root : fs.Reached (.inside []) :=
  fun _ hbefore hne => absurd (List.prefix_nil.1 hbefore) hne

theorem Reached.up (h : fs.Reached place) : fs.Reached place.up := by
  cases place with
  | outside => trivial
  | inside names =>
    by_cases hnames : names = []
    · simp [Place.up, hnames, Reached]
    · simp only [Place.up, if_neg hnames]
      intro before hbefore hne
      refine h before (hbefore.trans (List.dropLast_prefix names)) ?_
      rintro rfl
      have := hbefore.length_le
      have := List.length_pos_iff.2 hnames
      simp at *
      omega

theorem Reached.isDirectory_up (h : fs.Reached place) : fs.isDirectory place.up := by
  cases place with
  | outside => rfl
  | inside names =>
    by_cases hnames : names = []
    · simp [Place.up, hnames, isDirectory]
    · simp only [Place.up, if_neg hnames, isDirectory, decide_eq_true_eq]
      refine h names.dropLast (List.dropLast_prefix names) fun eq => ?_
      have := congrArg List.length eq
      have := List.length_pos_iff.2 hnames
      simp at *
      omega

theorem Reached.step (h : fs.Reached place) (hstep : fs.step place name = .ok next) :
    fs.Reached next := by
  obtain ⟨directory, ⟨-, rfl⟩ | ⟨-, rfl⟩ | ⟨names, node, rfl, -, -, -, -, rfl⟩⟩ := cases_of_step hstep
  · exact h
  · exact h.up
  · intro before hbefore hne
    rcases List.prefix_concat_iff.1 hbefore with rfl | hbefore
    · exact absurd rfl hne
    · by_cases hwhole : before = names
      · rw [hwhole]
        simpa [isDirectory] using directory
      · exact h before hbefore hwhole

theorem Reached.walk (h : fs.Reached place) (hwalk : fs.walk place names = .ok next) :
    fs.Reached next := by
  induction names generalizing place with
  | nil =>
    cases hwalk
    exact h
  | cons name names ih =>
    rw [walk_cons] at hwalk
    obtain ⟨middle, hstep, hwalk⟩ := ok_of_bind hwalk
    exact ih (h.step hstep) hwalk

theorem reached_of_start {names : List String} (h : fs.start path = .ok (place, names)) :
    fs.Reached place ∧ fs.isDirectory place := by
  unfold start at h
  split at h
  · cases h
  · split at h
    · cases h
    · split at h <;> cases h
      · exact ⟨reached_root, by simp [isDirectory, node?]⟩
      · split
        · exact ⟨trivial, rfl⟩
        · exact ⟨reached_root, by simp [isDirectory, node?]⟩

theorem last_step_of_file (reached : fs.Reached place) (directory : fs.isDirectory place)
    {steps : List String} (hwalk : fs.walk place steps = .ok (.inside names))
    (hfile : fs.file? names = some node) :
    ∃ parents last parent, steps = parents ++ [last] ∧ fs.walk place parents = .ok (.inside parent) ∧
      fs.isDirectory (.inside parent) ∧ last ≠ "." ∧ last ≠ ".." ∧
      last.utf8ByteSize ≤ longestName ∧ names = parent ++ [last] := by
  obtain ⟨hnode, hne⟩ := file?_eq_some_iff.1 hfile
  have no_directory : ¬ fs.isDirectory (.inside names) := by simp [isDirectory, hnode, hne]
  rcases List.eq_nil_or_concat steps with rfl | ⟨parents, last, rfl⟩
  · cases hwalk
    exact absurd directory no_directory
  · rw [List.concat_eq_append, walk_append] at hwalk
    obtain ⟨parent, hparents, hlast⟩ := ok_of_bind hwalk
    rw [walk_singleton] at hlast
    obtain ⟨hparent, ⟨-, rfl⟩ | ⟨-, hup⟩ | ⟨above, _, rfl, hdot, hdots, hshort, -, hnames⟩⟩ :=
      cases_of_step hlast
    · exact absurd hparent no_directory
    · exact absurd (hup ▸ (reached.walk hparents).isDirectory_up) no_directory
    · exact ⟨parents, last, above, by simp, hparents, hparent, hdot, hdots, hshort,
        Place.inside.inj hnames⟩

structure Extends (fs fs' : Files) : Prop where
  rootName : fs'.rootName = fs.rootName
  node : ∀ {names}, (fs.node? names).isSome → (fs'.node? names).isSome
  directory : ∀ {names}, fs.node? names = some .directory → fs'.node? names = some .directory

namespace Extends

theorem refl (fs : Files) : fs.Extends fs := ⟨rfl, id, id⟩

theorem trans (h : fs.Extends fs') (h' : fs'.Extends fs'') : fs.Extends fs'' :=
  ⟨h'.rootName.trans h.rootName, fun hn => h'.node (h.node hn),
    fun hd => h'.directory (h.directory hd)⟩

theorem isDirectory (h : fs.Extends fs') (hd : fs.isDirectory place) : fs'.isDirectory place := by
  cases place with
  | outside => rfl
  | inside names =>
    simp only [Files.isDirectory, decide_eq_true_eq] at hd ⊢
    exact h.directory hd

theorem step (h : fs.Extends fs') (hstep : fs.step place name = .ok next) :
    fs'.step place name = .ok next := by
  obtain ⟨directory, ⟨rfl, rfl⟩ | ⟨rfl, rfl⟩ | ⟨names, node, rfl, hdot, hdots, hshort, hn, rfl⟩⟩ :=
    cases_of_step hstep
  · simp [Files.step, h.isDirectory directory]
  · cases place <;> simp [Files.step, h.isDirectory directory, Place.up]
  · obtain ⟨node', hn'⟩ := Option.isSome_iff_exists.1 (h.node (Option.isSome_of_eq_some hn))
    simp [Files.step, h.isDirectory directory, hdot, hdots, hn', Nat.not_lt.2 hshort]

theorem walk (h : fs.Extends fs') (hwalk : fs.walk place names = .ok next) :
    fs'.walk place names = .ok next := by
  induction names generalizing place with
  | nil => exact hwalk
  | cons name names ih =>
    rw [walk_cons] at hwalk ⊢
    obtain ⟨middle, hstep, hwalk⟩ := ok_of_bind hwalk
    rw [h.step hstep]
    exact ih hwalk

theorem start (h : fs.Extends fs') : fs'.start path = fs.start path := by
  simp only [Files.start, belowRoot?, h.rootName]

theorem locate (h : fs.Extends fs') (hl : fs.locate path = .ok place) : fs'.locate path = .ok place := by
  obtain ⟨⟨from_, names⟩, hstart, hwalk⟩ := ok_of_bind hl
  rw [Files.locate, h.start, hstart]
  exact h.walk hwalk

end Extends

theorem extends_put_directory (h : names ≠ []) : fs.Extends (fs.put names .directory) where
  rootName := rfl
  node := by
    intro other hother
    rw [node?_put h]
    split
    · rfl
    · exact hother
  directory := by
    intro other hother
    rw [node?_put h]
    split
    · rfl
    · exact hother

theorem extends_put_file (h : fs.file? names = some node) (node' : Node) :
    fs.Extends (fs.put names node') where
  rootName := rfl
  node := by
    intro other hother
    rw [node?_put (ne_nil_of_file? h)]
    split
    · rfl
    · exact hother
  directory := by
    intro other hother
    rw [node?_put_of_ne (ne_nil_of_file? h)]
    · exact hother
    · rintro rfl
      obtain ⟨hn, hne⟩ := file?_eq_some_iff.1 h
      exact hne (Option.some.inj (hn.symm.trans hother))

theorem read_eq_ok_iff :
    fs.read path = .ok text ↔
      ∃ names, fs.locate path = .ok (.inside names) ∧ fs.node? names = some (.text text) := by
  simp only [read, locate]
  cases fs.start path with
  | error e => simp [bind, Except.bind]
  | ok s =>
    obtain ⟨place, names⟩ := s
    simp only [bind, Except.bind]
    cases fs.walk place names with
    | error e => simp
    | ok place =>
      cases place with
      | outside => simp [throw, throwThe, MonadExceptOf.throw]
      | inside names =>
        rcases hn : fs.node? names with _ | node
        · simp [hn, throw, throwThe, MonadExceptOf.throw]
        · cases node <;> simp [hn, throw, throwThe, MonadExceptOf.throw, pure, Except.pure]

theorem file?_of_text (h : fs.node? names = some (.text text)) : fs.file? names = some (.text text) :=
  file?_eq_some_iff.2 ⟨h, by simp⟩

structure Deepens (fs fs' : Files) : Prop where
  extended : fs.Extends fs'
  files : ∀ names, fs'.file? names = fs.file? names

namespace Deepens

theorem refl (fs : Files) : fs.Deepens fs := ⟨.refl fs, fun _ => rfl⟩

theorem trans (h : fs.Deepens fs') (h' : fs'.Deepens fs'') : fs.Deepens fs'' :=
  ⟨h.extended.trans h'.extended, fun names => (h'.files names).trans (h.files names)⟩

end Deepens

theorem deepens_put_directory (h : names ≠ []) (missing : fs.node? names = none) :
    fs.Deepens (fs.put names .directory) where
  extended := extends_put_directory h
  files := by
    intro other
    by_cases hother : other = names
    · subst hother
      simp [file?, node?_put_self h, missing]
    · exact file?_congr (node?_put_of_ne h hother)

theorem missing_of_step (h : fs.step (.inside names) name = .error .notFound) :
    fs.node? (names ++ [name]) = none := by
  unfold step at h
  split at h
  · cases h
  · split at h
    · cases h
    · simp only at h
      split at h
      · cases h
      · split at h
        · cases h
        · split at h
          · cases h
          · assumption

theorem deepens_of_makeStep (h : makeStep (fs, place) name = .ok (fs', next)) : fs.Deepens fs' := by
  simp only [makeStep] at h
  split at h
  · cases h
    exact .refl _
  · rename_i missing
    cases h
    exact deepens_put_directory (by simp) (missing_of_step missing)
  · cases h

theorem deepens_of_makeSteps {names : List String}
    (h : names.foldlM makeStep (fs, place) = .ok (fs', next)) : fs.Deepens fs' := by
  induction names generalizing fs place with
  | nil =>
    cases h
    exact .refl _
  | cons name names ih =>
    rw [List.foldlM_cons] at h
    obtain ⟨⟨middle, inner⟩, hstep, hrest⟩ := ok_of_bind h
    exact (deepens_of_makeStep hstep).trans (ih hrest)

theorem deepens_of_makeDirectories (h : fs.makeDirectories path = .ok fs') : fs.Deepens fs' := by
  obtain ⟨⟨place, names⟩, -, h⟩ := ok_of_bind h
  obtain ⟨⟨made, last⟩, hsteps, h⟩ := ok_of_bind h
  dsimp only at h hsteps
  split at h
  · cases h
    exact deepens_of_makeSteps hsteps
  · cases h

theorem steps_of_endsInSlash (h : FilePath.endsInSlash path) :
    FilePath.steps path = [] ∨ (FilePath.steps path).getLast? = some "." := by
  obtain ⟨before, hbefore⟩ : ∃ before, path.toList = before ++ ['/'] := by
    simp only [FilePath.endsInSlash, decide_eq_true_eq] at h
    exact List.getLast?_eq_some_iff.1 h
  have last : (Text.splitOn '/' path).getLast? = some "" := by
    rw [Text.splitOn, hbefore, List.splitOn_append_cons_self]
    simp
  simp only [FilePath.steps, last, true_and]
  split
  · right
    simp
  · exact .inl (Classical.not_not.1 ‹_›)

theorem belowRoot?_endsInSlash {below : String} (hb : fs.belowRoot? path = some below)
    (h : FilePath.endsInSlash path) : below = "" ∨ FilePath.endsInSlash below := by
  unfold belowRoot? at hb
  split at hb
  · cases hb
  · split at hb
    · exact .inl (Option.some.inj hb).symm
    · obtain ⟨rest, hrest, rfl⟩ := Option.map_eq_some_iff.1 hb
      by_cases empty : rest = []
      · exact .inl (by rw [empty])
      · right
        rw [FilePath.endsInSlash, ← Text.append_of_dropLead? hrest, List.getLast?_append,
          List.getLast?_eq_some_getLast empty, Option.some_or, ← List.getLast?_eq_some_getLast] at h
        rwa [FilePath.endsInSlash, String.toList_ofList]

theorem getLast?_of_start {steps : List String} (h : fs.start path = .ok (place, steps))
    (slash : FilePath.endsInSlash path) : steps = [] ∨ steps.getLast? = some "." := by
  unfold start at h
  split at h
  · cases h
  · split at h
    · cases h
    · split at h <;> cases h
      · rename_i below hbelow
        rcases belowRoot?_endsInSlash hbelow slash with rfl | slash
        · left
          decide
        · exact steps_of_endsInSlash slash
      · exact steps_of_endsInSlash slash

theorem write_of_locate (deepens : fs.Deepens fs') (hl : fs.locate path = .ok (.inside names))
    (hfile : fs.file? names = some node) (text : String) :
    fs'.write path text = .ok (fs'.put names (.text text)) := by
  obtain ⟨⟨place, steps⟩, hstart, hwalk⟩ := ok_of_bind hl
  obtain ⟨reached, directory⟩ := reached_of_start hstart
  obtain ⟨parents, last, parent, rfl, hparents, hparent, hdot, hdots, hshort, rfl⟩ :=
    last_step_of_file reached directory hwalk hfile
  have no_slash : FilePath.endsInSlash path = false := by
    rw [Bool.eq_false_iff]
    intro slash
    rcases getLast?_of_start hstart slash with hnil | hlast
    · simp at hnil
    · exact hdot (by simpa using hlast)
  have hnode : fs'.node? (parent ++ [last]) = some node :=
    (file?_eq_some_iff.1 ((deepens.files _).trans hfile)).1
  have hne : node ≠ .directory := (file?_eq_some_iff.1 hfile).2
  simp only [write, deepens.extended.start, hstart, bind, Except.bind, List.getLast?_concat, no_slash,
    Bool.false_eq_true, if_false, List.dropLast_concat, deepens.extended.walk hparents,
    deepens.extended.isDirectory hparent, Bool.not_true, hdot, hdots, or_self, if_neg (Nat.not_lt.2 hshort), hnode]
  cases node <;> first | rfl | exact absurd rfl hne

/-- One file has another text. There may be more directories; no other file is new, gone or changed. -/
structure Rewritten (fs : Files) (path text : String) (fs' : Files) : Prop where
  extended : fs.Extends fs'
  read : fs'.read path = .ok text
  others : ∃ names, fs.locate path = .ok (.inside names) ∧
    ∀ other, other ≠ names → fs'.file? other = fs.file? other

theorem Rewritten.read_of_apart {new : String} (h : fs.Rewritten path new fs') {other : String}
    (hread : fs.read other = .ok text) (apart : fs.locate other ≠ fs.locate path) :
    fs'.read other = .ok text := by
  obtain ⟨names, hl, hnode⟩ := read_eq_ok_iff.1 hread
  obtain ⟨written, hw, kept⟩ := h.others
  have ne : names ≠ written := by
    rintro rfl
    exact apart (hl.trans hw.symm)
  have hfile := (kept names ne).trans (file?_of_text hnode)
  exact read_eq_ok_iff.2 ⟨names, h.extended.locate hl, (file?_eq_some_iff.1 hfile).1⟩

theorem rewritten_of_read {old : String} (hread : fs.read path = .ok old) (deepens : fs.Deepens fs')
    (text : String) : ∃ fs'', fs'.write path text = .ok fs'' ∧ fs.Rewritten path text fs'' := by
  obtain ⟨names, hl, hnode⟩ := read_eq_ok_iff.1 hread
  have hfile := file?_of_text hnode
  have extended := deepens.extended.trans (extends_put_file ((deepens.files names).trans hfile) (.text text))
  refine ⟨_, write_of_locate deepens hl hfile text, extended, ?_, names, hl, ?_⟩
  · exact read_eq_ok_iff.2 ⟨names, extended.locate hl, node?_put_self (ne_nil_of_file? hfile)⟩
  · intro other hother
    rw [file?_congr (node?_put_of_ne (ne_nil_of_file? hfile) hother), deepens.files]

end DottedPatch.Files
