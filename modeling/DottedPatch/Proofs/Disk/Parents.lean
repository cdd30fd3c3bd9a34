import DottedPatch.Proofs.Disk.Files
import DottedPatch.Proofs.Text.Pieces

namespace DottedPatch

namespace FilePath

def Moves (name : String) : Prop := name ≠ "" ∧ name ≠ "."

instance (name : String) : Decidable (Moves name) := inferInstanceAs (Decidable (_ ∧ _))

theorem steps_join {names : List String} (hn : names ≠ [])
    (h : ∀ name ∈ names, name ≠ "" ∧ '/' ∉ name.toList) : steps (Text.join '/' names) = names := by
  have pieces := Text.splitOn_join hn fun name hname => (h name hname).2
  have all : names.filter (· ≠ "") = names := List.filter_eq_self.2 (by simpa using fun name hname => (h name hname).1)
  have last : names.getLast? ≠ some "" := fun hlast => (h "" (List.mem_of_getLast? hlast)).1 rfl
  simp only [steps, pieces, last, false_and, if_false]
  exact all

theorem pieces_of_steps {path last : String} {parents : List String}
    (h : steps path = parents ++ [last]) (hlast : last ≠ ".") :
    ∃ before, Text.splitOn '/' path = before ++ [last] ∧ parents = before.filter (· ≠ "") ∧ last ≠ "" := by
  obtain ⟨before, final, hpieces⟩ :=
    (List.eq_nil_or_concat (Text.splitOn '/' path)).resolve_left (Text.splitOn_ne_nil _ _)
  rw [List.concat_eq_append] at hpieces
  simp only [steps, hpieces] at h
  split at h
  · exact absurd (List.append_inj_right' h rfl) (by simpa using hlast.symm)
  · rename_i settled
    have hfinal : final ≠ "" := by
      rintro rfl
      refine settled ⟨by simp, ?_⟩
      rw [h]
      simp
    have kept : [final].filter (· ≠ "") = [final] := by simp [hfinal]
    rw [List.filter_append, kept] at h
    obtain ⟨hbefore, hsame⟩ := List.append_inj' h rfl
    obtain rfl := List.singleton_inj.1 hsame
    exact ⟨before, hpieces, hbefore.symm, hfinal⟩

theorem parent?_of_pieces {path first last : String} {before : List String}
    (h : Text.splitOn '/' path = first :: before ++ [last]) (hlast : Moves last)
    (hne : first :: before.filter Moves ≠ [""]) :
    parent? path = some (Text.join '/' (first :: before.filter Moves)) := by
  have names : (settledNames path).dropLast = first :: before.filter Moves := by
    have kept : [last].filter (fun name => decide (Moves name)) = [last] := by simp [hlast]
    have split : (before ++ [last]).filter (fun name => decide (Moves name)) =
        before.filter (fun name => decide (Moves name)) ++ [last] := by
      rw [List.filter_append, kept]
    simp only [settledNames, h, List.cons_append]
    rw [show (fun name => decide (name ≠ "" ∧ name ≠ ".")) = fun name => decide (Moves name) from rfl,
      split, ← List.cons_append, List.dropLast_concat]
  rw [parent?, names]
  split
  · rename_i eq
    cases eq
  · rename_i eq
    exact absurd eq hne
  · rfl

theorem parent?_of_piece {path last : String} (h : Text.splitOn '/' path = [last]) :
    parent? path = none := by
  simp [parent?, settledNames, h]

end FilePath

namespace Files

variable {fs : Files} {place next : Place} {names : List String} {node : Node} {path directory : String}

theorem walk_moves (h : fs.walk place (names.filter (· ≠ "")) = .ok next) :
    fs.walk place (names.filter FilePath.Moves) = .ok next := by
  induction names generalizing place with
  | nil => exact h
  | cons name names ih =>
    by_cases hempty : name = ""
    · simp only [hempty, FilePath.Moves, List.filter_cons, ne_eq, not_true_eq_false, false_and,
        decide_false, Bool.false_eq_true, if_false] at h ⊢
      exact ih h
    · rw [List.filter_cons_of_pos (by simpa using hempty), walk_cons] at h
      obtain ⟨middle, hstep, hrest⟩ := ok_of_bind h
      by_cases hdot : name = "."
      · rw [List.filter_cons_of_neg (by simp [FilePath.Moves, hdot])]
        obtain ⟨-, ⟨-, rfl⟩ | ⟨hdots, -⟩ | ⟨_, _, _, hmoves, -⟩⟩ := cases_of_step hstep
        · exact ih hrest
        · exact absurd (hdot.symm.trans hdots) (by decide)
        · exact absurd hdot hmoves
      · rw [List.filter_cons_of_pos (by simp [FilePath.Moves, hempty, hdot]), walk_cons, hstep]
        exact ih hrest

theorem walk_outside (h : fs.walk .outside names = .ok next) : next = .outside := by
  induction names with
  | nil =>
    cases h
    rfl
  | cons name names ih =>
    rw [walk_cons] at h
    obtain ⟨middle, hstep, h⟩ := ok_of_bind h
    obtain ⟨-, ⟨-, rfl⟩ | ⟨-, rfl⟩ | ⟨_, _, houtside, -⟩⟩ := cases_of_step hstep
    · exact ih h
    · exact ih h
    · cases houtside

theorem makeSteps_of_walk (h : fs.walk place names = .ok next) :
    names.foldlM makeStep (fs, place) = .ok (fs, next) := by
  induction names generalizing place with
  | nil =>
    cases h
    rfl
  | cons name names ih =>
    rw [walk_cons] at h
    obtain ⟨middle, hstep, h⟩ := ok_of_bind h
    have made : makeStep (fs, place) name = .ok (fs, middle) := by
      simp only [makeStep, hstep]
      rfl
    rw [List.foldlM_cons, made]
    exact ih h

theorem makeDirectories_of_walk {steps : List String} (hs : fs.start directory = .ok (place, steps))
    (h : fs.walk place steps = .ok next) (hd : fs.isDirectory next) :
    fs.makeDirectories directory = .ok fs := by
  simp only [makeDirectories, hs, bind, Except.bind, makeSteps_of_walk h, hd, if_true]
  rfl

section

variable {root below : String} {rootNames : List String}

structure RootNames (fs : Files) (rootNames : List String) : Prop where
  ne_nil : rootNames ≠ []
  names : ∀ name ∈ rootNames, FilePath.Moves name ∧ '/' ∉ name.toList
  root : fs.rootName = Text.join '/' ("" :: rootNames)

theorem RootNames.ne_empty (h : fs.RootNames rootNames) : fs.rootName ≠ "" := by
  rw [h.root, Text.join_cons h.ne_nil]
  intro eq
  simpa using congrArg String.toList eq

theorem RootNames.pieces (h : fs.RootNames rootNames) :
    Text.splitOn '/' fs.rootName = "" :: rootNames := by
  rw [h.root]
  refine Text.splitOn_join (by simp) fun name hname => ?_
  rcases List.mem_cons.1 hname with rfl | hname
  · simp
  · exact (h.names name hname).2

theorem belowRoot?_eq_some (hne : fs.rootName ≠ "") :
    fs.belowRoot? path = some below ↔
      (path = fs.rootName ∧ below = "") ∨ (path ≠ fs.rootName ∧ path = fs.rootName ++ "/" ++ below) := by
  rw [belowRoot?, if_neg hne]
  by_cases hroot : path = fs.rootName
  · simp [hroot, eq_comm]
  · simp only [hroot, if_false, false_and, false_or, ne_eq, not_false_eq_true, true_and]
    constructor
    · exact Text.append_of_stripLead?
    · rintro rfl
      exact Text.stripLead?_append _ _

theorem start_of_belowRoot? (hnull : '\x00' ∉ path.toList) (hne : path ≠ "")
    (hb : fs.belowRoot? path = some below) : fs.start path = .ok (.inside [], FilePath.steps below) := by
  simp [start, hnull, hne, hb]

theorem RootNames.start (h : fs.RootNames rootNames) {names : List String}
    (hnames : ∀ name ∈ names, name ≠ "" ∧ '/' ∉ name.toList)
    (hnull : '\x00' ∉ (Text.join '/' ("" :: rootNames ++ names)).toList) :
    fs.start (Text.join '/' ("" :: rootNames ++ names)) = .ok (.inside [], names) := by
  by_cases hnil : names = []
  · subst hnil
    rw [List.append_nil, ← h.root] at hnull ⊢
    exact start_of_belowRoot? hnull h.ne_empty ((belowRoot?_eq_some h.ne_empty).2 (.inl ⟨rfl, rfl⟩))
  · have joined : Text.join '/' ("" :: rootNames ++ names) =
        fs.rootName ++ "/" ++ Text.join '/' names := by
      rw [h.root]
      exact Text.join_append (by simp) hnil
    have longer : fs.rootName ++ "/" ++ Text.join '/' names ≠ fs.rootName := by
      intro eq
      simpa using congrArg String.toList eq
    rw [joined] at hnull ⊢
    rw [start_of_belowRoot? hnull (fun eq => by simpa using congrArg String.toList eq)
      ((belowRoot?_eq_some h.ne_empty).2 (.inr ⟨longer, rfl⟩)), FilePath.steps_join hnil hnames]

end

/-- The root has no absolute path, or one that names it plainly. -/
def Rooted (fs : Files) : Prop := fs.rootName = "" ∨ ∃ rootNames, fs.RootNames rootNames

theorem Rooted.of_extends {fs' : Files} (h : fs.Rooted) (extended : fs.Extends fs') : fs'.Rooted := by
  rcases h with h | ⟨rootNames, h⟩
  · exact .inl (extended.rootName.trans h)
  · exact .inr ⟨rootNames, h.ne_nil, h.names, extended.rootName.trans h.root⟩

theorem Rooted.start_of_relative (h : fs.Rooted) (hnull : '\x00' ∉ path.toList)
    {first : Char} (hfirst : path.toList.head? = some first) (hslash : first ≠ '/') :
    fs.start path = .ok (.inside [], FilePath.steps path) := by
  have relative : Text.startsWith "/" path = false := by
    rw [Bool.eq_false_iff]
    intro slash
    have := hfirst.symm.trans ((Text.startsWith_iff (c := '/')).1 slash)
    exact hslash (Option.some.inj this)
  have nonempty : path ≠ "" := by
    rintro rfl
    cases hfirst
  have beside : fs.belowRoot? path = none := by
    rcases h with h | ⟨rootNames, h⟩
    · simp [belowRoot?, h]
    · cases hb : fs.belowRoot? path with
      | none => rfl
      | some below =>
        have slashed : path.toList.head? = some '/' := by
          have root : fs.rootName.toList.head? = some '/' := by
            rw [h.root, Text.head?_join_cons h.ne_nil]
            rfl
          rcases (belowRoot?_eq_some h.ne_empty).1 hb with ⟨rfl, -⟩ | ⟨-, rfl⟩
          · exact root
          · simp [root]
        exact absurd (Option.some.inj (hfirst.symm.trans slashed)) hslash
  simp [start, hnull, nonempty, beside, relative]

def Named (name : String) : Prop := '/' ∉ name.toList ∧ '\x00' ∉ name.toList

theorem null_not_mem_join {names : List String} (h : ∀ name ∈ names, Named name) :
    '\x00' ∉ (Text.join '/' names).toList := by
  rw [Text.mem_join (by decide)]
  rintro ⟨name, hname, hnull⟩
  exact (h name hname).2 hnull

theorem named_of_mem {name : String} (hnull : '\x00' ∉ path.toList) (h : name ∈ Text.splitOn '/' path) :
    Named name := by
  refine ⟨Text.separator_not_mem h, fun hc => hnull ?_⟩
  rw [← Text.join_splitOn '/' path]
  exact (Text.mem_join (by decide)).2 ⟨name, h, hc⟩

theorem settled_of_named (h : ∀ name ∈ names, Named name) :
    ∀ name ∈ names.filter FilePath.Moves, name ≠ "" ∧ Named name := by
  intro name hname
  obtain ⟨hm, hmoves⟩ := List.mem_filter.1 hname
  exact ⟨(of_decide_eq_true hmoves).1, h name hm⟩

theorem Rooted.makeDirectories_relative (h : fs.Rooted) {first : String} (hfirst : first ≠ "")
    (hnames : ∀ name ∈ first :: names, Named name)
    (hwalk : fs.walk (.inside []) ((first :: names).filter (· ≠ "")) = .ok next)
    (hd : fs.isDirectory next) :
    fs.makeDirectories (Text.join '/' (first :: names.filter FilePath.Moves)) = .ok fs := by
  have settled : ∀ name ∈ first :: names.filter FilePath.Moves, name ≠ "" ∧ Named name := by
    rw [List.forall_mem_cons] at hnames ⊢
    exact ⟨⟨hfirst, hnames.1⟩, settled_of_named hnames.2⟩
  obtain ⟨c, cs, hc⟩ := List.exists_cons_of_ne_nil (mt String.toList_eq_nil_iff.1 hfirst)
  have head : (Text.join '/' (first :: names.filter FilePath.Moves)).toList.head? = some c := by
    by_cases hnil : names.filter FilePath.Moves = []
    · simp [hnil, Text.join, hc]
    · simp [Text.head?_join_cons hnil, hc]
  have slash : c ≠ '/' := by
    rintro rfl
    exact (hnames first List.mem_cons_self).1 (hc ▸ List.mem_cons_self)
  refine makeDirectories_of_walk (h.start_of_relative (null_not_mem_join fun name hname =>
    (settled name hname).2) head slash) ?_ hd
  rw [FilePath.steps_join (by simp) fun name hname => ⟨(settled name hname).1, (settled name hname).2.1⟩]
  rw [List.filter_cons_of_pos (by simpa using hfirst), walk_cons] at hwalk
  rw [walk_cons]
  obtain ⟨middle, hstep, hrest⟩ := ok_of_bind hwalk
  rw [hstep]
  exact walk_moves hrest

theorem RootNames.makeDirectories_below {rootNames : List String} (h : fs.RootNames rootNames)
    (hroot : ∀ name ∈ rootNames, Named name) (hnames : ∀ name ∈ names, Named name)
    (hwalk : fs.walk (.inside []) (names.filter (· ≠ "")) = .ok next) (hd : fs.isDirectory next) :
    fs.makeDirectories (Text.join '/' ("" :: rootNames ++ names.filter FilePath.Moves)) = .ok fs := by
  have settled := settled_of_named hnames
  refine makeDirectories_of_walk (h.start (fun name hname => ⟨(settled name hname).1,
    (settled name hname).2.1⟩) (null_not_mem_join ?_)) (walk_moves hwalk) hd
  intro name hname
  rcases List.mem_append.1 hname with hname | hname
  · rcases List.mem_cons.1 hname with rfl | hname
    · exact ⟨by simp, by simp⟩
    · exact hroot name hname
  · exact (settled name hname).2

theorem cases_of_start {steps : List String} (h : fs.start path = .ok (place, steps)) :
    '\x00' ∉ path.toList ∧
      ((∃ below, fs.belowRoot? path = some below ∧ place = .inside [] ∧ steps = FilePath.steps below) ∨
        place = (if Text.startsWith "/" path then .outside else .inside []) ∧
          steps = FilePath.steps path) := by
  unfold start at h
  split at h
  · cases h
  rename_i hnull
  refine ⟨by simpa using hnull, ?_⟩
  split at h
  · cases h
  split at h
  · rename_i below hb
    obtain ⟨rfl, rfl⟩ := Prod.mk.inj (Except.ok.inj h)
    exact .inl ⟨below, hb, rfl, rfl⟩
  · obtain ⟨rfl, rfl⟩ := Prod.mk.inj (Except.ok.inj h)
    exact .inr ⟨rfl, rfl⟩

section

variable {parents : List String} {last : String} {parent : Place}
  (hdot : last ≠ ".") (hnamed : ∀ name ∈ Text.splitOn '/' path, Named name)
  (hwalk : fs.walk (.inside []) parents = .ok parent) (hparent : fs.isDirectory parent)
  (hd : FilePath.parent? path = some directory)

include hdot hnamed hwalk hparent hd

theorem Rooted.makeDirectories_parent (h : fs.Rooted) (relative : ¬Text.startsWith "/" path)
    (hsteps : FilePath.steps path = parents ++ [last]) : fs.makeDirectories directory = .ok fs := by
  obtain ⟨before, hpieces, rfl, hlast⟩ := FilePath.pieces_of_steps hsteps hdot
  cases before with
  | nil =>
    rw [FilePath.parent?_of_piece hpieces] at hd
    cases hd
  | cons first before =>
    have hfirst : first ≠ "" := by
      rintro rfl
      refine relative ((Text.startsWith_iff (c := '/')).2 ?_)
      rw [← Text.join_splitOn '/' path, hpieces, List.cons_append, Text.head?_join_cons (by simp)]
      rfl
    have named := FilePath.parent?_of_pieces hpieces ⟨hlast, hdot⟩ (by simp [hfirst])
    obtain rfl := Option.some.inj (named.symm.trans hd)
    refine h.makeDirectories_relative hfirst (fun name hname => hnamed name ?_) hwalk hparent
    rw [hpieces]
    exact List.mem_append_left _ hname

theorem RootNames.makeDirectories_parent {below : String} {rootNames : List String}
    (h : fs.RootNames rootNames) (hpath : path = fs.rootName ++ "/" ++ below)
    (hsteps : FilePath.steps below = parents ++ [last]) : fs.makeDirectories directory = .ok fs := by
  obtain ⟨before, hpieces, rfl, hlast⟩ := FilePath.pieces_of_steps hsteps hdot
  have pieces : Text.splitOn '/' path = "" :: (rootNames ++ before) ++ [last] := by
    rw [hpath, show ("/" : String) = String.singleton '/' from rfl, Text.splitOn_append, h.pieces,
      hpieces]
    simp
  have moving : rootNames.filter FilePath.Moves = rootNames :=
    List.filter_eq_self.2 fun name hname => decide_eq_true (h.names name hname).1
  have named := FilePath.parent?_of_pieces pieces ⟨hlast, hdot⟩ (by
    rw [List.filter_append, moving]
    simp [h.ne_nil])
  rw [List.filter_append, moving] at named
  obtain rfl := Option.some.inj (named.symm.trans hd)
  refine h.makeDirectories_below (fun name hname => hnamed name ?_) (fun name hname => hnamed name ?_)
    hwalk hparent
  · rw [pieces]
    simp [hname]
  · rw [pieces]
    simp [hname]

end

theorem makeDirectories_parent (rooted : fs.Rooted) (hl : fs.locate path = .ok (.inside names))
    (hfile : fs.file? names = some node) (hd : FilePath.parent? path = some directory) :
    fs.makeDirectories directory = .ok fs := by
  obtain ⟨⟨place, steps⟩, hstart, hwalk⟩ := ok_of_bind hl
  obtain ⟨reached, isDirectory⟩ := reached_of_start hstart
  obtain ⟨parents, last, parent, rfl, hparents, hparent, hdot, -, -, rfl⟩ :=
    last_step_of_file reached isDirectory hwalk hfile
  obtain ⟨hnull, ⟨below, hb, rfl, hsteps⟩ | ⟨hplace, hsteps⟩⟩ := cases_of_start hstart
  · obtain hroot | ⟨rootNames, root⟩ := rooted
    · simp [belowRoot?, hroot] at hb
    rcases (belowRoot?_eq_some root.ne_empty).1 hb with ⟨-, rfl⟩ | ⟨-, hpath⟩
    · -- The root itself is no file.
      exact absurd (congrArg List.length hsteps) (by simp [show FilePath.steps "" = [] by rfl])
    · exact root.makeDirectories_parent hdot (fun _ => named_of_mem hnull) hparents hparent hd hpath
        hsteps.symm
  · -- A walk that starts outside stays there.
    have relative : ¬Text.startsWith "/" path := by
      intro slash
      rw [hplace, if_pos slash] at hparents
      cases walk_outside hparents
    rw [hplace, if_neg relative] at hparents
    exact rooted.makeDirectories_parent hdot (fun _ => named_of_mem hnull) hparents hparent hd relative
      hsteps.symm

end Files

end DottedPatch
