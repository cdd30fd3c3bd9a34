import DottedPatch.Patch.Session
import DottedPatch.Proofs.Patch.Reload

namespace DottedPatch.Patch

open Config Toml

namespace Session

section

variable {α : Type} [Configuration α]

/-- The document is read as a strict base. -/
def Loads (s : Session α) : Prop := ∃ c : α, readBase s.text s.file true = .ok c

/-- The document that a write prints is read again. -/
def Reprints (s : Session α) : Prop :=
  ∀ t d, toTable s.config = .ok t → Document.read? s.text = some d →
    let edited := s.report.appliedPaths.foldl (writeLeaf t) d
    edited.Reprints ∧ edited.Faithful

variable (schema : Schema)

/-- Every write along the moves is made from a session of this kind. -/
def Writes (P : Session α → Prop) : Session α → List Move → Prop
  | _, [] => True
  | s, m :: moves => (m = .write → P s) ∧ ∀ s', (s.move schema m).1 = .ok s' → Writes P s' moves

/-- Every move goes through, and the document can be loaded before and after each. -/
def Lasts : Session α → List Move → Prop
  | s, [] => s.Loads
  | s, m :: moves => s.Loads ∧ ∃ s', (s.move schema m).1 = .ok s' ∧ Lasts s' moves

theorem Loads.reload {s : Session α} (h : s.Loads) (strict : Bool) :
    ∃ c : α, readBase s.text s.file strict = .ok c := by
  obtain ⟨c, hc⟩ := h
  cases strict with
  | true => exact ⟨c, hc⟩
  | false =>
    simp only [readBase] at hc ⊢
    cases hread : Table.read? s.text with
    | none =>
      rw [hread] at hc
      cases hc
    | some sparse =>
      simp only [hread] at hc ⊢
      obtain ⟨full, hfull, hc⟩ := ok_of_bind hc
      simp only [hfull, readStrictly] at hc ⊢
      cases hdecode : Configuration.decode (α := α) (.table (Table.merge full sparse)) with
      | error => simp [hdecode] at hc
      | ok config => exact ⟨config, by simp [bind, Except.bind, hdecode]⟩

structure Sound (s : Session α) : Prop where
  loads : s.Loads
  leaves : ∀ path ∈ s.report.appliedPaths, ∃ leaf, (path, leaf) ∈ schema.leaves

end

section

variable {α : Type} [Shaped α] [Inhabited α] {name : String} {fields : Fields}
  (hs : Shaped.shape α = .record name fields) (hr : (Shape.record name fields).regular)
  (hu : fields.undated) {lower : Table} (hlower : toTable (default : α) = .ok lower)
  (hl : (Shape.record name fields).Beneath (some (.table lower)))

include hs hr hlower hl

theorem loads_of_none {s : Session α} (h : s.document = none) : s.Loads := by
  have empty : s.text = "" := by rw [text, h]; rfl
  have hupper : Table.read? "" = some Table.empty := rfl
  rw [← hs] at hr hl
  obtain ⟨c, _, hc, _⟩ := readBase_of_accepts s.file hr hlower hl hupper .empty
    (hs ▸ Shape.Accepts.empty)
  exact ⟨c, empty ▸ hc⟩

include hu

variable {schema : Schema} (hdescribes : schema.root.describes fields)

include hdescribes

theorem Sound.write {s : Session α} (h : s.Sound schema) (hprint : s.Reprints) :
    ∃ s', s.write = .ok s' ∧ s'.Sound schema := by
  obtain ⟨c, hc⟩ := h.loads
  obtain ⟨upper, hupper⟩ := exists_read?_of_readBase hc
  obtain ⟨d, hdoc, hd⟩ := Option.bind_eq_some_iff.1 hupper
  obtain ⟨t, ht⟩ := exists_toTable (hs ▸ rfl) s.config
  obtain ⟨haccepts, hsettles, _⟩ := settles_of_readBase hs hr hu hlower hl hdoc hd hc
  obtain ⟨reprints, faithful⟩ := hprint t d ht hdoc
  obtain ⟨again, _, hagain, _⟩ := exists_readBase_of_written hs hr hu hlower hl
    (Document.distinct_read? hdoc) hsettles (hs ▸ fits_toTable ht)
    (isLeaf_of_leaves hdescribes h.leaves) reprints faithful s.file hd haccepts
  refine ⟨{ s with document := some (s.report.appliedPaths.foldl (writeLeaf t) d).text }, ?_,
    ⟨again, hagain⟩, h.leaves⟩
  simp only [Session.write, writeBack, hdoc, ht]
  rfl

theorem Sound.move {s : Session α} (h : s.Sound schema) {m : Move}
    (hprint : m = .write → s.Reprints) : ∃ s', (s.move schema m).1 = .ok s' ∧ s'.Sound schema := by
  cases m with
  | apply rules lines =>
    have suits : schema.Suits (Shaped.shape α) := hs ▸ suits_of_describes hdescribes name
    obtain ⟨p, _, hp, _⟩ :=
      applyTo?_of_suits suits (hs.symm ▸ hr) (hs ▸ rfl) rules lines s.config
    refine ⟨{ s with config := p.config, report := p.report }, ?_, h.loads,
      mem_leaves_of_applied hdescribes hp⟩
    simp only [Session.move, hp]
    rfl
  | write => exact h.write hs hr hu hlower hl hdescribes (hprint rfl)
  | reload strict =>
    obtain ⟨c, hc⟩ := h.loads.reload strict
    refine ⟨{ s with config := c }, ?_, h.loads, h.leaves⟩
    simp only [Session.move, Session.reload, hc]
    rfl
  | reset => exact ⟨_, rfl, h.loads, h.leaves⟩

theorem Sound.lasts {s : Session α} (h : s.Sound schema) {moves : List Move}
    (hprint : s.Writes schema Reprints moves) : s.Lasts schema moves := by
  induction moves generalizing s with
  | nil => exact h.loads
  | cons m moves ih =>
    obtain ⟨s', hmove, sound⟩ := h.move hs hr hu hlower hl hdescribes hprint.1
    exact ⟨h.loads, s', hmove, ih sound (hprint.2 s' hmove)⟩

end

end Session

end DottedPatch.Patch
