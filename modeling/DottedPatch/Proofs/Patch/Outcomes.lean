import DottedPatch.Proofs.Patch.Targets
import DottedPatch.Proofs.Toml.Apart

/-! What becomes of a line. Where its path ends among the sections decides first, then whether its
text is a value of the leaf, and only then the table. -/

namespace DottedPatch

open Toml

/-- The sections that the leading segments of a path lead to, one after the other: their names, and
the last one. -/
def Section.leading (casing : Casing) : (segments : List String) → Section → List String × Section
  | [], s => ([], s)
  | segment :: rest, s =>
    match s.child? casing segment with
    | some c => (c.name :: (c.leading casing rest).1, (c.leading casing rest).2)
    | none => ([], s)

namespace Patch

def Rejection.isOfPath : Rejection → Bool
  | .emptyPath | .unknownSegment _ => true
  | .coercion _ | .malformedEntry _ => false

theorem isOfPath_of_coerceTo {policy : EntryPolicy} {raw : String} {kind : Kind} {reason : Rejection}
    (h : coerceTo policy raw kind = .error reason) : reason.isOfPath = false := by
  cases kind with
  | string | set | list => cases h
  | boolean =>
    simp only [coerceTo, Coercion.boolean] at h
    split at h
    · cases h
    · split at h <;> cases h
      rfl
  | integer w =>
    simp only [coerceTo, Coercion.integer] at h
    split at h <;> cases h
    rfl
  | map =>
    simp only [coerceTo, Coercion.map] at h
    split at h <;> cases h
    rfl

theorem isOfPath_of_coerce {policy : EntryPolicy} {leaf : Leaf} {raw : String} {reason : Rejection}
    (h : coerce policy leaf raw = .error reason) : reason.isOfPath = false := by
  rw [coerce] at h
  split at h
  · cases h
  · cases hc : coerceTo policy raw leaf.kind with
    | ok v =>
      rw [hc] at h
      cases h
    | error e =>
      rw [hc] at h
      cases h
      exact isOfPath_of_coerceTo hc

section

variable {casing : Casing} {s : Section}

theorem length_leading_le (parents : List String) :
    (s.leading casing parents).1.length ≤ parents.length := by
  induction parents generalizing s with
  | nil => simp [Section.leading]
  | cons segment rest ih =>
    rw [Section.leading]
    cases s.child? casing segment with
    | none => simp
    | some c => simpa using ih

theorem resolve_cons (walked : List String) (segment : String) {rest : List String} (h : rest ≠ []) :
    resolve casing walked (segment :: rest) s =
      match s.child? casing segment with
      | some c =>
        let below := resolve casing (walked ++ [c.name]) rest c
        (.sectionLookup (dotted (walked ++ [segment])) true :: below.1, below.2)
      | none =>
        ([.sectionLookup (dotted (walked ++ [segment])) false],
          .error ⟨dotted walked, .unknownSegment segment⟩) := by
  cases rest with
  | nil => exact absurd rfl h
  | cons next rest =>
    rw [resolve]
    · cases s.child? casing segment <;> rfl
    · simp

theorem resolve_append {parents rest : List String} (hrest : rest ≠ [])
    (all : (s.leading casing parents).1.length = parents.length) (walked : List String) :
    ∃ passed : List Event, (∀ e ∈ passed, ∃ path, e = .sectionLookup path true) ∧
      let below := resolve casing (walked ++ (s.leading casing parents).1) rest
        (s.leading casing parents).2
      resolve casing walked (parents ++ rest) s = (passed ++ below.1, below.2) := by
  induction parents generalizing s walked with
  | nil => exact ⟨[], by simp, by simp [Section.leading]⟩
  | cons segment parents ih =>
    rw [List.cons_append, resolve_cons _ _ (by simp [hrest])]
    rw [Section.leading] at all ⊢
    cases hc : s.child? casing segment with
    | none => simp [hc] at all
    | some c =>
      simp only [hc, List.length_cons, Nat.add_right_cancel_iff] at all ⊢
      obtain ⟨passed, sections, eq⟩ := ih all (walked ++ [c.name])
      refine ⟨.sectionLookup (dotted (walked ++ [segment])) true :: passed, ?_, ?_⟩
      · exact List.forall_mem_cons.2 ⟨⟨_, rfl⟩, sections⟩
      · simp only [eq, List.append_assoc, List.cons_append, List.nil_append]

theorem resolve_of_leaf? {parents : List String} {last : String} {leaf : Leaf}
    (all : (s.leading casing parents).1.length = parents.length)
    (hl : (s.leading casing parents).2.leaf? casing last = some leaf) (walked : List String) :
    (resolve casing walked (parents ++ [last]) s).2 =
      .ok ⟨walked ++ (s.leading casing parents).1, leaf⟩ := by
  obtain ⟨_, -, eq⟩ := resolve_append (List.cons_ne_nil last []) all walked
  simp [eq, resolve, hl]

theorem resolve_of_missed {parents : List String} {last : String}
    (h : (s.leading casing parents).1.length < parents.length ∨
      (s.leading casing parents).2.leaf? casing last = none) (walked : List String) :
    ∃ segment, (parents ++ [last])[(s.leading casing parents).1.length]? = some segment ∧
      (resolve casing walked (parents ++ [last]) s).2 =
        .error ⟨dotted (walked ++ (s.leading casing parents).1), .unknownSegment segment⟩ := by
  induction parents generalizing s walked with
  | nil =>
    have missed : s.leaf? casing last = none := by simpa [Section.leading] using h
    exact ⟨last, rfl, by simp [resolve, missed, Section.leading]⟩
  | cons segment rest ih =>
    rw [List.cons_append, resolve_cons _ _ (by simp)]
    rw [Section.leading] at h ⊢
    cases hc : s.child? casing segment with
    | none => exact ⟨segment, rfl, by simp⟩
    | some c =>
      simp only [hc, List.length_cons, Nat.add_lt_add_iff_right] at h ⊢
      obtain ⟨next, hnext, refused⟩ := ih h (walked ++ [c.name])
      exact ⟨next, hnext, by rw [refused, List.append_assoc, List.singleton_append]⟩

end

def Target.status (target : Target) (rules : Rules) (raw : String) (t : Table) : Status :=
  match coerce rules.entries target.leaf raw with
  | .error reason => .rejected target.path reason
  | .ok _ =>
    if (Table.walk [] target.parents t).arrived then .applied target.path
    else .rejected target.path noSection

theorem Target.cases_of_status (target : Target) (rules : Rules) (raw : String) (t : Table) :
    target.status rules raw t = .applied target.path ∨
      ∃ reason, target.status rules raw t = .rejected target.path reason ∧
        reason.isOfPath = false := by
  rw [Target.status]
  cases hc : coerce rules.entries target.leaf raw with
  | error reason => exact .inr ⟨reason, rfl, isOfPath_of_coerce hc⟩
  | ok value =>
    by_cases arrived : (Table.walk [] target.parents t).arrived = true
    · exact .inl (if_pos arrived)
    · exact .inr ⟨noSection, if_neg arrived, rfl⟩

theorem Target.isOfPath_of_status {target : Target} {rules : Rules} {raw : String} {t : Table}
    {resolved : String} {reason : Rejection}
    (h : target.status rules raw t = .rejected resolved reason) : reason.isOfPath = false := by
  rcases target.cases_of_status rules raw t with applied | ⟨_, rejected, ofValue⟩
  · cases applied.symm.trans h
  · obtain ⟨-, rfl⟩ := Status.rejected.inj (rejected.symm.trans h)
    exact ofValue

theorem outcome_applyLine (schema : Schema) (rules : Rules) (t : Table) (line : Line) :
    (applyLine schema rules t line).outcome = ⟨line.number, line.path,
      match (resolve rules.casing [] line.segments schema.root).2 with
      | .error refusal => .rejected refusal.resolved refusal.reason
      | .ok target => target.status rules line.raw t⟩ := by
  rw [applyLine]
  rcases resolve rules.casing [] line.segments schema.root with ⟨events, refusal | target⟩
  · rfl
  · simp only [applyTo, Target.status]
    cases coerce rules.entries target.leaf line.raw with
    | error reason => rfl
    | ok value =>
      by_cases arrived : (Table.walk [] target.parents t).arrived = true
      · simp only [if_pos arrived]
        rfl
      · simp only [if_neg arrived]
        rfl

section

variable {schema : Schema} {rules : Rules} {t : Table} {line : Line} {parents : List String}
  {last : String}

theorem status_of_nil (h : line.segments = []) :
    (applyLine schema rules t line).outcome.status = .rejected "" .emptyPath := by
  rw [outcome_applyLine, h]
  rfl

theorem status_of_missed (segments : line.segments = parents ++ [last])
    (h : (schema.root.leading rules.casing parents).1.length < parents.length ∨
      (schema.root.leading rules.casing parents).2.leaf? rules.casing last = none) :
    ∃ segment, line.segments[(schema.root.leading rules.casing parents).1.length]? = some segment ∧
      (applyLine schema rules t line).outcome.status =
        .rejected (dotted (schema.root.leading rules.casing parents).1) (.unknownSegment segment) := by
  obtain ⟨segment, next, refused⟩ := resolve_of_missed h []
  refine ⟨segment, segments ▸ next, ?_⟩
  rw [outcome_applyLine, segments, refused]
  rfl

theorem status_of_leaf? (segments : line.segments = parents ++ [last])
    (all : (schema.root.leading rules.casing parents).1.length = parents.length) {leaf : Leaf}
    (hl : (schema.root.leading rules.casing parents).2.leaf? rules.casing last = some leaf) :
    (applyLine schema rules t line).outcome.status =
      Target.status ⟨(schema.root.leading rules.casing parents).1, leaf⟩ rules line.raw t := by
  rw [outcome_applyLine, segments, resolve_of_leaf? all hl []]
  rfl

theorem missed_or_leaf? (s : Section) (casing : Casing) (parents : List String) (last : String) :
    ((s.leading casing parents).1.length < parents.length ∨
      (s.leading casing parents).2.leaf? casing last = none) ∨
    (s.leading casing parents).1.length = parents.length ∧
      ∃ leaf, (s.leading casing parents).2.leaf? casing last = some leaf := by
  have le : (s.leading casing parents).1.length ≤ parents.length := length_leading_le parents
  rcases Nat.lt_or_eq_of_le le with lt | all
  · exact .inl (.inl lt)
  · cases hl : (s.leading casing parents).2.leaf? casing last with
    | none => exact .inl (.inr rfl)
    | some leaf => exact .inr ⟨all, leaf, rfl⟩

theorem emptyPath_iff {resolved : String} :
    (applyLine schema rules t line).outcome.status = .rejected resolved .emptyPath ↔
      line.segments = [] ∧ resolved = "" := by
  constructor
  · intro h
    rcases List.eq_nil_or_concat line.segments with none | ⟨parents, last, segments⟩
    · rw [status_of_nil none] at h
      exact ⟨none, (Status.rejected.inj h).1.symm⟩
    · rw [List.concat_eq_append] at segments
      rcases missed_or_leaf? schema.root rules.casing parents last with missed | ⟨all, leaf, hl⟩
      · obtain ⟨_, -, refused⟩ := status_of_missed (t := t) segments missed
        rw [refused] at h
        cases h
      · rw [status_of_leaf? segments all hl] at h
        cases Target.isOfPath_of_status h
  · rintro ⟨none, rfl⟩
    exact status_of_nil none

theorem unknownSegment_iff (segments : line.segments = parents ++ [last]) {resolved segment : String} :
    (applyLine schema rules t line).outcome.status = .rejected resolved (.unknownSegment segment) ↔
      ((schema.root.leading rules.casing parents).1.length < parents.length ∨
        (schema.root.leading rules.casing parents).2.leaf? rules.casing last = none) ∧
      resolved = dotted (schema.root.leading rules.casing parents).1 ∧
      line.segments[(schema.root.leading rules.casing parents).1.length]? = some segment := by
  constructor
  · intro h
    rcases missed_or_leaf? schema.root rules.casing parents last with missed | ⟨all, leaf, hl⟩
    · obtain ⟨_, next, refused⟩ := status_of_missed (t := t) segments missed
      obtain ⟨rfl, reason⟩ := Status.rejected.inj (h.symm.trans refused)
      obtain rfl := Rejection.unknownSegment.inj reason
      exact ⟨missed, rfl, next⟩
    · rw [status_of_leaf? segments all hl] at h
      cases Target.isOfPath_of_status h
  · rintro ⟨missed, rfl, next⟩
    obtain ⟨_, next', refused⟩ := status_of_missed (t := t) segments missed
    obtain rfl := Option.some.inj (next.symm.trans next')
    exact refused

end

theorem arrived_walk_iff {names : List String} {t : Table} :
    (Table.walk [] names t).arrived = true ↔
      ∀ q v, q <+: names → Table.lookupPath q t = some v → v.isTable := by
  have arrived := Table.arrived_walk ⟨names, "", none⟩ t
  rw [show (Table.walk [] names t).arrived = _ from arrived]
  exact Table.Write.isSome_run?_iff

/-- A line tells its outcome by where its path ends, by its value and by the table. The path is empty,
or it ends at the first segment that leads no further, or at a leaf. Then the text may be no value of
the leaf, and a section may be something else than a table. -/
theorem outcome_classified (schema : Schema) (rules : Rules) (t : Table) (line : Line) :
    let outcome := (applyLine schema rules t line).outcome
    outcome.line = line.number ∧ outcome.path = dotted line.segments ∧
      (∀ resolved, outcome.status = .rejected resolved .emptyPath ↔
        line.segments = [] ∧ resolved = "") ∧
      ∀ parents last, line.segments = parents ++ [last] →
        let (names, s) := schema.root.leading rules.casing parents
        names.length ≤ parents.length ∧
        (∀ resolved segment, outcome.status = .rejected resolved (.unknownSegment segment) ↔
          (names.length < parents.length ∨ s.leaf? rules.casing last = none) ∧
            resolved = dotted names ∧ line.segments[names.length]? = some segment) ∧
        ∀ leaf, names.length = parents.length → s.leaf? rules.casing last = some leaf →
          let path := dotted (names ++ [leaf.name])
          match coerce rules.entries leaf line.raw with
          | .error reason => outcome.status = .rejected path reason
          | .ok _ =>
            (outcome.status = .applied path ↔
              ∀ q v, q <+: names → Table.lookupPath q t = some v → v.isTable) ∧
            (outcome.status ≠ .applied path → outcome.status = .rejected path noSection) := by
  intro outcome
  have shown := outcome_applyLine schema rules t line
  refine ⟨congrArg Outcome.line shown, congrArg Outcome.path shown, fun _ => emptyPath_iff, ?_⟩
  intro parents last segments
  refine ⟨length_leading_le parents, fun _ _ => unknownSegment_iff segments, fun leaf all hl => ?_⟩
  have status : outcome.status = _ := status_of_leaf? segments all hl
  rw [status, Target.status]
  cases coerce rules.entries leaf line.raw with
  | error reason => rfl
  | ok value =>
    rw [← arrived_walk_iff]
    by_cases arrived : (Table.walk [] (schema.root.leading rules.casing parents).1 t).arrived = true
    · simp only [if_pos arrived]
      exact ⟨iff_of_true rfl arrived, fun ne => absurd rfl ne⟩
    · simp only [if_neg arrived]
      exact ⟨iff_of_false (by simp) arrived, fun _ => rfl⟩

end Patch

end DottedPatch
