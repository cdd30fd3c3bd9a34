import DottedPatch.Gateway.Schema
import DottedPatch.Proofs.Patch.Outcomes
import DottedPatch.Proofs.Schema.Names
import Mathlib.Data.List.Forall2

namespace DottedPatch

open Toml

/-- Paths that differ at most in the case of letters, segment by segment. -/
def Respelt : (segments segments' : List String) → Prop :=
  List.Forall₂ fun a b => Text.sameUpToCase a b = true

namespace Section

variable {s c : Section} {l : Leaf} {segment segment' : String}

theorem child?_ignoreAscii (h : s.distinct .ignoreAscii = true)
    (hc : s.child? .exact segment = some c) : s.child? .ignoreAscii segment = some c := by
  obtain rfl := name_of_child? hc
  exact child?_of_distinct h (List.mem_of_find?_eq_some hc) (Casing.admits_self _ _)

theorem leaf?_ignoreAscii (h : s.distinct .ignoreAscii = true)
    (hl : s.leaf? .exact segment = some l) : s.leaf? .ignoreAscii segment = some l := by
  obtain rfl := name_of_leaf? hl
  exact leaf?_of_distinct h (List.mem_of_find?_eq_some hl) (Casing.admits_self _ _)

theorem admits_respelt (h : Text.sameUpToCase segment segment' = true) (name : String) :
    Casing.ignoreAscii.admits name segment = Casing.ignoreAscii.admits name segment' := by
  have lower : segment.toList.map Char.toLower = segment'.toList.map Char.toLower := by
    simpa [Text.sameUpToCase] using h
  simp only [Casing.admits, Text.sameUpToCase, lower]

theorem child?_respelt (h : Text.sameUpToCase segment segment' = true) (s : Section) :
    s.child? .ignoreAscii segment = s.child? .ignoreAscii segment' := by
  simp only [child?, admits_respelt h]

theorem leaf?_respelt (h : Text.sameUpToCase segment segment' = true) (s : Section) :
    s.leaf? .ignoreAscii segment = s.leaf? .ignoreAscii segment' := by
  simp only [leaf?, admits_respelt h]

end Section

namespace Patch

/-- Statuses that differ at most in how they spell what was unknown. -/
def Status.Alike : (status status' : Status) → Prop
  | .applied path, .applied path' => path = path'
  | .rejected resolved reason, .rejected resolved' reason' =>
    resolved = resolved' ∧ reason.kind = reason'.kind
  | .applied _, .rejected _ _ | .rejected _ _, .applied _ => False

theorem Status.Alike.refl (status : Status) : status.Alike status := by
  cases status <;> simp [Alike]

theorem Status.Alike.eq_of_applied {status status' : Status} {path : String}
    (h : status.Alike status') (applied : status = .applied path) : status' = .applied path := by
  subst applied
  cases status' with
  | applied path' => exact congrArg Status.applied (Eq.symm h)
  | rejected resolved reason => cases h

theorem resolve_ignoreAscii {walked segments : List String} {s : Section} {target : Target}
    (h : s.distinct .ignoreAscii = true)
    (leads : (resolve .exact walked segments s).2 = .ok target) :
    resolve .ignoreAscii walked segments s = resolve .exact walked segments s := by
  induction segments generalizing walked s with
  | nil => rfl
  | cons segment rest ih =>
    cases rest with
    | nil =>
      cases hl : s.leaf? .exact segment with
      | none => simp [resolve, hl] at leads
      | some l => simp only [resolve, hl, s.leaf?_ignoreAscii h hl]
    | cons next rest =>
      cases hc : s.child? .exact segment with
      | none => simp [resolve, hc] at leads
      | some c =>
        have below := (Section.distinct_eq_true.1 h).2 c (List.mem_of_find?_eq_some hc)
        have leads : (resolve .exact (walked ++ [c.name]) (next :: rest) c).2 = .ok target := by
          simpa only [resolve, hc] using leads
        simp only [resolve, hc, s.child?_ignoreAscii h hc, ih below leads]

theorem resolve_respelt {segments segments' : List String} (h : Respelt segments segments')
    (walked : List String) (s : Section) :
    (∃ target, (resolve .ignoreAscii walked segments s).2 = .ok target ∧
      (resolve .ignoreAscii walked segments' s).2 = .ok target) ∨
    ∃ resolved reason reason', (resolve .ignoreAscii walked segments s).2 = .error ⟨resolved, reason⟩ ∧
      (resolve .ignoreAscii walked segments' s).2 = .error ⟨resolved, reason'⟩ ∧
      reason.kind = reason'.kind := by
  induction h generalizing walked s with
  | nil => exact .inr ⟨_, _, _, rfl, rfl, rfl⟩
  | @cons segment segment' rest rest' same more ih =>
    cases more with
    | nil =>
      simp only [resolve, s.leaf?_respelt same]
      cases s.leaf? .ignoreAscii segment' with
      | none => exact .inr ⟨_, _, _, rfl, rfl, rfl⟩
      | some l => exact .inl ⟨_, rfl, rfl⟩
    | cons _ _ =>
      rw [resolve_cons _ _ (by simp), resolve_cons _ _ (by simp), s.child?_respelt same]
      cases s.child? .ignoreAscii segment' with
      | none => exact .inr ⟨_, _, _, rfl, rfl, rfl⟩
      | some c => exact ih (walked ++ [c.name]) c

theorem applyLine_casing {schema : Schema} {casing casing' : Casing} {line : Line}
    (h : resolve casing [] line.segments schema.root = resolve casing' [] line.segments schema.root)
    (entries : EntryPolicy) (t : Table) :
    applyLine schema ⟨casing, entries⟩ t line = applyLine schema ⟨casing', entries⟩ t line := by
  simp only [applyLine, h]
  rfl

theorem applyLine_respelt {line other : Line} (raw : other.raw = line.raw)
    (h : Respelt line.segments other.segments) (schema : Schema) (entries : EntryPolicy) (t : Table) :
    let rules : Rules := ⟨.ignoreAscii, entries⟩
    (applyLine schema rules t line).outcome.status.Alike
        (applyLine schema rules t other).outcome.status ∧
      (applyLine schema rules t line).table = (applyLine schema rules t other).table := by
  intro rules
  simp only [outcome_applyLine, table_applyLine, Line.assignment?, raw]
  rcases resolve_respelt h [] schema.root with
    ⟨target, leads, leads'⟩ | ⟨resolved, reason, reason', refused, refused', kind⟩
  · simp only [rules, leads, leads']
    exact ⟨.refl _, trivial⟩
  · simp only [rules, refused, refused']
    exact ⟨⟨rfl, kind⟩, trivial⟩

/-- If siblings have names that differ by more than case, as in the schema of the gateway, then a
line whose path resolves exactly does the same if case is ignored. And then lines that differ in the
case of their paths do the same to a table: they are applied at one path, or rejected after the same
sections for the same kind of reason. -/
theorem folding_extends_exact :
    Gateway.schema.root.distinct .ignoreAscii = true ∧
    ∀ schema : Schema, schema.root.distinct .ignoreAscii = true →
      ∀ (entries : EntryPolicy) (t : Table) (line : Line),
        let folded : Line → Step := applyLine schema ⟨.ignoreAscii, entries⟩ t
        (∀ target, (resolve .exact [] line.segments schema.root).2 = .ok target →
          folded line = applyLine schema ⟨.exact, entries⟩ t line) ∧
        ∀ other : Line, other.raw = line.raw → Respelt line.segments other.segments →
          (folded line).outcome.status.Alike (folded other).outcome.status ∧
            (folded line).table = (folded other).table := by
  refine ⟨by decide +kernel, fun schema distinct entries t line => ⟨fun target leads => ?_, ?_⟩⟩
  · exact applyLine_casing (resolve_ignoreAscii distinct leads) entries t
  · exact fun other raw same => applyLine_respelt raw same schema entries t

theorem folding_extends_exact_gateway :
    let line : Line := ⟨1, ["UpstreamCheck", "SwitchConfig", "local"], "false"⟩
    let other : Line := ⟨2, ["upstreamCheck", "switchconfig", "LOCAL"], "false"⟩
    let folded : Line → Step := applyLine Gateway.schema { casing := .ignoreAscii } []
    Gateway.schema.root.distinct .ignoreAscii = true ∧ Respelt line.segments other.segments ∧
      folded line = applyLine Gateway.schema {} [] line ∧
      (folded other).outcome.status = .applied "UpstreamCheck.SwitchConfig.local" ∧
      (folded line).table = (folded other).table := by
  intro line other folded
  have respelt : Respelt line.segments other.segments :=
    .cons (by decide) (.cons (by decide) (.cons (by decide) .nil))
  have leads : (resolve .exact [] line.segments Gateway.schema.root).2 =
      .ok ⟨["UpstreamCheck", "SwitchConfig"], Gateway.switchConfig.leaves.head (by decide)⟩ := by rfl
  have applied : (folded line).outcome.status = .applied "UpstreamCheck.SwitchConfig.local" := by
    decide +kernel
  have distinct := folding_extends_exact.1
  obtain ⟨exactly, alike⟩ := folding_extends_exact.2 Gateway.schema distinct .rejectLine [] line
  obtain ⟨status, table⟩ := alike other rfl respelt
  exact ⟨distinct, respelt, exactly _ leads, status.eq_of_applied applied, table⟩

end Patch

end DottedPatch
