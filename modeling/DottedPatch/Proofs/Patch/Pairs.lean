import DottedPatch.Proofs.Patch.Items

namespace DottedPatch.Patch

open Text Toml

namespace Coercion

/-- The piece has a separator, and does not start with one. -/
def WellFormed (piece : String) : Prop :=
  pairSeparator ∈ piece.toList ∧ piece.toList.head? ≠ some pairSeparator

instance : DecidablePred WellFormed := fun _ => inferInstanceAs (Decidable (_ ∧ _))

structure IsPair (piece key value : String) : Prop where
  text : piece = key ++ .singleton pairSeparator ++ value
  first : pairSeparator ∉ key.toList
  ne : key ≠ ""

theorem splitPair?_eq_some_iff {piece key value : String} :
    splitPair? piece = some (key, value) ↔ IsPair piece key value := by
  rw [splitPair?, Option.filter_eq_some_iff, splitFirst?_eq_some_iff]
  constructor
  · rintro ⟨⟨first, text⟩, ne⟩
    exact ⟨text, first, of_decide_eq_true ne⟩
  · rintro ⟨text, first, ne⟩
    exact ⟨⟨first, text⟩, decide_eq_true ne⟩

theorem wellFormed_iff {piece : String} : WellFormed piece ↔ ∃ key value, IsPair piece key value := by
  constructor
  · rintro ⟨mem, head⟩
    obtain ⟨before, after, eq, first⟩ := List.eq_append_cons_of_mem mem
    refine ⟨.ofList before, .ofList after, ?text, by simpa using first, ?ne⟩
    case text => exact String.toList_injective (by simp [eq])
    case ne =>
      intro empty
      have none : before = [] := by simpa using empty
      exact head (by simp [eq, none])
  · rintro ⟨key, value, rfl, first, ne⟩
    refine ⟨by simp, fun head => ?_⟩
    obtain ⟨c, cs, hc⟩ := List.exists_cons_of_ne_nil (show key.toList ≠ [] by simpa using ne)
    have same : c = pairSeparator := by simpa [hc] using head
    exact first (by simp [hc, same])

theorem isMalformed_iff {piece : String} : isMalformed piece ↔ ¬WellFormed piece := by
  rw [isMalformed, Option.isNone_iff_eq_none, Option.eq_none_iff_forall_ne_some, wellFormed_iff]
  simp [splitPair?_eq_some_iff]

theorem isMalformed_eq_false_iff {piece : String} : isMalformed piece = false ↔ WellFormed piece := by
  rw [← Bool.not_eq_true, isMalformed_iff, Classical.not_not]

variable {raw : String}

theorem map_skipEntry (raw : String) :
    map .skipEntry raw = .ok (.ofList ((tokens entrySeparator raw).filterMap splitPair?)) := rfl

theorem map_rejectLine (raw : String) :
    map .rejectLine raw =
      match (tokens entrySeparator raw).find? isMalformed with
      | some piece => .error (.malformedEntry piece)
      | none => map .skipEntry raw := by
  rw [map_skipEntry]
  cases found : (tokens entrySeparator raw).find? isMalformed <;> simp only [map, found]

theorem find?_isMalformed_eq_none {pieces : List String} :
    pieces.find? isMalformed = none ↔ ∀ piece ∈ pieces, WellFormed piece := by
  simp [List.find?_eq_none, isMalformed_eq_false_iff]

theorem map_of_wellFormed (h : ∀ piece ∈ tokens entrySeparator raw, WellFormed piece) :
    map .rejectLine raw = map .skipEntry raw := by
  rw [map_rejectLine, find?_isMalformed_eq_none.2 h]

theorem map_eq_error_iff {r : Rejection} :
    map .rejectLine raw = .error r ↔ ∃ before piece after,
      tokens entrySeparator raw = before ++ piece :: after ∧ (∀ p ∈ before, WellFormed p) ∧
        ¬WellFormed piece ∧ r = .malformedEntry piece := by
  rw [map_rejectLine]
  constructor
  · intro h
    split at h
    · rename_i piece found
      obtain ⟨malformed, before, after, eq, earlier⟩ := List.find?_eq_some_iff_append.1 found
      refine ⟨before, piece, after, eq, fun p hp => ?_, isMalformed_iff.1 malformed,
        (Except.error.inj h).symm⟩
      simpa [isMalformed_eq_false_iff] using earlier p hp
    · cases h
  · rintro ⟨before, piece, after, eq, earlier, malformed, rfl⟩
    rw [eq, List.find?_append, find?_isMalformed_eq_none.2 earlier, Option.none_or,
      List.find?_cons_of_pos (isMalformed_iff.2 malformed)]

theorem exists_map_iff :
    (∃ m, map .rejectLine raw = .ok m) ↔ ∀ piece ∈ tokens entrySeparator raw, WellFormed piece := by
  constructor
  · rintro ⟨m, h⟩
    rw [map_rejectLine] at h
    split at h
    · cases h
    · rename_i none
      exact find?_isMalformed_eq_none.1 none
  · intro h
    exact ⟨_, (map_of_wellFormed h).trans (map_skipEntry raw)⟩

theorem filterMap_wellFormed (pieces : List String) :
    (pieces.filter WellFormed).filterMap splitPair? = pieces.filterMap splitPair? := by
  rw [List.filterMap_filter]
  refine List.filterMap_congr fun piece _ => ?_
  split
  · rfl
  · rename_i h
    exact (Option.isNone_iff_eq_none.1 (isMalformed_iff.2 (by simpa using h))).symm

theorem tokens_wellFormed (raw : String) :
    tokens entrySeparator (join entrySeparator ((tokens entrySeparator raw).filter WellFormed)) =
      (tokens entrySeparator raw).filter WellFormed :=
  tokens_join fun _ hp => of_mem_tokens (List.mem_of_mem_filter hp)

theorem map_join_wellFormed (raw : String) :
    map .rejectLine (join entrySeparator ((tokens entrySeparator raw).filter WellFormed)) =
      map .skipEntry raw := by
  rw [map_of_wellFormed, map_skipEntry, map_skipEntry, tokens_wellFormed, filterMap_wellFormed]
  rw [tokens_wellFormed]
  exact fun piece hp => of_decide_eq_true (List.mem_filter.1 hp).2

theorem join_wellFormed_ne_null (raw : String) :
    join entrySeparator ((tokens entrySeparator raw).filter WellFormed) ≠ nullText := by
  intro eq
  have pieces := tokens_wellFormed raw
  rw [eq, show tokens entrySeparator nullText = [nullText] by decide] at pieces
  have formed : nullText ∈ (tokens entrySeparator raw).filter WellFormed :=
    pieces ▸ List.mem_cons_self
  exact absurd (of_decide_eq_true (List.mem_filter.1 formed).2) (by decide)

theorem eq_ofList_of_map {policy : EntryPolicy} {m : Config.StringMap} (h : map policy raw = .ok m) :
    m = .ofList ((tokens entrySeparator raw).filterMap splitPair?) := by
  cases policy with
  | skipEntry => exact (Except.ok.inj h).symm
  | rejectLine =>
    rw [map_of_wellFormed (exists_map_iff.1 ⟨m, h⟩)] at h
    exact (Except.ok.inj h).symm

theorem mem_entries_iff {policy : EntryPolicy} {m : Config.StringMap} (h : map policy raw = .ok m)
    {key value : String} :
    (key, value) ∈ m.entries ↔ ∃ before piece after,
      tokens entrySeparator raw = before ++ piece :: after ∧ IsPair piece key value ∧
        ∀ later ∈ after, ∀ other, ¬IsPair later key other := by
  obtain rfl := eq_ofList_of_map h
  rw [← (Config.StringMap.sorted _).lookup_eq_some_iff, Config.StringMap.ofList,
    Entries.lookup_ofList_eq_some_iff]
  simp only [ne_eq, splitPair?_eq_some_iff]

theorem exists_mem_entries_iff {policy : EntryPolicy} {m : Config.StringMap}
    (h : map policy raw = .ok m) {key : String} :
    (∃ value, (key, value) ∈ m.entries) ↔
      ∃ piece ∈ tokens entrySeparator raw, ∃ value, IsPair piece key value := by
  constructor
  · rintro ⟨value, hm⟩
    obtain ⟨before, piece, after, eq, pair, -⟩ := (mem_entries_iff h).1 hm
    exact ⟨piece, by simp [eq], value, pair⟩
  · rintro ⟨piece, hp, value, pair⟩
    cases found : Entries.lookup key m.entries with
    | some last => exact ⟨last, Entries.mem_of_lookup found⟩
    | none =>
      rw [eq_ofList_of_map h] at found
      exact absurd (splitPair?_eq_some_iff.2 pair)
        (Entries.lookup_ofList_eq_none_iff.1 found piece hp value)

end Coercion

open Coercion

theorem coerce_map {leaf : Leaf} (map : leaf.kind = .map) {raw : String} (hraw : raw ≠ nullText)
    (policy : EntryPolicy) :
    coerce policy leaf raw = (Coercion.map policy raw).map fun m => some (.map m) := by
  rw [coerce, if_neg hraw, map, coerceTo]
  cases Coercion.map policy raw <;> rfl

/-- A leaf of maps reads its text piece by piece. A piece is well formed if it has a separator and does
not start with one. One policy takes a text exactly if all its pieces are well formed, and rejects it
for the first that is not; the other takes every text, and as if the pieces that are not well formed
were not there. The map has a value for the key of each well-formed piece, and it is that of the last
one with this key. -/
theorem coerce_map_pieces {leaf : Leaf} (map : leaf.kind = .map) {raw : String}
    (hraw : raw ≠ nullText) :
    let pieces := tokens entrySeparator raw
    ((∃ v, coerce .rejectLine leaf raw = .ok v) ↔ ∀ piece ∈ pieces, WellFormed piece) ∧
    (∀ r, coerce .rejectLine leaf raw = .error r ↔ ∃ before piece after,
      pieces = before ++ piece :: after ∧ (∀ p ∈ before, WellFormed p) ∧ ¬WellFormed piece ∧
        r = .malformedEntry piece) ∧
    (∃ v, coerce .skipEntry leaf raw = .ok v) ∧
    (∀ v w, coerce .rejectLine leaf raw = .ok v → coerce .skipEntry leaf raw = .ok w → v = w) ∧
    coerce .skipEntry leaf raw =
      coerce .rejectLine leaf (join entrySeparator (pieces.filter WellFormed)) ∧
    ∀ policy v, coerce policy leaf raw = .ok v → ∃ m, v = some (.map m) ∧
      (∀ key, (∃ value, (key, value) ∈ m.entries) ↔
        ∃ piece ∈ pieces, WellFormed piece ∧ ∃ value, IsPair piece key value) ∧
      ∀ key value, (key, value) ∈ m.entries ↔ ∃ before piece after,
        pieces = before ++ piece :: after ∧ IsPair piece key value ∧
          ∀ later ∈ after, ∀ other, ¬IsPair later key other := by
  intro pieces
  rw [coerce_map map hraw, coerce_map map hraw,
    coerce_map map (join_wellFormed_ne_null raw), map_join_wellFormed]
  refine ⟨?_, fun r => ?_, ⟨_, rfl⟩, fun v w hv hw => ?_, rfl, fun policy v hv => ?_⟩
  · rw [← exists_map_iff]
    constructor
    · rintro ⟨v, hv⟩
      obtain ⟨m, hm, -⟩ := ok_of_map hv
      exact ⟨m, hm⟩
    · rintro ⟨m, hm⟩
      exact ⟨_, by rw [hm]; rfl⟩
  · rw [← map_eq_error_iff]
    cases Coercion.map .rejectLine raw <;> simp [Except.map]
  · obtain ⟨m, hm, -⟩ := ok_of_map hv
    rw [map_of_wellFormed (exists_map_iff.1 ⟨m, hm⟩)] at hv
    exact Except.ok.inj (hv.symm.trans hw)
  · rw [coerce_map map hraw] at hv
    obtain ⟨m, hm, rfl⟩ := ok_of_map hv
    refine ⟨m, rfl, fun key => ?_, fun key value => mem_entries_iff hm⟩
    rw [exists_mem_entries_iff hm]
    constructor
    · rintro ⟨piece, hp, value, pair⟩
      exact ⟨piece, hp, wellFormed_iff.2 ⟨key, value, pair⟩, value, pair⟩
    · rintro ⟨piece, hp, -, pair⟩
      exact ⟨piece, hp, pair⟩

theorem coerce_map_pieces_props :
    let leaf : Leaf := .map "props"
    let raw := "a:1;;b:x:y;:z;a:2;oops"
    leaf.kind = .map ∧ raw ≠ nullText ∧
      coerce .rejectLine leaf raw = .error (.malformedEntry ":z") ∧
      ∃ m, coerce .skipEntry leaf raw = .ok (some (.map m)) ∧
        coerce .rejectLine leaf "a:1;b:x:y;a:2" = .ok (some (.map m)) ∧ ("a", "2") ∈ m.entries := by
  intro leaf raw
  have plain : raw ≠ nullText := by decide
  obtain ⟨-, refused, ⟨v, taken⟩, -, joined, entries⟩ :=
    coerce_map_pieces (show leaf.kind = .map from rfl) plain
  have pieces : tokens entrySeparator raw = ["a:1", "b:x:y", ":z", "a:2", "oops"] := by decide
  have rest : join entrySeparator ((tokens entrySeparator raw).filter WellFormed) = "a:1;b:x:y;a:2" := by
    decide
  rw [pieces] at refused
  have first := (refused (.malformedEntry ":z")).2
    ⟨["a:1", "b:x:y"], ":z", ["a:2", "oops"], rfl, by decide, by decide, rfl⟩
  obtain ⟨m, rfl, -, last⟩ := entries .skipEntry v taken
  rw [rest, taken] at joined
  rw [pieces] at last
  refine ⟨rfl, plain, first, m, taken, joined.symm, (last "a" "2").2
    ⟨["a:1", "b:x:y", ":z"], "a:2", ["oops"], rfl, ⟨by decide, by decide, by decide⟩, ?_⟩⟩
  intro later hl other pair
  rw [List.mem_singleton.1 hl] at pair
  exact absurd (wellFormed_iff.2 ⟨_, _, pair⟩) (by decide)

/-- A separator that is not the first character of a piece does not make a pair of it. -/
theorem not_taken_of_inner_separator :
    ¬∀ (leaf : Leaf) (raw : String), leaf.kind = .map → raw ≠ nullText →
      ((∃ v, coerce .rejectLine leaf raw = .ok v) ↔
        ∀ piece ∈ tokens entrySeparator raw, ∃ before after, before ≠ "" ∧
          piece = before ++ .singleton pairSeparator ++ after) := by
  intro taken
  have refused : coerce .rejectLine (.map "props") ":a:b" = .error (.malformedEntry ":a:b") := by decide
  obtain ⟨v, hv⟩ := (taken (.map "props") ":a:b" rfl (by decide)).2 fun piece hp => by
    have pieces : tokens entrySeparator ":a:b" = [":a:b"] := by decide
    rw [pieces, List.mem_singleton] at hp
    subst hp
    exact ⟨":a", "b", by decide, by decide⟩
  rw [refused] at hv
  cases hv

end DottedPatch.Patch
