import DottedPatch.Patch.Coercion
import DottedPatch.Proofs.Config.Places
import DottedPatch.Proofs.Except
import DottedPatch.Proofs.Number.Numerals

namespace DottedPatch

open Config

def Kind.Holds : Kind → LeafValue → Prop
  | .integer w, .integer n => w.Holds n
  | k, v => k.accepts v = true

theorem Kind.holds_sample (k : Kind) : k.Holds k.sample := by
  cases k with
  | integer w =>
    change w.Holds 7
    cases w <;> decide
  | boolean | string | set | list | map => rfl

namespace Patch

theorem coerceTo_holds {policy : EntryPolicy} {raw : String} {kind : Kind} {v : LeafValue}
    (h : coerceTo policy raw kind = .ok v) : kind.Holds v := by
  cases kind with
  | boolean =>
    obtain ⟨b, _, rfl⟩ := ok_of_map h
    rfl
  | integer w =>
    obtain ⟨n, hn, rfl⟩ := ok_of_map h
    unfold Coercion.integer at hn
    split at hn
    · rename_i m hm
      obtain rfl := Except.ok.inj hn
      exact (Numeral.read_eq_ok_iff.1 hm).2
    · cases hn
  | string | set delimiter | list delimiter =>
    obtain rfl := Except.ok.inj h
    rfl
  | map =>
    obtain ⟨m, _, rfl⟩ := ok_of_map h
    rfl

theorem coerce_cases {policy : EntryPolicy} {leaf : Leaf} {raw : String} {v : Option LeafValue}
    (h : coerce policy leaf raw = .ok v) :
    v = leaf.onNull.value? ∨ ∃ x, v = some x ∧ leaf.kind.Holds x := by
  unfold coerce at h
  split at h
  · exact .inl (Except.ok.inj h).symm
  · obtain ⟨x, hx, rfl⟩ := ok_of_map h
    exact .inr ⟨x, rfl, coerceTo_holds hx⟩

theorem coerce_of_coerceTo {policy : EntryPolicy} {leaf : Leaf} {raw : String} {v : LeafValue}
    (h : coerceTo policy raw leaf.kind = .ok v) (hraw : raw ≠ nullText) :
    coerce policy leaf raw = .ok (some v) := by
  rw [coerce, if_neg hraw, h]
  rfl

namespace Coercion

theorem tokens_empty (d : Char) : tokens d "" = [] := by
  simp [tokens, Text.splitOn]

theorem tokens_of_not_mem {d : Char} {s : String} (h : d ∉ s.toList) (hs : s ≠ "") :
    tokens d s = [s] := by
  simp [tokens, Text.splitOn, List.splitOn_eq_singleton h, hs]

theorem tokens_append (d : Char) (s u : String) :
    tokens d (s ++ .singleton d ++ u) = tokens d s ++ tokens d u := by
  have pieces : (s ++ .singleton d ++ u).toList = s.toList ++ d :: u.toList := by simp
  rw [tokens, Text.splitOn, pieces, List.splitOn_append_cons_self, List.map_append,
    List.filter_append]
  rfl

def uncut (d : Char) : String := if d = 'a' then "b" else "a"

theorem tokens_uncut (d : Char) : tokens d (uncut d) = [uncut d] := by
  unfold uncut
  split
  · rename_i eq
    subst eq
    exact tokens_of_not_mem (by decide) (by decide)
  · rename_i ne
    exact tokens_of_not_mem (by simpa using ne) (by decide)

theorem length_uncut (d : Char) : (uncut d).length = 1 := by
  unfold uncut
  split <;> rfl

theorem uncut_ne_null (d : Char) : uncut d ≠ nullText := by
  intro eq
  have := length_uncut d
  rw [eq] at this
  cases this

end Coercion

open Coercion in
theorem exists_distinct (kind : Kind) :
    ∃ raw v raw' v', raw ≠ nullText ∧ raw' ≠ nullText ∧
      coerceTo .rejectLine raw kind = .ok v ∧ coerceTo .rejectLine raw' kind = .ok v' ∧
      v.toValue ≠ v'.toValue := by
  cases kind with
  | boolean =>
    exact ⟨"true", .boolean true, "false", .boolean false, by decide, by decide, rfl, rfl, by decide⟩
  | integer w =>
    refine ⟨"1", .integer 1, "2", .integer 2, by decide, by decide, ?_, ?_, by decide⟩
    · cases w <;> rfl
    · cases w <;> rfl
  | string => exact ⟨"a", .string "a", "b", .string "b", by decide, by decide, rfl, rfl, by decide⟩
  | set d =>
    refine ⟨"", .set (.ofList []), uncut d, .set (.ofList [uncut d]), by decide, uncut_ne_null d,
      ?_, ?_, by simp [LeafValue.toValue, Config.StringSet.ofList, Config.StringSet.insert]⟩
    · rw [coerceTo, tokens_empty]
    · rw [coerceTo, tokens_uncut]
  | list d =>
    refine ⟨"", .list [], uncut d, .list [uncut d], by decide, uncut_ne_null d, ?_, ?_,
      by simp [LeafValue.toValue]⟩
    · rw [coerceTo, tokens_empty]
    · rw [coerceTo, tokens_uncut]
  | map =>
    exact ⟨"", .map (.ofList []), "a:b", .map (.ofList [("a", "b")]), by decide, by decide, rfl, rfl,
      by decide⟩

end Patch

namespace Config.Shape

def takes : Shape → LeafValue → Bool
  | .integer w, .integer n => decide (w.Holds n)
  | .boolean, .boolean _ | .string, .string _ | .strings, .set _ | .strings, .list _
  | .stringSet, .set _ | .stringMap, .map _ => true
  | _, _ => false

theorem fits_of_takes {s : Shape} {v : LeafValue} (h : s.takes v) : s.Fits v.toValue := by
  match s, v with
  | .integer w, .integer n =>
    have holds : w.Holds n := of_decide_eq_true h
    exact ⟨(⟨n, holds⟩ : Bounded w), rfl⟩
  | .boolean, .boolean b => exact ⟨b, rfl⟩
  | .string, .string text => exact ⟨text, rfl⟩
  | .strings, .set items => exact ⟨items.toList, rfl⟩
  | .strings, .list items => exact ⟨items, rfl⟩
  | .stringSet, .set items => exact ⟨items, rfl⟩
  | .stringMap, .map entries => exact ⟨entries, rfl⟩

end Config.Shape

def Kind.suits : Kind → Shape → Bool
  | .integer w, .integer u => decide (w.bits ≤ u.bits)
  | .boolean, .boolean | .string, .string | .set _, .strings | .set _, .stringSet
  | .list _, .strings | .map, .stringMap => true
  | _, _ => false

def OnNull.suits : OnNull → Place → Bool
  | .reset v, p => p.shape.takes v
  | .unset, p => p.optional

theorem Width.Holds.mono {w u : Width} (h : w.bits ≤ u.bits) {n : Int} (hn : w.Holds n) :
    u.Holds n := by
  cases w <;> cases u <;>
    simp only [Width.Holds, Width.bits, Width.least, Width.greatest] at h hn ⊢ <;> omega

theorem Kind.takes_of_suits {k : Kind} {s : Shape} (h : k.suits s) {v : LeafValue} (hv : k.Holds v) :
    s.takes v := by
  match k, s with
  | .integer w, .integer u =>
    cases v with
    | integer n => exact decide_eq_true (Width.Holds.mono (of_decide_eq_true h) hv)
    | boolean | string | set | list | map => simp [Kind.Holds, Kind.accepts] at hv
  | .boolean, .boolean | .string, .string | .set _, .strings | .set _, .stringSet
  | .list _, .strings | .map, .stringMap =>
    cases v <;> simp_all [Kind.Holds, Kind.accepts, Shape.takes]

def Leaf.Suits (l : Leaf) (p : Place) : Prop :=
  ∀ policy raw v, Patch.coerce policy l raw = .ok v →
    Place.Fits (some p) (v.map LeafValue.toValue)

theorem Leaf.suits_of_suits {l : Leaf} {p : Place} (hk : l.kind.suits p.shape)
    (hn : l.onNull.suits p) : l.Suits p := by
  intro policy raw v hv
  rcases Patch.coerce_cases hv with rfl | ⟨x, rfl, hx⟩
  · cases hl : l.onNull with
    | reset v =>
      rw [hl] at hn
      exact Shape.fits_of_takes hn
    | unset =>
      rw [hl] at hn
      exact hn
  · exact Shape.fits_of_takes (Kind.takes_of_suits hk hx)

end DottedPatch
