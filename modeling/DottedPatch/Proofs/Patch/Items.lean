import DottedPatch.Proofs.Patch.Kinds
import DottedPatch.Proofs.Text.Surplus

namespace DottedPatch.Patch

namespace Coercion

open Text

variable {d : Char}

theorem tokens_pads {s u : String} (h : Pads d s u) : tokens d u = tokens d s := by
  cases h with
  | front => simp [tokens, splitOn_front]
  | back => simpa [tokens_empty] using tokens_append d s ""
  | beside before after =>
    rw [tokens_append, tokens_append]
    simp [tokens, splitOn_front]

theorem tokens_padded {s u : String} (h : Padded d s u) : tokens d u = tokens d s := by
  induction h with
  | refl => rfl
  | tail _ pads ih => rw [tokens_pads pads, ih]

theorem padded_tokens (d : Char) (raw : String) : Padded d (join d (tokens d raw)) raw := by
  have surplus := @padded_join_filter d _ (splitOn_ne_nil d raw)
  rwa [join_splitOn] at surplus

theorem of_mem_tokens {raw item : String} (h : item ∈ tokens d raw) :
    item ≠ "" ∧ d ∉ item.toList := by
  obtain ⟨piece, ne⟩ := List.mem_filter.1 h
  exact ⟨of_decide_eq_true ne, separator_not_mem piece⟩

theorem tokens_join {items : List String} (h : ∀ item ∈ items, item ≠ "" ∧ d ∉ item.toList) :
    tokens d (join d items) = items := by
  by_cases none : items = []
  · subst none
    exact tokens_empty d
  · rw [tokens, splitOn_join none fun item hi => (h item hi).2]
    exact List.filter_eq_self.2 fun item hi => decide_eq_true (h item hi).1

end Coercion

open Config Text Coercion

/-- A leaf of a list takes exactly the items that a text joins, however many delimiters stand at the ends
of the text or beside one another; every text joins such items, and without surplus delimiters it is
their join. A leaf of a set takes the same items, in order and each once, so that neither their order
in the text counts nor how often they come. -/
theorem coerce_items (policy : EntryPolicy) {d : Char} {list set : Leaf} (hl : list.kind = .list d)
    (hs : set.kind = .set d) :
    (∀ items raw, (∀ item ∈ items, item ≠ "" ∧ d ∉ item.toList) → Padded d (join d items) raw →
      raw ≠ nullText → coerce policy list raw = .ok (some (.list items))) ∧
    (∀ raw, raw ≠ nullText → ∃ items members,
      coerce policy list raw = .ok (some (.list items)) ∧
      (∀ item ∈ items, item ≠ "" ∧ d ∉ item.toList) ∧
      Padded d (join d items) raw ∧ (∀ s, ¬Pads d s (join d items)) ∧
      coerce policy set raw = .ok (some (.set members)) ∧
      (LeafValue.set members).toValue = .array (members.toList.map .string) ∧
      ∀ item, item ∈ members.toList ↔ item ∈ items) ∧
    ∀ raw raw' items items', raw ≠ nullText → raw' ≠ nullText →
      coerce policy list raw = .ok (some (.list items)) →
      coerce policy list raw' = .ok (some (.list items')) →
      (∀ item, item ∈ items ↔ item ∈ items') → coerce policy set raw = coerce policy set raw' := by
  have ofList {raw : String} (h : raw ≠ nullText) :
      coerce policy list raw = .ok (some (.list (tokens d raw))) :=
    coerce_of_coerceTo (by rw [hl]; rfl) h
  have ofSet {raw : String} (h : raw ≠ nullText) :
      coerce policy set raw = .ok (some (.set (.ofList (tokens d raw)))) :=
    coerce_of_coerceTo (by rw [hs]; rfl) h
  refine ⟨?_, ?_, ?_⟩
  · intro items raw hitems padded hraw
    rw [ofList hraw, tokens_padded padded, tokens_join hitems]
  · intro raw hraw
    exact ⟨tokens d raw, .ofList (tokens d raw), ofList hraw, fun item => of_mem_tokens,
      padded_tokens d raw, not_pads_join fun item => of_mem_tokens, ofSet hraw, rfl,
      fun item => StringSet.mem_ofList⟩
  · intro raw raw' items items' hraw hraw' h h' same
    obtain rfl : tokens d raw = items := by simpa using (ofList hraw).symm.trans h
    obtain rfl : tokens d raw' = items' := by simpa using (ofList hraw').symm.trans h'
    rw [ofSet hraw, ofSet hraw', StringSet.ofList_congr same]

theorem coerce_items_paths :
    let list : Leaf := .list ';' "paths"
    let set : Leaf := .set ';' "paths"
    list.kind = .list ';' ∧ set.kind = .set ';' ∧ Padded ';' (join ';' ["/a", "/b"]) ";/a;;/b;" ∧
      ";/a;;/b;" ≠ nullText ∧ "/b;/a;/b" ≠ nullText ∧
      coerce .rejectLine list ";/a;;/b;" = .ok (some (.list ["/a", "/b"])) ∧
      coerce .rejectLine set ";/a;;/b;" = coerce .rejectLine set "/b;/a;/b" := by
  intro list set
  have padded : Padded ';' (join ';' ["/a", "/b"]) ";/a;;/b;" :=
    ((Relation.ReflTransGen.single (.beside "/a" "/b")).tail (.front "/a;;/b")).tail (.back ";/a;;/b")
  have long : ";/a;;/b;" ≠ nullText := by decide
  have short : "/b;/a;/b" ≠ nullText := by decide
  obtain ⟨takes, -, members⟩ := coerce_items .rejectLine (show list.kind = .list ';' from rfl)
    (show set.kind = .set ';' from rfl)
  have first := takes ["/a", "/b"] ";/a;;/b;" (by decide) padded long
  have second := takes ["/b", "/a", "/b"] "/b;/a;/b" (by decide) .refl short
  exact ⟨rfl, rfl, padded, long, short, first,
    members _ _ _ _ long short first second fun item => by grind⟩

end DottedPatch.Patch
