import DottedPatch.Proofs.Config.Leaves
import DottedPatch.Proofs.Except
import DottedPatch.Proofs.Patch.Description
import Mathlib.Data.List.Forall2

namespace DottedPatch

open Config Toml

inductive Toml.Value.Text : Value → String → Prop
  | string (s : String) : Text (.string s) s
  | datetime (d : Datetime) : Text (.datetime d) d.text

/-- What a leaf of the kind holds where a base has the value. A set holds its items once. -/
inductive Kind.ReadsAs : Kind → Value → LeafValue → Prop
  | boolean (b : Bool) : ReadsAs .boolean (.boolean b) (.boolean b)
  | integer {w : Width} {n : Int} : w.Holds n → ReadsAs (.integer w) (.integer n) (.integer n)
  | string {v : Value} {s : String} : v.Text s → ReadsAs .string v (.string s)
  | set {d : Char} {items : List Value} {ss : List String} {set : StringSet} :
      List.Forall₂ Value.Text items ss → (∀ s, s ∈ set.toList ↔ s ∈ ss) →
      ReadsAs (.set d) (.array items) (.set set)
  | list {d : Char} {items : List Value} {ss : List String} : List.Forall₂ Value.Text items ss →
      ReadsAs (.list d) (.array items) (.list ss)
  | map {t : Table} {m : StringMap} :
      (∀ key, Option.Rel Value.Text (Entries.lookup key t) (Entries.lookup key m.entries)) →
      ReadsAs .map (.table t) (.map m)

def Kind.fills : Kind → Shape → Bool
  | .integer w, .integer u => decide (w = u)
  | .boolean, .boolean | .string, .string | .set _, .stringSet | .list _, .strings
  | .map, .stringMap => true
  | _, _ => false

theorem text_of_decodeString {v : Value} {s : String} (h : decodeString v = .ok s) : v.Text s := by
  unfold decodeString at h
  split at h
  · obtain rfl := Except.ok.inj h
    exact .string _
  · obtain rfl := Except.ok.inj h
    exact .datetime _
  · cases h

theorem texts_of_decodeStrings {v : Value} {ss : List String} (h : decodeStrings v = .ok ss) :
    ∃ items, v = .array items ∧ List.Forall₂ Value.Text items ss := by
  unfold decodeStrings at h
  split at h
  · rename_i items
    refine ⟨items, rfl, ?_⟩
    induction items generalizing ss with
    | nil =>
      obtain rfl := Except.ok.inj h
      exact .nil
    | cons v items ih =>
      rw [List.mapM_cons] at h
      obtain ⟨s, hs, h⟩ := ok_of_bind h
      obtain ⟨ss, hss, h⟩ := ok_of_bind h
      obtain rfl := Except.ok.inj h
      exact .cons (text_of_decodeString hs) (ih hss)
  · cases h

theorem integer_of_decode {w : Width} {v : Value} {n : Bounded w}
    (h : decodeInteger w v = .ok n) : v = .integer n.val := by
  unfold decodeInteger at h
  split at h
  · split at h
    · rename_i m b hm
      obtain rfl := Except.ok.inj h
      unfold Bounded.ofInt? at hm
      split at hm
      · obtain rfl := Option.some.inj hm
        rfl
      · cases hm
    · cases h
  · cases h

theorem boolean_of_decode {v : Value} {b : Bool} (h : Shape.boolean.decode v = .ok b) :
    v = .boolean b := by
  unfold Shape.decode at h
  split at h
  · obtain rfl := Except.ok.inj h
    rfl
  · cases h

theorem Kind.readsAs_of_reads {k : Kind} {s : Shape} (h : k.fills s) {v w : Value} (hv : v.Ordered)
    (hw : s.Reads v w) : ∃ x, k.ReadsAs v x ∧ w = x.toValue := by
  match k, s with
  | .boolean, .boolean =>
    obtain ⟨b, hb, rfl⟩ := hw
    obtain rfl := boolean_of_decode hb
    exact ⟨.boolean b, .boolean b, rfl⟩
  | .integer w, .integer u =>
    obtain ⟨n, hn, rfl⟩ := hw
    obtain rfl := integer_of_decode hn
    obtain rfl : w = u := of_decide_eq_true h
    exact ⟨.integer n.val, .integer n.holds, rfl⟩
  | .string, .string =>
    obtain ⟨text, htext, rfl⟩ := hw
    exact ⟨.string text, .string (text_of_decodeString htext), rfl⟩
  | .set d, .stringSet =>
    obtain ⟨set, hset, rfl⟩ := hw
    obtain ⟨ss, hss, rfl⟩ := ok_of_map hset
    obtain ⟨items, rfl, texts⟩ := texts_of_decodeStrings hss
    exact ⟨.set (.ofList ss), .set texts fun _ => StringSet.mem_ofList, rfl⟩
  | .list d, .strings =>
    obtain ⟨ss, hss, rfl⟩ := hw
    obtain ⟨items, rfl, texts⟩ := texts_of_decodeStrings hss
    exact ⟨.list ss, .list texts, rfl⟩
  | .map, .stringMap =>
    obtain ⟨m, hm, rfl⟩ := id hw
    cases v with
    | scalar => exact absurd hw (Shape.not_reads_scalar rfl)
    | array => cases hm
    | table t =>
      refine ⟨.map m, .map fun key => ?_, rfl⟩
      obtain ⟨_, eq, -, read⟩ := hw.table rfl rfl (Table.Ordered.sorted hv)
      obtain rfl := Value.table.inj eq
      have read := read key
      rw [StringMap.lookup_table] at read
      cases hl : Entries.lookup key t with
      | none =>
        rw [hl] at read
        rw [Option.map_eq_none_iff.1 read.2]
        exact .none
      | some v =>
        rw [hl] at read
        obtain ⟨_, ⟨text, htext, rfl⟩, hlookup⟩ := read
        obtain ⟨text', hentry, eq⟩ := Option.map_eq_some_iff.1 hlookup
        obtain rfl : text' = text := Scalar.string.inj (Value.scalar.inj eq)
        rw [hentry]
        exact .some (text_of_decodeString htext)

theorem decodeString_of_text {v : Value} {s : String} (h : v.Text s) : decodeString v = .ok s := by
  cases h <;> rfl

theorem decodeStrings_of_texts {items : List Value} {ss : List String}
    (h : List.Forall₂ Value.Text items ss) : decodeStrings (.array items) = .ok ss := by
  change items.mapM decodeString = .ok ss
  induction h with
  | nil => rfl
  | cons text _ ih =>
    rw [List.mapM_cons, decodeString_of_text text, ih]
    rfl

theorem Kind.reads_of_readsAs {k : Kind} {s : Shape} (h : k.fills s) {v : Value} {x : LeafValue}
    (hv : v.Ordered) (hx : k.ReadsAs v x) : ∃ w, s.Reads v w := by
  cases hx with
  | boolean b =>
    cases s with
    | boolean => exact ⟨_, b, rfl, rfl⟩
    | _ => cases h
  | integer holds =>
    cases s with
    | integer u =>
      obtain rfl := of_decide_eq_true h
      refine ⟨_, ⟨_, holds⟩, ?_, rfl⟩
      simp [Shape.decode, decodeInteger, Bounded.ofInt?, holds]
    | _ => cases h
  | string text =>
    cases s with
    | string => exact ⟨_, _, decodeString_of_text text, rfl⟩
    | _ => cases h
  | @set d items ss set texts _ =>
    cases s with
    | stringSet =>
      have read : (decodeStrings (.array items)).map StringSet.ofList = .ok (.ofList ss) := by
        rw [decodeStrings_of_texts texts]
        rfl
      exact ⟨_, _, read, rfl⟩
    | _ => cases h
  | list texts =>
    cases s with
    | strings => exact ⟨_, _, decodeStrings_of_texts texts, rfl⟩
    | _ => cases h
  | @map t m entries =>
    cases s with
    | stringMap =>
      refine Shape.exists_reads rfl rfl (Table.Ordered.sorted hv) fun key => ?_
      have entry := entries key
      cases hl : Entries.lookup key t with
      | none => exact ⟨none, rfl, rfl⟩
      | some v =>
        rw [hl] at entry
        generalize Entries.lookup key m.entries = text? at entry
        cases entry with
        | some text => exact ⟨_, _, ⟨_, decodeString_of_text text, rfl⟩, rfl⟩
    | _ => cases h

end DottedPatch
