import DottedPatch.Config.Decode
import DottedPatch.Config.Encode
import DottedPatch.Proofs.Toml.Tables
import Mathlib.Data.List.Sort

namespace DottedPatch.Config

open Toml

namespace StringSet

theorem insert_of_forall_lt {s : String} {ts : List String} (h : ∀ t ∈ ts, s < t) :
    insert s ts = s :: ts := by
  cases ts with
  | nil => rfl
  | cons t ts =>
    have lt := h t List.mem_cons_self
    have ne : s ≠ t := by
      rintro rfl
      exact String.lt_irrefl s lt
    simp [insert, ne, lt]

theorem foldr_insert_of_sorted {ss : List String} (h : ss.Pairwise (· < ·)) :
    ss.foldr insert [] = ss := by
  induction ss with
  | nil => rfl
  | cons s ss ih =>
    obtain ⟨hs, h⟩ := List.pairwise_cons.1 h
    rw [List.foldr_cons, ih h, insert_of_forall_lt hs]

@[simp] theorem ofList_toList (s : StringSet) : ofList s.toList = s := by
  obtain ⟨ss, h⟩ := s
  simp only [ofList, foldr_insert_of_sorted h]

theorem mem_ofList {s : String} {ss : List String} : s ∈ (ofList ss).toList ↔ s ∈ ss := by
  change s ∈ ss.foldr insert [] ↔ s ∈ ss
  induction ss with
  | nil => rfl
  | cons t ss ih => rw [List.foldr_cons, mem_insert, ih, List.mem_cons]

theorem ofList_congr {ss ts : List String} (h : ∀ s, s ∈ ss ↔ s ∈ ts) : ofList ss = ofList ts := by
  have members : (ofList ss).toList = (ofList ts).toList :=
    (sorted_ofList ss).eq_of_mem_iff (sorted_ofList ts) fun s =>
      mem_ofList.trans ((h s).trans mem_ofList.symm)
  rw [← ofList_toList (ofList ss), members, ofList_toList]

end StringSet

theorem lookup_foldl_insert {α : Type} {es : Entries α} (h : Entries.Sorted es) (acc : Entries α)
    (key : String) :
    Entries.lookup key (es.foldl (fun acc (k, v) => Entries.insert k v acc) acc) =
      (Entries.lookup key es).or (Entries.lookup key acc) := by
  induction es generalizing acc with
  | nil => rfl
  | cons e es ih =>
    obtain ⟨k, v⟩ := e
    rw [List.foldl_cons, ih h.tail, Entries.lookup_insert]
    by_cases eq : k = key
    · subst key
      simp [Entries.lookup, h.lookup_head_tail]
    · simp [Entries.lookup, eq]

theorem ofList_of_sorted {α : Type} {es : Entries α} (h : Entries.Sorted es) :
    Entries.ofList es = es := by
  apply (Entries.sorted_ofList es).ext h
  intro key
  rw [Entries.ofList, lookup_foldl_insert h]
  simp

namespace StringMap

theorem sorted_table (m : StringMap) : Entries.Sorted m.table := List.pairwise_map.2 m.sorted

theorem lookup_table (key : String) (m : StringMap) :
    Entries.lookup key m.table = (Entries.lookup key m.entries).map .string := by
  rw [table]
  generalize m.entries = es
  induction es with
  | nil => rfl
  | cons e es ih =>
    obtain ⟨k, v⟩ := e
    simp only [List.map_cons, Entries.lookup, ih]
    split <;> rfl

end StringMap

theorem mapM_decodeString (ss : List String) : (ss.map Value.string).mapM decodeString = .ok ss := by
  induction ss with
  | nil => rfl
  | cons s ss ih => simp [List.mapM_cons, ih, decodeString, bind, Except.bind, pure, Except.pure]

theorem decodeStrings_strings (ss : List String) : decodeStrings (.array (ss.map .string)) = .ok ss :=
  mapM_decodeString ss

def decodeEntry (e : String × Value) : Decoded (String × String) :=
  ((decodeString e.2).within e.1).map fun s => (e.1, s)

theorem decodeStringMap_table (es : Table) :
    decodeStringMap (.table es) = (es.mapM decodeEntry).map .ofList := rfl

theorem decodeEntry_of_ok {key : String} {v : Value} {s : String} (h : decodeString v = .ok s) :
    decodeEntry (key, v) = .ok (key, s) := by
  simp [decodeEntry, h, Decoded.within, Except.map]

theorem ok_of_decodeEntry {e : String × Value} {d : String × String} (h : decodeEntry e = .ok d) :
    d.1 = e.1 ∧ decodeString e.2 = .ok d.2 := by
  obtain ⟨key, v⟩ := e
  cases hs : decodeString v with
  | error err => simp [decodeEntry, hs, Decoded.within, Except.map] at h
  | ok s =>
    rw [decodeEntry_of_ok hs] at h
    obtain rfl := Except.ok.inj h
    exact ⟨rfl, rfl⟩

theorem mapM_decodeEntry_cons {e : String × Value} {es : Table} {ds : Entries String} :
    (e :: es).mapM decodeEntry = .ok ds ↔
      ∃ d ds', decodeEntry e = .ok d ∧ es.mapM decodeEntry = .ok ds' ∧ ds = d :: ds' := by
  rw [List.mapM_cons]
  cases decodeEntry e with
  | error err => simp [bind, Except.bind]
  | ok d =>
    cases es.mapM decodeEntry with
    | error err => simp [bind, Except.bind]
    | ok ds' => simp [bind, Except.bind, pure, Except.pure, eq_comm]

theorem keys_mapM_decodeEntry {es : Table} {ds : Entries String} (h : es.mapM decodeEntry = .ok ds) :
    ds.map Prod.fst = es.map Prod.fst := by
  induction es generalizing ds with
  | nil =>
    obtain rfl := Except.ok.inj h
    rfl
  | cons e es ih =>
    obtain ⟨d, ds', hd, hs, rfl⟩ := mapM_decodeEntry_cons.1 h
    rw [List.map_cons, List.map_cons, ih hs, (ok_of_decodeEntry hd).1]

theorem lookup_mapM_decodeEntry {es : Table} {ds : Entries String} (h : es.mapM decodeEntry = .ok ds)
    (key : String) :
    match Entries.lookup key es with
    | some v => ∃ s, decodeString v = .ok s ∧ Entries.lookup key ds = some s
    | none => Entries.lookup key ds = none := by
  induction es generalizing ds with
  | nil =>
    obtain rfl := Except.ok.inj h
    rfl
  | cons e es ih =>
    obtain ⟨⟨k, s⟩, ds', hd, hs, rfl⟩ := mapM_decodeEntry_cons.1 h
    obtain ⟨l, v⟩ := e
    obtain ⟨rfl, hv⟩ := ok_of_decodeEntry hd
    by_cases eq : k = key
    · simpa [Entries.lookup, eq] using hv
    · simpa [Entries.lookup, eq] using ih hs

theorem exists_mapM_decodeEntry {es : Table} (h : ∀ e ∈ es, ∃ s, decodeString e.2 = .ok s) :
    ∃ ds, es.mapM decodeEntry = .ok ds := by
  induction es with
  | nil => exact ⟨[], rfl⟩
  | cons e es ih =>
    obtain ⟨s, hs⟩ := h e List.mem_cons_self
    obtain ⟨ds, hds⟩ := ih fun d hd => h d (List.mem_cons_of_mem _ hd)
    exact ⟨_, mapM_decodeEntry_cons.2 ⟨_, ds, decodeEntry_of_ok hs, hds, rfl⟩⟩

theorem decodeStringMap_map (m : StringMap) : decodeStringMap (.table m.table) = .ok m := by
  obtain ⟨es, h⟩ := m
  have read : (StringMap.table ⟨es, h⟩).mapM decodeEntry = .ok es := by
    simp only [StringMap.table]
    clear h
    induction es with
    | nil => rfl
    | cons e es ih => exact mapM_decodeEntry_cons.2 ⟨e, es, decodeEntry_of_ok rfl, ih, rfl⟩
  rw [decodeStringMap_table, read]
  simp only [Except.map, StringMap.ofList, ofList_of_sorted h]

end DottedPatch.Config
