import DottedPatch.Proofs.Toml.PathEdits

namespace DottedPatch.Toml.Table

def without (paths : List (List String)) (t : Table) : Table :=
  paths.foldl (fun t path => erasePath path t) t

theorem without_eq_setPaths (paths : List (List String)) (t : Table) :
    without paths t = setPaths (fun _ => none) paths t := rfl

theorem lookupPath_without_of_apart {paths : List (List String)} {q : List String}
    (h : ∀ p ∈ paths, Apart p q) (t : Table) :
    lookupPath q (without paths t) = lookupPath q t := by
  rw [without_eq_setPaths, lookupPath_setPaths_of_apart h]

theorem Ordered.erasePath {t : Table} (h : t.Ordered) (path : List String) :
    Ordered (Table.erasePath path t) := by
  induction path generalizing t with
  | nil => exact h
  | cons key rest ih =>
    by_cases hrest : rest = []
    · subst hrest
      exact h.erase
    · rw [erasePath_cons hrest]
      split
      · rename_i sub hsub
        have below := h.below key
        rw [Table.below, hsub] at below
        exact h.insert (ih below)
      · exact h

theorem Ordered.without {t : Table} (h : t.Ordered) (paths : List (List String)) :
    Ordered (Table.without paths t) := by
  induction paths generalizing t with
  | nil => exact h
  | cons path paths ih => exact ih (h.erasePath path)

theorem exists_of_lookupPath_erasePath {path q : List String} {t : Table} {v : Value}
    (h : lookupPath q (erasePath path t) = some v) :
    ∃ w, lookupPath q t = some w ∧ (v.table? = none → w = v) := by
  by_cases hpath : path = []
  · subst hpath
    exact ⟨v, h, fun _ => rfl⟩
  by_cases hq : q = []
  · subst hq
    cases h
  by_cases within : path <+: q
  · obtain ⟨rest, rfl⟩ := within
    by_cases hrest : rest = []
    · subst hrest
      rw [List.append_nil, lookupPath_erasePath] at h
      cases h
    · rw [lookupPath_append_eq hpath hrest, lookupPath_erasePath] at h
      cases h
  by_cases before : q <+: path
  · have ne : q ≠ path := fun eq => within (eq ▸ List.prefix_rfl)
    rcases lookupPath_erasePath_before hq before ne t with same | ⟨sub, sub', was, is⟩
    · exact ⟨v, same ▸ h, fun _ => rfl⟩
    · obtain rfl := Option.some.inj (h.symm.trans is)
      exact ⟨_, was, fun none => nomatch none⟩
  · rw [lookupPath_erasePath_of_apart ⟨within, before⟩] at h
    exact ⟨v, h, fun _ => rfl⟩

theorem exists_of_lookupPath_without {paths : List (List String)} {q : List String} {t : Table}
    {v : Value} (h : lookupPath q (without paths t) = some v) :
    ∃ w, lookupPath q t = some w ∧ (v.table? = none → w = v) := by
  induction paths generalizing t with
  | nil => exact ⟨v, h, fun _ => rfl⟩
  | cons path paths ih =>
    obtain ⟨u, hu, rest⟩ := ih h
    obtain ⟨w, hw, first⟩ := exists_of_lookupPath_erasePath hu
    refine ⟨w, hw, fun none => ?_⟩
    obtain rfl := rest none
    exact first none

theorem blocked_without {q : List String} {t : Table} (h : blocked q t = false)
    (paths : List (List String)) : blocked q (without paths t) = false := by
  refine Bool.eq_false_iff.2 fun hb => ?_
  obtain ⟨before, v, hpre, ne, hv, hvt⟩ := blocked_iff.1 hb
  obtain ⟨w, hw, same⟩ := exists_of_lookupPath_without hv
  obtain rfl := same hvt
  rw [blocked_iff.2 ⟨before, w, hpre, ne, hw, hvt⟩] at h
  cases h

end DottedPatch.Toml.Table
