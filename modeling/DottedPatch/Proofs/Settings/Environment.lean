import DottedPatch.Proofs.Toml.Apart
import DottedPatch.Proofs.Settings.Variables
import Mathlib.Data.List.Pairwise

namespace DottedPatch.Settings

open Toml

theorem table?_variableValue (text : String) : (variableValue text).table? = none := by
  rw [variableValue]
  split
  · rfl
  · split
    · rfl
    · split <;> rfl

section

variable {mark : String} {entry other : String × String} {path : List String} {t : Table}

theorem addVariable_of_names (h : Names mark entry.1 path) (t : Table) :
    addVariable mark t entry = Table.insertPath (variableValue entry.2) path t := by
  rw [addVariable, variablePath?_eq_some_iff.2 h]

theorem addVariable_cases (mark : String) (entry : String × String) :
    (∀ t, addVariable mark t entry = t) ∨
      ∃ path, Names mark entry.1 path ∧
        ∀ t, addVariable mark t entry = Table.insertPath (variableValue entry.2) path t := by
  cases h : variablePath? mark entry.1 with
  | none => exact .inl fun t => by rw [addVariable, h]
  | some path =>
    have names := variablePath?_eq_some_iff.1 h
    exact .inr ⟨path, names, addVariable_of_names names⟩

theorem addVariable_comm
    (apart : ∀ p, Names mark entry.1 p → ∀ q, Names mark other.1 q → Table.Apart p q) (t : Table) :
    addVariable mark (addVariable mark t entry) other =
      addVariable mark (addVariable mark t other) entry := by
  rcases addVariable_cases mark entry with idle | ⟨p, hp, stores⟩
  · rw [idle, idle]
  rcases addVariable_cases mark other with idle | ⟨q, hq, stores'⟩
  · rw [idle, idle]
  · rw [stores, stores', stores', stores, Table.insertPath_comm (apart p hp q hq).symm]

theorem source_of_addVariable {v : Value} (hv : v.table? = none)
    (h : Table.lookupPath path (addVariable mark t entry) = some v) :
    (Names mark entry.1 path ∧ v = variableValue entry.2) ∨ Table.lookupPath path t = some v := by
  rcases addVariable_cases mark entry with idle | ⟨p, hp, stores⟩
  · rw [idle] at h
    exact .inr h
  · rw [stores] at h
    rcases Table.lookupPath_of_insertPath (table?_variableValue _) hv h with ⟨rfl, rfl⟩ | before
    · exact .inl ⟨hp, rfl⟩
    · exact .inr before

end

theorem environmentTable_concat (mark : String) (environment : List (String × String))
    (entry : String × String) :
    environmentTable mark (environment ++ [entry]) =
      addVariable mark (environmentTable mark environment) entry := by
  simp [environmentTable, List.foldl_append]

/-- No variable is for the setting of another one, or for one within it. -/
def VariablesApart (mark : String) (environment : List (String × String)) : Prop :=
  environment.Pairwise fun entry other =>
    ∀ p, Names mark entry.1 p → ∀ q, Names mark other.1 q → Table.Apart p q

theorem variablesApart_iff {mark : String} {environment : List (String × String)} :
    VariablesApart mark environment ↔
      (environment.filterMap fun entry => variablePath? mark entry.1).Pairwise Table.Apart := by
  simp only [List.pairwise_filterMap, variablePath?_eq_some_iff]
  rfl

instance (mark : String) (environment : List (String × String)) :
    Decidable (VariablesApart mark environment) := decidable_of_iff' _ variablesApart_iff

section

variable {mark : String} {environment : List (String × String)}

theorem VariablesApart.environmentTable_perm (h : VariablesApart mark environment)
    {other : List (String × String)} (perm : environment.Perm other) :
    environmentTable mark environment = environmentTable mark other := by
  have symm : Std.Symm fun entry other : String × String =>
      ∀ p, Names mark entry.1 p → ∀ q, Names mark other.1 q → Table.Apart p q :=
    ⟨fun _ _ h q hq p hp => (h p hp q hq).symm⟩
  refine perm.foldl_eq' (fun x hx y hy t => ?_) _
  -- Only variables at different places are apart, and one that is there twice meets itself.
  by_cases eq : x = y
  · rw [eq]
  · exact addVariable_comm (h.forall hx hy eq) t

theorem VariablesApart.lookupPath (h : VariablesApart mark environment) {entry : String × String}
    (he : entry ∈ environment) {path : List String} (hp : Names mark entry.1 path) :
    Table.lookupPath path (environmentTable mark environment) = some (variableValue entry.2) := by
  obtain ⟨before, after, rfl⟩ := List.append_of_mem he
  have last : (before ++ entry :: after).Perm (before ++ after ++ [entry]) :=
    List.perm_middle.trans (List.perm_append_singleton entry _).symm
  rw [h.environmentTable_perm last, environmentTable_concat, addVariable_of_names hp,
    Table.lookupPath_insertPath hp.ne_nil]

theorem source_of_environmentTable {path : List String} {v : Value} (hv : v.table? = none)
    (h : Table.lookupPath path (environmentTable mark environment) = some v) :
    ∃ entry ∈ environment, Names mark entry.1 path ∧ v = variableValue entry.2 := by
  induction environment using List.reverseRecOn with
  | nil => simp [environmentTable] at h
  | append_singleton environment entry ih =>
    rw [environmentTable_concat] at h
    rcases source_of_addVariable hv h with source | before
    · exact ⟨entry, by simp, source⟩
    · obtain ⟨other, ho, source⟩ := ih before
      exact ⟨other, List.mem_append_left _ ho, source⟩

/-- Variables for settings apart are read to the same table in every order. It holds the value of each of
them, and no other value. -/
theorem environmentTable_unordered (apart : VariablesApart mark environment) :
    (∀ other, environment.Perm other →
        environmentTable mark other = environmentTable mark environment) ∧
      (∀ entry ∈ environment, ∀ path, Names mark entry.1 path →
        Table.lookupPath path (environmentTable mark environment) = some (variableValue entry.2)) ∧
      ∀ path v, Table.lookupPath path (environmentTable mark environment) = some v → v.table? = none →
        ∃ entry ∈ environment, Names mark entry.1 path ∧ v = variableValue entry.2 :=
  ⟨fun _ perm => (apart.environmentTable_perm perm).symm, fun _ he _ hp => apart.lookupPath he hp,
    fun _ _ h hv => source_of_environmentTable hv h⟩

end

def crowded : List (String × String) :=
  [("CONFPATCH__REPORT__FORMAT", "json"), ("OTHER__CASING", "x"), ("CONFPATCH__LIMIT", "-5"),
    ("CONFPATCH__REPORT____FORMAT", "x"), ("CONFPATCH__Report__ONLY_REJECTED", "TRUE")]

theorem environmentTable_unordered_crowded :
    VariablesApart "CONFPATCH" crowded ∧
      ((∀ other, crowded.Perm other →
          environmentTable "CONFPATCH" other = environmentTable "CONFPATCH" crowded) ∧
        (∀ entry ∈ crowded, ∀ path, Names "CONFPATCH" entry.1 path →
          Table.lookupPath path (environmentTable "CONFPATCH" crowded) =
            some (variableValue entry.2)) ∧
        ∀ path v, Table.lookupPath path (environmentTable "CONFPATCH" crowded) = some v →
          v.table? = none →
            ∃ entry ∈ crowded, Names "CONFPATCH" entry.1 path ∧ v = variableValue entry.2) ∧
      environmentTable "CONFPATCH" crowded =
        [("limit", .integer (-5)),
          ("report", .table [("format", .string "json"), ("only_rejected", .boolean true)])] := by
  have apart : VariablesApart "CONFPATCH" crowded := by decide +kernel
  exact ⟨apart, environmentTable_unordered apart, by decide +kernel⟩

end DottedPatch.Settings
