import DottedPatch.Proofs.Config.FileLines
import Mathlib.Data.Nat.Find

namespace DottedPatch.Config

open Toml

structure Heading where
  table : List String := []
  remarked : Bool := false
  deriving DecidableEq

namespace FileLine

def heading (now : Heading) : FileLine → Heading
  | .header _ keys _ remark => ⟨keys.map HeaderKey.name, remark.isSome⟩
  | _ => now

def key? : FileLine → Option String
  | .assignment _ key _ _ => some key
  | _ => none

end FileLine

def Heading.behind (now : Heading) (rows : List FileLine) : Heading := rows.foldl FileLine.heading now

def AssignedAt (rows : List FileLine) (table : List String) (key : String) (i : Nat) : Prop :=
  rows[i]?.bind FileLine.key? = some key ∧ (Heading.behind {} (rows.take i)).table = table

instance (rows : List FileLine) (table : List String) (key : String) :
    DecidablePred (AssignedAt rows table key) := fun _ => inferInstanceAs (Decidable (_ ∧ _))

/-- The number of the first line that is meant, where the lines are numbered from `first` on; zero if none
is meant. -/
def Numbers (first : Nat) (meant : Nat → Prop) (line : Nat) : Prop :=
  (∀ i, meant i → (∀ j < i, ¬meant j) → line = first + i) ∧ ((∀ i, ¬meant i) → line = 0)

theorem Numbers.here {first : Nat} {meant : Nat → Prop} (h : meant 0) : Numbers first meant first := by
  refine ⟨fun i _ before => ?_, fun none => absurd h (none 0)⟩
  cases i with
  | zero => rfl
  | succ i => exact absurd h (before 0 (Nat.succ_pos i))

theorem Numbers.later {first line : Nat} {meant : Nat → Prop} (h : ¬meant 0)
    (later : Numbers (first + 1) (fun i => meant (i + 1)) line) : Numbers first meant line := by
  refine ⟨fun i hi before => ?_, fun none => later.2 fun i => none (i + 1)⟩
  cases i with
  | zero => exact absurd hi h
  | succ i =>
    have line := later.1 i hi fun j hj => before (j + 1) (Nat.succ_lt_succ hj)
    rw [line, Nat.add_assoc, Nat.add_comm 1]

/-- The search finds the keys of a table, but takes a header with a remark for one of another table. -/
def Heading.Seen (now : Heading) (path : List String) : Prop :=
  if now.remarked then ∃ key ∈ path, ¬BareKey key else path = now.table

theorem Heading.Seen.eq_iff {now : Heading} {path table : List String} (h : now.Seen path)
    (bare : ∀ key ∈ table, BareKey key) : path = table ↔ now.table = table ∧ ¬now.remarked := by
  rw [Seen] at h
  split at h
  · rename_i remarked
    obtain ⟨key, hkey, not⟩ := h
    simp only [remarked, not_true_eq_false, and_false, iff_false]
    rintro rfl
    exact not (bare key hkey)
  · rename_i plain
    rw [h]
    simp [plain]

variable {table : List String} {key : String}

theorem exists_lineOf_cons {row : FileLine} (plain : row.Plain) (bareTable : ∀ k ∈ table, BareKey k)
    (bareKey : BareKey key) {now : Heading} {path : List String} (seen : now.Seen path) (number : Nat)
    (lines : List String) :
    ∃ path', (row.heading now).Seen path' ∧
      lineOf table key path number (row.text :: lines) =
        if (row.key? = some key ∧ now.table = table) ∧ ¬now.remarked then number
        else lineOf table key path' (number + 1) lines := by
  rw [lineOf]
  cases row with
  | idle lead remark =>
    obtain ⟨noHeader, noKey⟩ := plain.idle_seen
    refine ⟨path, seen, ?_⟩
    simp [noHeader, noKey key bareKey, FileLine.key?]
  | header lead keys trail remark =>
    cases remark with
    | none => exact ⟨keys.map HeaderKey.name, rfl, by simp [plain.header_seen, FileLine.key?]⟩
    | some r =>
      obtain ⟨path', eq, strange⟩ := plain.remarked_seen
      exact ⟨path', strange, by simp [eq, FileLine.key?]⟩
  | assignment lead other gap value =>
    obtain ⟨noHeader, assigned⟩ := plain.assignment_seen
    have stops : (decide (path = table) &&
        assigns key (Text.trim (FileLine.assignment lead other gap value).text)) = true ↔
          (some other = some key ∧ now.table = table) ∧ ¬now.remarked := by
      rw [Bool.and_eq_true, decide_eq_true_eq, seen.eq_iff bareTable, assigned key bareKey,
        Option.some.injEq, and_comm, and_assoc]
    refine ⟨path, seen, ?_⟩
    simp only [noHeader]
    exact ite_congr (propext stops) (fun _ => rfl) fun _ => rfl

theorem numbers_lineOf {rows : List FileLine} (plain : ∀ row ∈ rows, row.Plain)
    (bareTable : ∀ k ∈ table, BareKey k) (bareKey : BareKey key) {now : Heading} {path : List String}
    (seen : now.Seen path) (number : Nat) :
    Numbers number
      (fun i => (rows[i]?.bind FileLine.key? = some key ∧ (now.behind (rows.take i)).table = table) ∧
        ¬(now.behind (rows.take i)).remarked)
      (lineOf table key path number (rows.map FileLine.text)) := by
  induction rows generalizing now path number with
  | nil => exact ⟨fun i hi => by simp at hi, fun _ => rfl⟩
  | cons row rows ih =>
    obtain ⟨here, plain⟩ := List.forall_mem_cons.1 plain
    obtain ⟨path', seen', step⟩ :=
      exists_lineOf_cons here bareTable bareKey seen number (rows.map FileLine.text)
    rw [List.map_cons, step]
    split
    · rename_i found
      exact .here found
    · rename_i missed
      exact .later missed (ih plain seen' (number + 1))

theorem keyLine_dotted (text : String) (bare : ∀ k ∈ table ++ [key], BareKey k) :
    keyLine text (dotted (table ++ [key])) = lineOf table key [] 1 (Text.lines text) := by
  have keys : pathOf (dotted (table ++ [key])) = table ++ [key] :=
    pathOf_dotted (by simp) fun k hk => (bare k hk).dotFree
  rw [keyLine]
  rcases Text.splitLast?_cases '.' (dotted (table ++ [key])) with
    ⟨uncut, whole⟩ | ⟨before, last, cut, pieces⟩
  · rw [pathOf, whole] at keys
    obtain ⟨rfl, last⟩ := List.append_inj' (show [] ++ [dotted (table ++ [key])] = _ from keys) rfl
    rw [uncut, List.singleton_inj.1 last]
  · rw [pathOf, pieces] at keys
    obtain ⟨front, back⟩ := List.append_inj' keys rfl
    rw [cut, ← front, ← List.singleton_inj.1 back]
    rfl

theorem Numbers.iff_of_passed {first line : Nat} {meant passed : Nat → Prop}
    (h : Numbers first (fun i => meant i ∧ ¬passed i) line) (pos : 0 < first) :
    Numbers first meant line ↔ ∀ i, meant i → (∀ j < i, ¬meant j) → ¬passed i := by
  constructor
  · intro right i hi before hp
    have number := right.1 i hi before
    by_cases found : ∃ k, meant k ∧ ¬passed k
    · -- Whatever is found instead of the line passed over has another number.
      classical
      have kept := Nat.find_spec found
      have same : first + Nat.find found = first + i :=
        (h.1 _ kept fun _ => Nat.find_min found).symm.trans number
      exact kept.2 (Nat.add_left_cancel same ▸ hp)
    · have none := h.2 fun k hk => found ⟨k, hk⟩
      omega
  · intro kept
    refine ⟨fun i hi before => h.1 i ⟨hi, kept i hi before⟩ fun j hj hm => before j hj hm.1,
      fun none => h.2 fun i hi => none i hi.1⟩

/-- The number of the line is right as long as no remark follows the header above it: what is found is the
first assignment below a header without one. -/
theorem keyLine_right_iff {text : String} {rows : List FileLine}
    (lines : Text.lines text = rows.map FileLine.text) (plain : ∀ row ∈ rows, row.Plain)
    (bare : ∀ k ∈ table ++ [key], BareKey k) :
    Numbers 1 (fun i => AssignedAt rows table key i ∧ ¬(Heading.behind {} (rows.take i)).remarked)
        (keyLine text (dotted (table ++ [key]))) ∧
      (Numbers 1 (AssignedAt rows table key) (keyLine text (dotted (table ++ [key]))) ↔
        ∀ i, AssignedAt rows table key i → (∀ j < i, ¬AssignedAt rows table key j) →
          ¬(Heading.behind {} (rows.take i)).remarked) := by
  obtain ⟨bareTable, bareKey⟩ := List.forall_mem_append.1 bare
  have closed : Heading.Seen {} [] := rfl
  have found := numbers_lineOf plain bareTable (bareKey key (by simp)) closed 1
  rw [← lines, ← keyLine_dotted text bare] at found
  exact ⟨found, found.iff_of_passed Nat.one_pos⟩

def spacedLines : List FileLine :=
  [.idle "" (some " top"),
    .header "" [⟨" ", "Server", " "⟩, ⟨" ", "Tls", " "⟩] " " (some " main"),
    .assignment "" "cert" " " " 1",
    .idle " " none,
    .header "  " [⟨"", "Server", "\t"⟩] "\t" none,
    .assignment "" "certfile" "" " \"cert = [a]\"",
    .assignment "  " "cert" "" " 2 # cert = 2",
    .assignment "" "cert" " " " 3"]

def spacedText : String :=
  "# top\r\n[ Server . Tls ] # main\ncert = 1\n \n  [Server\t]\t\ncertfile= \"cert = [a]\"\n" ++
    "  cert= 2 # cert = 2\ncert = 3"

theorem keyLine_right_iff_spaced :
    Text.lines spacedText = spacedLines.map FileLine.text ∧ (∀ row ∈ spacedLines, row.Plain) ∧
      (∀ k ∈ ["Server"] ++ ["cert"], BareKey k) ∧
      (Numbers 1 (fun i => AssignedAt spacedLines ["Server"] "cert" i ∧
            ¬(Heading.behind {} (spacedLines.take i)).remarked) (keyLine spacedText "Server.cert") ∧
        (Numbers 1 (AssignedAt spacedLines ["Server"] "cert") (keyLine spacedText "Server.cert") ↔
          ∀ i, AssignedAt spacedLines ["Server"] "cert" i →
            (∀ j < i, ¬AssignedAt spacedLines ["Server"] "cert" j) →
              ¬(Heading.behind {} (spacedLines.take i)).remarked)) ∧
      keyLine spacedText "Server.cert" = 7 ∧ keyLine spacedText "Server.Tls.cert" = 0 := by
  have lines : Text.lines spacedText = spacedLines.map FileLine.text := by decide +kernel
  have plain : ∀ row ∈ spacedLines, row.Plain := by decide +kernel
  have bare : ∀ k ∈ ["Server"] ++ ["cert"], BareKey k := by decide +kernel
  exact ⟨lines, plain, bare, keyLine_right_iff lines plain bare, by decide +kernel, by decide +kernel⟩

theorem not_right_of_remark :
    ¬∀ (text : String) (rows : List FileLine) (table : List String) (key : String),
      Text.lines text = rows.map FileLine.text → (∀ row ∈ rows, row.Plain) →
        (∀ k ∈ table ++ [key], BareKey k) →
          Numbers 1 (AssignedAt rows table key) (keyLine text (dotted (table ++ [key]))) := by
  intro right
  have number := (right "[Server] # main\nport = 1\n"
    [.header "" [⟨"", "Server", ""⟩] " " (some " main"), .assignment "" "port" " " " 1"]
    ["Server"] "port" (by decide +kernel) (by decide +kernel) (by decide +kernel)).1 1
    (by decide +kernel) (by decide +kernel)
  exact absurd number (by decide +kernel)

end DottedPatch.Config
