import DottedPatch.Proofs.Patch.Keys
import DottedPatch.Proofs.Text.Lines
import Mathlib.Data.List.TakeWhile

namespace DottedPatch.Patch

open Toml

inductive Row
  | instruction (segments : List String) (raw : String)
  | idle (text : String)

namespace Row

def text : Row → String
  | .instruction segments raw => dotted segments ++ "=" ++ raw
  | .idle text => text

def line? (number : Nat) : Row → Option Line
  | .instruction segments raw => some ⟨number, segments, raw⟩
  | .idle _ => none

/-- The row is one line. The path of an instruction has no separators in its segments, and only blanks or
a comment stand in a text without one. -/
def Plain : Row → Prop
  | .instruction segments raw =>
    segments ≠ [] ∧ segments ≠ [""] ∧
      (∀ s ∈ segments, '.' ∉ s.toList ∧ '=' ∉ s.toList ∧ '\n' ∉ s.toList) ∧
      '\n' ∉ raw.toList ∧ raw.toList.getLast? ≠ some '\r' ∧
      (Text.trim (dotted segments ++ "=" ++ raw)).toList.head? ≠ some '#'
  | .idle text =>
    '\n' ∉ text.toList ∧ (Text.trim text = "" ∨ (Text.trim text).toList.head? = some '#')

instance : DecidablePred Plain
  | .instruction _ _ => inferInstanceAs (Decidable (_ ∧ _ ∧ _ ∧ _ ∧ _ ∧ _))
  | .idle _ => inferInstanceAs (Decidable (_ ∧ _))

end Row

inductive LineEnd
  | newline
  | carriageReturn

def LineEnd.text : LineEnd → String
  | .newline => "\n"
  | .carriageReturn => "\r\n"

def writeLines : List (Row × LineEnd) → Option Row → String
  | [], last => (last.map Row.text).getD ""
  | (row, ending) :: rows, last => row.text ++ ending.text ++ writeLines rows last

theorem Line.isInstruction_eq (text : String) :
    isInstruction text = (Text.trim text).toList.head?.any (· != '#') := by
  rw [Text.head?_trim, isInstruction]
  cases Text.dropBlank text.toList <;> rfl

theorem Line.isInstruction_stripReturn (text : String) :
    isInstruction (Text.stripReturn text) = isInstruction text := by
  rw [isInstruction_eq, isInstruction_eq, Text.head?_trim, Text.head?_trim, Text.stripReturn,
    String.toList_ofList, Text.head?_dropBlank_dropReturn]

def readLine? (number : Nat) (text : String) : Option Line :=
  if Line.isInstruction text then some (Line.read number text) else none

theorem not_mem_dotted {c : Char} {segments : List String} (hc : c ≠ '.')
    (h : ∀ s ∈ segments, c ∉ s.toList) : c ∉ (dotted segments).toList := by
  rw [dotted, Text.mem_join hc]
  rintro ⟨s, hs, hm⟩
  exact h s hs hm

namespace Row

variable {row : Row} {segments : List String} {raw : String}

theorem Plain.newline_not_mem (h : row.Plain) : '\n' ∉ row.text.toList := by
  cases row with
  | idle text => exact h.1
  | instruction segments raw =>
    obtain ⟨-, -, free, newline, -, -⟩ := h
    have path : '\n' ∉ (dotted segments).toList :=
      not_mem_dotted (by decide) fun s hs => (free s hs).2.2
    simp [text, path, newline]

theorem Plain.isInstruction (h : (instruction segments raw).Plain) :
    Line.isInstruction (instruction segments raw).text := by
  obtain ⟨-, -, -, -, -, comment⟩ := h
  rw [Line.isInstruction_eq, text]
  cases first : (Text.trim (dotted segments ++ "=" ++ raw)).toList.head? with
  | none =>
    rw [Text.head?_trim, List.head?_eq_none_iff, Text.dropBlank, List.dropWhile_eq_nil_iff] at first
    exact absurd (first '=' (by simp)) (by decide)
  | some c =>
    rw [first] at comment
    simpa using comment

theorem Plain.stripReturn (h : (instruction segments raw).Plain) :
    Text.stripReturn (instruction segments raw).text = (instruction segments raw).text := by
  obtain ⟨-, -, -, -, ended, -⟩ := h
  have strip := Text.stripReturn_append (show '=' ≠ '\r' by decide) (dotted segments) raw
  rw [Text.stripReturn_of_getLast? ended] at strip
  exact strip

theorem Plain.read (h : (instruction segments raw).Plain) (number : Nat) :
    Line.read number (instruction segments raw).text = ⟨number, segments, raw⟩ := by
  obtain ⟨ne, named, free, -, ended, -⟩ := h
  have keys : pathOf (dotted segments) = segments := pathOf_dotted ne fun s hs => (free s hs).1
  have key : dotted segments ≠ "" := by
    intro empty
    rw [empty] at keys
    exact named (keys.symm.trans (by decide))
  have plain : '=' ∉ (dotted segments).toList :=
    not_mem_dotted (by decide) fun s hs => (free s hs).2.1
  rw [text, Line.read_key key plain, keys, Text.stripReturn_of_getLast? ended]

theorem Plain.readLine? (h : row.Plain) (number : Nat) :
    Patch.readLine? number row.text = row.line? number ∧
      Patch.readLine? number (Text.stripReturn row.text) = row.line? number := by
  cases row with
  | instruction segments raw =>
    rw [h.stripReturn, and_self, Patch.readLine?, if_pos h.isInstruction, h.read, line?]
  | idle text =>
    have idle : Line.isInstruction text = false := by
      rw [Line.isInstruction_eq]
      rcases h.2 with blank | comment
      · simp [blank]
      · simp [comment]
    rw [Patch.readLine?, Patch.readLine?, Row.text, Line.isInstruction_stripReturn, idle]
    exact ⟨rfl, rfl⟩

theorem Plain.exists_line (h : row.Plain) (ending : LineEnd) (rest : String) :
    ∃ line, Text.lines (row.text ++ ending.text ++ rest) = line :: Text.lines rest ∧
      ∀ number, Patch.readLine? number line = row.line? number := by
  cases ending with
  | newline =>
    exact ⟨_, Text.lines_append h.newline_not_mem rest, fun number => (h.readLine? number).2⟩
  | carriageReturn =>
    refine ⟨row.text, ?_, fun number => (h.readLine? number).1⟩
    have free : '\n' ∉ (row.text ++ "\r").toList := by simp [h.newline_not_mem]
    have text : row.text ++ LineEnd.carriageReturn.text = row.text ++ "\r" ++ "\n" := by
      rw [String.append_assoc]
      rfl
    rw [text, Text.lines_append free, Text.stripReturn_concat]

end Row

theorem readLine?_writeLines (last : Option Row) (rows : List (Row × LineEnd)) (number : Nat)
    (plain : ∀ row ∈ rows.map Prod.fst ++ last.toList, row.Plain) :
    ((Text.lines (writeLines rows last)).zipIdx number).filterMap (fun (line, n) => readLine? n line) =
      ((rows.map Prod.fst ++ last.toList).zipIdx number).filterMap fun (row, n) => row.line? n := by
  induction rows generalizing number with
  | nil =>
    cases last with
    | none => rfl
    | some row =>
      have h := plain row (by simp)
      have reads := (h.readLine? number).1
      change ((Text.lines row.text).zipIdx number).filterMap _ = ([row].zipIdx number).filterMap _
      rw [Text.lines_of_not_mem h.newline_not_mem]
      split
      · rename_i empty
        rw [empty] at reads
        simp [← reads, readLine?, Line.isInstruction, Text.dropBlank]
      · simp [List.filterMap_cons, reads]
  | cons row rows ih =>
    obtain ⟨row, ending⟩ := row
    obtain ⟨h, plain⟩ := List.forall_mem_cons.1 plain
    obtain ⟨line, lines, reads⟩ := h.exists_line ending (writeLines rows last)
    rw [writeLines, lines, List.map_cons, List.cons_append, List.zipIdx_cons, List.zipIdx_cons,
      List.filterMap_cons, List.filterMap_cons, ih (number + 1) plain]
    simp only [reads]

/-- Reading a patch gives back the instructions that were written into it, in their order and each with
the number of its line, whatever blank lines and comments stand between them, and however the lines end,
the last one with a line end or without. -/
theorem readLines_writeLines (rows : List (Row × LineEnd)) (last : Option Row)
    (plain : ∀ row ∈ rows.map Prod.fst ++ last.toList, row.Plain) :
    readLines (writeLines rows last) =
      ((rows.map Prod.fst ++ last.toList).zipIdx 1).filterMap fun (row, number) =>
        row.line? number :=
  readLine?_writeLines last rows 1 plain

theorem readLines_writeLines_commented :
    let rows : List (Row × LineEnd) :=
      [(.idle "  # a=1", .carriageReturn), (.instruction ["a", " b"] "c=d.#\r ", .newline),
        (.idle "\t", .newline)]
    let last : Row := .instruction ["", ""] ""
    (∀ row ∈ rows.map Prod.fst ++ [last], row.Plain) ∧
      writeLines rows (some last) = "  # a=1\r\na. b=c=d.#\r \n\t\n.=" ∧
      readLines "  # a=1\r\na. b=c=d.#\r \n\t\n.=" =
        [⟨2, ["a", " b"], "c=d.#\r "⟩, ⟨4, ["", ""], ""⟩] := by
  intro rows last
  have plain : ∀ row ∈ rows.map Prod.fst ++ [last], row.Plain := by decide
  have text : writeLines rows (some last) = "  # a=1\r\na. b=c=d.#\r \n\t\n.=" := by decide
  have read := readLines_writeLines rows (some last) plain
  rw [text] at read
  exact ⟨plain, text, read⟩

end DottedPatch.Patch
