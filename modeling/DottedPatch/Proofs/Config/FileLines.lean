import DottedPatch.Config.UnknownKeys
import DottedPatch.Proofs.Text.Trims
import DottedPatch.Proofs.Toml.Paths
import DottedPatch.Toml.Quoting

namespace DottedPatch.Config

open Toml

def BareKey (key : String) : Prop := key ≠ "" ∧ ∀ c ∈ key.toList, Quoting.isBare c

instance : DecidablePred BareKey := fun key =>
  decidable_of_iff (key ≠ "" ∧ key.toList.all Quoting.isBare) (and_congr_right' List.all_eq_true)

structure HeaderKey where
  before : String := ""
  name : String
  after : String := ""

/-- A line holds nothing, opens a table or gives a value to a key, after blanks. A remark may follow
what opens a table or holds nothing; behind the equals sign anything may follow. -/
inductive FileLine
  | idle (lead : String) (remark : Option String)
  | header (lead : String) (keys : List HeaderKey) (trail : String) (remark : Option String)
  | assignment (lead key gap value : String)

namespace HeaderKey

def text (k : HeaderKey) : String := k.before ++ k.name ++ k.after

def Plain (k : HeaderKey) : Prop := Text.Blank k.before ∧ BareKey k.name ∧ Text.Blank k.after

instance : DecidablePred Plain := fun _ => inferInstanceAs (Decidable (_ ∧ _ ∧ _))

end HeaderKey

def remarkText : Option String → String
  | none => ""
  | some text => "#" ++ text

namespace FileLine

def text : FileLine → String
  | .idle lead remark => lead ++ remarkText remark
  | .header lead keys trail remark =>
    lead ++ "[" ++ Text.join '.' (keys.map HeaderKey.text) ++ "]" ++ trail ++ remarkText remark
  | .assignment lead key gap value => lead ++ key ++ gap ++ "=" ++ value

def Plain : FileLine → Prop
  | .idle lead _ => Text.Blank lead
  | .header lead keys trail _ =>
    Text.Blank lead ∧ keys ≠ [] ∧ (∀ k ∈ keys, k.Plain) ∧ Text.Blank trail
  | .assignment lead key gap _ => Text.Blank lead ∧ BareKey key ∧ Text.Blank gap

instance : DecidablePred Plain
  | .idle _ _ => inferInstanceAs (Decidable (Text.Blank _))
  | .header _ _ _ _ => inferInstanceAs (Decidable (_ ∧ _ ∧ _ ∧ _))
  | .assignment _ _ _ _ => inferInstanceAs (Decidable (_ ∧ _ ∧ _))

end FileLine

theorem not_blank_of_bare {c : Char} (h : Quoting.isBare c) : Text.isBlank c = false := by
  have cases : (decide (65 ≤ c.val ∧ c.val ≤ 90) || (97 ≤ c.val && c.val ≤ 122) ||
      (48 ≤ c.val && c.val ≤ 57) || c == '_' || c == '-') = true := h
  simp only [Bool.or_eq_true, Bool.and_eq_true, decide_eq_true_eq, beq_iff_eq,
    UInt32.le_iff_toNat_le, Char.ext_iff, ← UInt32.toNat_inj] at cases
  simp only [Text.isBlank, Char.toNat]
  simp at cases ⊢
  omega

theorem not_bare_of_blank {c : Char} (h : Text.isBlank c) : Quoting.isBare c = false := by
  cases hb : Quoting.isBare c with
  | false => rfl
  | true => simp [not_blank_of_bare hb] at h

namespace BareKey

variable {key : String}

theorem not_blank (h : BareKey key) {c : Char} (hc : c ∈ key.toList) : Text.isBlank c = false :=
  not_blank_of_bare (h.2 c hc)

theorem not_mem (h : BareKey key) {c : Char} (hc : Quoting.isBare c = false) : c ∉ key.toList :=
  fun hm => by simp [h.2 c hm] at hc

theorem exists_head (h : BareKey key) : ∃ c cs, key.toList = c :: cs ∧ Quoting.isBare c := by
  cases hk : key.toList with
  | nil => exact absurd (by simpa using hk) h.1
  | cons c cs => exact ⟨c, cs, rfl, h.2 c (by simp [hk])⟩

theorem dotFree (h : BareKey key) : DotFree key := h.not_mem (by decide)

theorem takeWhile_append (h : BareKey key) {cs : List Char}
    (stop : ∀ c, cs.head? = some c → Quoting.isBare c = false) :
    (key.toList ++ cs).takeWhile Quoting.isBare = key.toList := by
  rw [List.takeWhile_append_of_pos h.2]
  cases cs with
  | nil => simp
  | cons c cs => rw [List.takeWhile_cons, stop c rfl]; simp

end BareKey

theorem headerPath?_of_head? {line : String} (h : line.toList.head? ≠ some '[') :
    headerPath? line = none := by
  unfold headerPath?
  split
  · rename_i eq
    simp [eq] at h
  · rename_i eq
    simp [eq] at h
  · rfl

theorem headerPath?_of_open {inner : String} (h : inner.toList.head? ≠ some '[') :
    headerPath? ("[" ++ inner) =
      some ((pathOf (.ofList (inner.toList.reverse.dropWhile (· == ']')).reverse)).map Text.trim) := by
  have cs : ("[" ++ inner).toList = '[' :: inner.toList := by simp
  unfold headerPath?
  rw [cs]
  split
  · rename_i eq
    simp [(List.cons.inj eq).2] at h
  · rename_i eq
    rw [(List.cons.inj eq).2]
  · rename_i other
    exact absurd rfl (other _)

theorem assigns_iff_exists {key line : String} :
    assigns key line ↔
      ∃ after, line = key ++ after ∧ (Text.dropBlank after.toList).head? = some '=' := by
  have starts (after : String) : Text.startsWith "=" (Text.trimStart after) ↔
      (Text.dropBlank after.toList).head? = some '=' := by
    rw [show "=" = String.singleton '=' from rfl, Text.startsWith_iff, Text.trimStart,
      String.toList_ofList]
  constructor
  · intro h
    unfold assigns at h
    split at h
    · rename_i after strip
      exact ⟨after, Text.append_of_stripLead? strip, (starts after).1 h⟩
    · cases h
  · rintro ⟨after, rfl, h⟩
    simp only [assigns, Text.stripLead?_append]
    exact (starts after).2 h

theorem not_bare_of_head?_dropBlank {cs : List Char} (h : (Text.dropBlank cs).head? = some '=')
    (c : Char) (hc : cs.head? = some c) : Quoting.isBare c = false := by
  cases cs with
  | nil => cases hc
  | cons d cs =>
    obtain rfl := Option.some.inj hc
    rw [Text.dropBlank_cons] at h
    split at h
    · rename_i blank
      exact not_bare_of_blank blank
    · obtain rfl := Option.some.inj h
      decide

theorem assigns_iff {key other gap : String} (hk : BareKey key) (ho : BareKey other)
    (hg : Text.Blank gap) (rest : String) : assigns key (other ++ gap ++ "=" ++ rest) ↔ other = key := by
  have value : (Text.dropBlank (gap ++ "=" ++ rest).toList).head? = some '=' := by
    have equals : Text.dropBlank ('=' :: rest.toList) = '=' :: rest.toList := rfl
    simp [Text.dropBlank_append hg, equals]
  rw [assigns_iff_exists]
  constructor
  · rintro ⟨after, eq, h⟩
    -- Either key is what the line has before the first character that no bare key has.
    have chars : other.toList ++ (gap ++ "=" ++ rest).toList = key.toList ++ after.toList := by
      simpa using congrArg String.toList eq
    have cut := congrArg (List.takeWhile Quoting.isBare) chars
    rw [ho.takeWhile_append (not_bare_of_head?_dropBlank value),
      hk.takeWhile_append (not_bare_of_head?_dropBlank h)] at cut
    exact String.toList_injective cut
  · rintro rfl
    exact ⟨gap ++ "=" ++ rest, by simp [String.append_assoc], value⟩

theorem not_assigns_of_head? {key line : String} (hk : BareKey key)
    (h : ∀ c, line.toList.head? = some c → Quoting.isBare c = false) : assigns key line = false := by
  rw [← Bool.not_eq_true, assigns_iff_exists]
  rintro ⟨after, rfl, -⟩
  obtain ⟨c, cs, eq, bare⟩ := hk.exists_head
  simp [h c (by simp [eq])] at bare

namespace FileLine

variable {lead trail : String} {keys : List HeaderKey} {remark : Option String}

theorem Plain.head?_idle (h : (idle lead remark).Plain) (c : Char)
    (hc : (Text.trim (idle lead remark).text).toList.head? = some c) : c = '#' := by
  rw [Text.head?_trim, text, String.toList_append, Text.dropBlank_append h] at hc
  cases remark with
  | none => simp [remarkText, Text.dropBlank] at hc
  | some r =>
    have mark : Text.dropBlank ('#' :: r.toList) = '#' :: r.toList := rfl
    simpa [remarkText, mark, eq_comm] using hc

theorem Plain.idle_seen (h : (idle lead remark).Plain) :
    headerPath? (Text.trim (idle lead remark).text) = none ∧
      ∀ key, BareKey key → assigns key (Text.trim (idle lead remark).text) = false := by
  constructor
  · refine headerPath?_of_head? fun hc => ?_
    cases h.head?_idle _ hc
  · refine fun key hk => not_assigns_of_head? hk fun c hc => ?_
    rw [h.head?_idle c hc]
    decide

theorem Plain.assignment_seen {key gap value : String} (h : (assignment lead key gap value).Plain) :
    headerPath? (Text.trim (assignment lead key gap value).text) = none ∧
      ∀ other, BareKey other →
        (assigns other (Text.trim (assignment lead key gap value).text) ↔ key = other) := by
  obtain ⟨hl, hk, hg⟩ := h
  obtain ⟨c, cs, start, bare⟩ := hk.exists_head
  have blank : ∀ d, (key ++ gap).toList.head? = some d → Text.isBlank d = false := by
    intro d hd
    obtain rfl : c = d := by simpa [start] using hd
    exact not_blank_of_bare bare
  have trimmed : Text.trim (assignment lead key gap value).text =
      key ++ gap ++ "=" ++ Text.trimEnd value := calc
    _ = Text.trim (lead ++ (key ++ gap ++ "=" ++ value)) := by simp only [text, String.append_assoc]
    _ = Text.trim (key ++ gap ++ "=" ++ value) := Text.trim_append_of_blank hl _
    _ = key ++ gap ++ "=" ++ Text.trimEnd value := by
      rw [show "=" = String.singleton '=' from rfl, Text.trim_append blank (by decide)]
  rw [trimmed]
  refine ⟨headerPath?_of_head? ?_, fun other ho => assigns_iff ho hk hg _⟩
  have first : (key ++ gap ++ "=" ++ Text.trimEnd value).toList.head? = some c := by simp [start]
  rw [first]
  intro eq
  obtain rfl := Option.some.inj eq
  exact absurd bare (by decide)

theorem mem_text_headerKey {k : HeaderKey} (h : k.Plain) {c : Char} (hc : c ∈ k.text.toList) :
    Text.isBlank c ∨ Quoting.isBare c := by
  obtain ⟨before, name, after⟩ := h
  simp only [HeaderKey.text, String.toList_append, List.mem_append] at hc
  rcases hc with (hc | hc) | hc
  · exact .inl (before c hc)
  · exact .inr (name.2 c hc)
  · exact .inl (after c hc)

theorem not_mem_join (h : ∀ k ∈ keys, k.Plain) {c : Char} (hb : Text.isBlank c = false)
    (hn : Quoting.isBare c = false) (hd : c ≠ '.') :
    c ∉ (Text.join '.' (keys.map HeaderKey.text)).toList := by
  rw [Text.mem_join hd]
  rintro ⟨text, ht, hc⟩
  obtain ⟨k, hk, rfl⟩ := List.mem_map.1 ht
  rcases mem_text_headerKey (h k hk) hc with blank | bare
  · simp [hb] at blank
  · simp [hn] at bare

theorem map_trim_pathOf (ne : keys ≠ []) (h : ∀ k ∈ keys, k.Plain) :
    (pathOf (Text.join '.' (keys.map HeaderKey.text))).map Text.trim = keys.map HeaderKey.name := by
  have free : ∀ text ∈ keys.map HeaderKey.text, '.' ∉ text.toList := by
    intro text ht hc
    obtain ⟨k, hk, rfl⟩ := List.mem_map.1 ht
    rcases mem_text_headerKey (h k hk) hc with blank | bare
    · cases blank
    · cases bare
  rw [pathOf, Text.splitOn_join (by simpa using ne) free, List.map_map]
  refine List.map_congr_left fun k hk => ?_
  obtain ⟨before, name, after⟩ := h k hk
  exact Text.trim_of_no_blank before after name.1 fun c hc => name.not_blank hc

theorem not_blank_of_bracket (s : String) (d : Char) (hd : ("[" ++ s).toList.head? = some d) :
    Text.isBlank d = false := by
  obtain rfl : '[' = d := by simpa using hd
  decide

theorem not_open_of_plain (h : ∀ k ∈ keys, k.Plain) {c : Char} (hc : c ≠ '[') (rest : String) :
    (Text.join '.' (keys.map HeaderKey.text) ++ .singleton c ++ rest).toList.head? ≠ some '[' := by
  have free := not_mem_join h (c := '[') (by decide) (by decide) (by decide)
  intro eq
  cases inner : (Text.join '.' (keys.map HeaderKey.text)).toList with
  | nil => simp [inner, hc] at eq
  | cons d ds =>
    rw [inner] at free
    simp [inner] at eq
    simp [eq] at free

theorem headerPath?_trim {body : String} {c : Char} (hl : Text.Blank lead) (hc : Text.isBlank c = false)
    (rest : String) (h : (body ++ .singleton c ++ Text.trimEnd rest).toList.head? ≠ some '[') :
    headerPath? (Text.trim (lead ++ ("[" ++ body ++ .singleton c ++ rest))) =
      some ((pathOf (.ofList ((body ++ .singleton c ++ Text.trimEnd rest).toList.reverse.dropWhile
        (· == ']')).reverse)).map Text.trim) := by
  have trimmed : Text.trim (lead ++ ("[" ++ body ++ .singleton c ++ rest)) =
      "[" ++ (body ++ .singleton c ++ Text.trimEnd rest) := by
    rw [Text.trim_append_of_blank hl, Text.trim_append (not_blank_of_bracket body) hc]
    simp only [String.append_assoc]
  rw [trimmed, headerPath?_of_open h]

theorem Plain.header_seen (h : (header lead keys trail none).Plain) :
    headerPath? (Text.trim (header lead keys trail none).text) = some (keys.map HeaderKey.name) := by
  obtain ⟨hl, ne, plain, ht⟩ := h
  have free := not_mem_join plain (c := ']') (by decide) (by decide) (by decide)
  have headed := not_open_of_plain plain (c := ']') (by decide) (Text.trimEnd trail)
  have path := map_trim_pathOf ne plain
  rw [text]
  generalize Text.join '.' (keys.map HeaderKey.text) = inner at *
  have line : lead ++ "[" ++ inner ++ "]" ++ trail ++ remarkText none =
      lead ++ ("[" ++ inner ++ .singleton ']' ++ trail) := by
    simp only [remarkText, String.append_assoc, String.append_empty]
    rfl
  -- No key ends in a bracket, so that of the header is the only one that goes.
  have kept : inner.toList.reverse.dropWhile (· == ']') = inner.toList.reverse := by
    cases cs : inner.toList.reverse with
    | nil => rfl
    | cons c rest =>
      have ne : c ≠ ']' := by
        rintro rfl
        exact free (List.mem_reverse.1 (by simp [cs]))
      simp [ne]
  have body : ((inner ++ .singleton ']' ++ "").toList.reverse.dropWhile (· == ']')).reverse =
      inner.toList := by
    simp [kept]
  rw [line, headerPath?_trim hl (by decide) trail headed, Text.trimEnd_of_blank ht, body,
    String.ofList_toList, path]

/-- With a remark behind it, a header seems to open a table that no bare keys lead to: one of the keys
has the mark of the remark in it. -/
theorem Plain.remarked_seen {r : String} (h : (header lead keys trail (some r)).Plain) :
    ∃ path, headerPath? (Text.trim (header lead keys trail (some r)).text) = some path ∧
      ∃ key ∈ path, ¬BareKey key := by
  obtain ⟨hl, -, plain, -⟩ := h
  have headed := not_open_of_plain plain (c := ']') (by decide) (trail ++ .singleton '#' ++ Text.trimEnd r)
  rw [text]
  generalize Text.join '.' (keys.map HeaderKey.text) = inner at *
  have line : lead ++ "[" ++ inner ++ "]" ++ trail ++ remarkText (some r) =
      lead ++ ("[" ++ (inner ++ .singleton ']' ++ trail) ++ .singleton '#' ++ r) := by
    simp only [remarkText, String.append_assoc]
    rfl
  rw [line, headerPath?_trim hl (by decide) r (by simpa only [String.append_assoc] using headed)]
  refine ⟨_, rfl, ?_⟩
  generalize kept : List.reverse _ = left
  have mark : '#' ∈ (String.ofList left).toList := by
    rw [String.toList_ofList, ← kept, List.mem_reverse]
    exact Text.mem_dropWhile (by decide) (by simp)
  have noDot : '#' ≠ '.' := by decide
  obtain ⟨piece, hpiece, mark⟩ := (Text.exists_mem_splitOn noDot).2 mark
  exact ⟨_, List.mem_map_of_mem hpiece, fun bare =>
    bare.not_mem (by decide) (Text.mem_trim (by decide) mark)⟩

end FileLine

end DottedPatch.Config
