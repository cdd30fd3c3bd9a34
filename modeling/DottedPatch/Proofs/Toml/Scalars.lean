import DottedPatch.Proofs.Text.Pieces
import DottedPatch.Toml.Statement
import Mathlib.Data.List.TakeDrop
import Mathlib.Data.List.TakeWhile

namespace DottedPatch.Toml.Scan

theorem char_eq_some {c : Char} {cs rest : List Char} {u : Unit} (h : char c cs = some (u, rest)) :
    cs = c :: rest := by
  fun_cases char c cs with
  | case1 => simp [char] at h
  | case2 => simp_all [char]
  | case3 => simp_all [char]

theorem exists_of_map {α β : Type} {scanned : Option (α × List Char)} {f : α → β} {b : β}
    {rest : List Char} (h : (scanned.map fun (a, cs) => (f a, cs)) = some (b, rest)) :
    ∃ a, scanned = some (a, rest) ∧ f a = b := by
  obtain ⟨⟨a, _⟩, ha, eq⟩ := Option.map_eq_some_iff.1 h
  obtain ⟨rfl, rfl⟩ := Prod.mk.inj eq
  exact ⟨a, ha, rfl⟩

theorem span_eq {p : Char → Bool} {cs w rest : List Char} (h : cs.span p = (w, rest)) :
    cs = w ++ rest ∧ ∀ c ∈ w, p c := by
  rw [List.span_eq_takeWhile_dropWhile] at h
  obtain ⟨rfl, rfl⟩ := Prod.mk.inj h
  exact ⟨List.takeWhile_append_dropWhile.symm, fun c hc => List.mem_takeWhile_imp hc⟩

def SameLine (cs rest : List Char) : Prop := ∃ w, cs = w ++ rest ∧ '\n' ∉ w

namespace SameLine

variable {cs ds rest : List Char}

theorem refl (cs : List Char) : SameLine cs cs := ⟨[], rfl, List.not_mem_nil⟩

theorem of_done {α : Type} {a b : α} (h : some (a, cs) = some (b, rest)) : SameLine cs rest := by
  obtain ⟨_, rfl⟩ := Prod.mk.inj (Option.some.inj h)
  exact refl _

theorem cons {c : Char} (hc : c ≠ '\n') (h : SameLine cs rest) : SameLine (c :: cs) rest := by
  obtain ⟨w, rfl, hw⟩ := h
  exact ⟨c :: w, rfl, by simp [hc.symm, hw]⟩

theorem trans (h : SameLine cs ds) (h' : SameLine ds rest) : SameLine cs rest := by
  obtain ⟨w, rfl, hw⟩ := h
  obtain ⟨v, rfl, hv⟩ := h'
  exact ⟨w ++ v, (List.append_assoc ..).symm, by simp [hw, hv]⟩

theorem of_char {c : Char} (hc : c ≠ '\n') {u : Unit} (h : char c cs = some (u, rest)) :
    SameLine cs rest :=
  char_eq_some h ▸ (refl rest).cons hc

theorem of_dropLead? {lead : List Char} (hl : '\n' ∉ lead)
    (h : Text.dropLead? lead cs = some rest) : SameLine cs rest :=
  ⟨lead, (Text.append_of_dropLead? h).symm, hl⟩

theorem of_span {p : Char → Bool} (hp : p '\n' = false) {w : List Char}
    (h : cs.span p = (w, rest)) : SameLine cs rest := by
  obtain ⟨eq, hw⟩ := span_eq h
  exact ⟨w, eq, fun hmem => by simp [hw _ hmem] at hp⟩

theorem of_sign {negative : Option Bool} (h : sign cs = (negative, rest)) : SameLine cs rest := by
  unfold sign at h
  split at h
  all_goals obtain ⟨_, rfl⟩ := Prod.mk.inj h
  · exact (refl _).cons (by decide)
  · exact (refl _).cons (by decide)
  · exact refl _

end SameLine

variable {cs rest : List Char}

theorem ne_newline_of_digitsOf {base : Nat} {c : Char} {d : Nat} (h : digitsOf base c = some d) :
    c ≠ '\n' := by
  rintro rfl
  simp [digitsOf] at h

theorem sameLine_digitRun {base : Nat} {after : Bool} {ds : List Nat}
    (h : digitRun base after cs = some (ds, rest)) : SameLine cs rest := by
  fun_induction digitRun base after cs generalizing ds with
  | case1 | case5 =>
    exact .of_done h
  | case2 | case6 => cases h
  | case3 after c cs d hd ih =>
    obtain ⟨_, hr, -⟩ := exists_of_map h
    exact (ih hr).cons (ne_newline_of_digitsOf hd)
  | case4 _ _ ih => exact (ih h).cons (by decide)

theorem sameLine_wholeDigits {ds : List Nat} (h : wholeDigits cs = some (ds, rest)) :
    SameLine cs rest := by
  unfold wholeDigits at h
  split at h
  · exact (SameLine.of_done h).cons (by decide)
  · exact sameLine_digitRun h

theorem sameLine_exponent {n : Int} (h : exponent cs = some (n, rest)) : SameLine cs rest := by
  simp only [exponent, Option.bind_eq_bind, Option.bind_eq_some_iff, Option.pure_def] at h
  obtain ⟨⟨ds, _⟩, hds, eq⟩ := h
  obtain ⟨_, rfl⟩ := Prod.mk.inj (Option.some.inj eq)
  exact (SameLine.of_sign rfl).trans (sameLine_digitRun hds)

theorem sameLine_based {base : Nat} {v : Scalar} (h : based base cs = some (v, rest)) :
    SameLine cs rest := by
  simp only [based, Option.bind_eq_bind, Option.bind_eq_some_iff, Option.pure_def] at h
  obtain ⟨⟨ds, _⟩, hds, _, _, eq⟩ := h
  obtain ⟨_, rfl⟩ := Prod.mk.inj (Option.some.inj eq)
  exact sameLine_digitRun hds

theorem sameLine_power {c : Char} (hc : c ≠ '\n') {make : Int → Option Scalar} {v : Scalar}
    (h : ((exponent cs).bind fun r => (make r.1).bind fun v => some (v, r.2)) = some (v, rest)) :
    SameLine (c :: cs) rest := by
  obtain ⟨r, hr, h⟩ := Option.bind_eq_some_iff.1 h
  obtain ⟨_, _, eq⟩ := Option.bind_eq_some_iff.1 h
  obtain ⟨_, rfl⟩ := Prod.mk.inj (Option.some.inj eq)
  exact (sameLine_exponent hr).cons hc

theorem sameLine_decimal {signed : Option Bool} {v : Scalar}
    (h : decimal signed cs = some (v, rest)) : SameLine cs rest := by
  simp only [decimal, Option.bind_eq_bind, Option.bind_eq_some_iff, Option.pure_def] at h
  obtain ⟨⟨whole, after⟩, hwhole, h⟩ := h
  refine (sameLine_wholeDigits hwhole).trans ?_
  dsimp only at h
  split at h
  · obtain ⟨⟨fraction, after⟩, hfraction, h⟩ := Option.bind_eq_some_iff.1 h
    refine SameLine.cons (by decide) ((sameLine_digitRun hfraction).trans ?_)
    dsimp only at h
    split at h
    · exact sameLine_power (by decide) h
    · exact sameLine_power (by decide) h
    · obtain ⟨_, _, eq⟩ := Option.bind_eq_some_iff.1 h
      exact .of_done eq
  · exact sameLine_power (by decide) h
  · exact sameLine_power (by decide) h
  · obtain ⟨_, _, eq⟩ := Option.bind_eq_some_iff.1 h
    exact .of_done eq

theorem sameLine_number {v : Scalar} (h : number cs = some (v, rest)) : SameLine cs rest := by
  have signed : SameLine cs (sign cs).2 := .of_sign rfl
  unfold number at h
  split at h
  all_goals rename_i eq; rw [eq] at signed; refine signed.trans ?_
  · exact ((sameLine_based h).cons (by decide)).cons (by decide)
  · exact ((sameLine_based h).cons (by decide)).cons (by decide)
  · exact ((sameLine_based h).cons (by decide)).cons (by decide)
  · obtain ⟨_, rfl⟩ := Prod.mk.inj (Option.some.inj h)
    exact ⟨['i', 'n', 'f'], rfl, by decide⟩
  · obtain ⟨_, rfl⟩ := Prod.mk.inj (Option.some.inj h)
    exact ⟨['n', 'a', 'n'], rfl, by decide⟩
  · exact sameLine_decimal h

theorem sameLine_fixedDigits {places value n : Nat}
    (h : fixedDigits places value cs = some (n, rest)) : SameLine cs rest := by
  fun_induction fixedDigits places value cs with
  | case1 =>
    exact .of_done h
  | case2 | case4 => cases h
  | case3 _ _ _ _ _ hd ih => exact (ih h).cons (ne_newline_of_digitsOf hd)

theorem sameLine_within {low high places n : Nat} (h : within low high places cs = some (n, rest)) :
    SameLine cs rest := by
  simp only [within, Option.bind_eq_bind, Option.bind_eq_some_iff, Option.pure_def] at h
  obtain ⟨⟨m, after⟩, hm, h⟩ := h
  split at h
  · obtain ⟨_, rfl⟩ := Prod.mk.inj (Option.some.inj h)
    exact sameLine_fixedDigits hm
  · cases h

theorem sameLine_date {d : Date} (h : date cs = some (d, rest)) : SameLine cs rest := by
  simp only [date, Option.bind_eq_bind, Option.bind_eq_some_iff, Option.pure_def] at h
  obtain ⟨_, hyear, _, hdash, _, hmonth, _, hdash', _, hday, eq⟩ := h
  obtain ⟨_, rfl⟩ := Prod.mk.inj (Option.some.inj eq)
  exact (sameLine_fixedDigits hyear).trans <| (SameLine.of_char (by decide) hdash).trans <|
    (sameLine_within hmonth).trans <| (SameLine.of_char (by decide) hdash').trans <|
      sameLine_within hday

theorem sameLine_fraction {n : Nat} (h : fraction cs = (n, rest)) : SameLine cs rest := by
  unfold fraction at h
  split at h
  · rename_i after
    dsimp only at h
    split at h
    · obtain ⟨_, rfl⟩ := Prod.mk.inj h
      exact .refl _
    · obtain ⟨_, rfl⟩ := Prod.mk.inj h
      exact (SameLine.of_span (by decide) rfl).cons (by decide)
  · obtain ⟨_, rfl⟩ := Prod.mk.inj h
    exact .refl _

theorem sameLine_time {lastHour : Nat} {t : Time} (h : time lastHour cs = some (t, rest)) :
    SameLine cs rest := by
  simp only [time, Option.bind_eq_bind, Option.bind_eq_some_iff, Option.pure_def] at h
  obtain ⟨_, hhour, _, hcolon, _, hminute, _, hcolon', _, hsecond, eq⟩ := h
  obtain ⟨_, rfl⟩ := Prod.mk.inj (Option.some.inj eq)
  exact (sameLine_within hhour).trans <| (SameLine.of_char (by decide) hcolon).trans <|
    (sameLine_within hminute).trans <| (SameLine.of_char (by decide) hcolon').trans <|
      (sameLine_within hsecond).trans <| sameLine_fraction rfl

theorem sameLine_offset {o : Offset} (h : offset cs = some (o, rest)) : SameLine cs rest := by
  unfold offset at h
  split at h
  · exact (SameLine.of_done h).cons (by decide)
  · exact (SameLine.of_done h).cons (by decide)
  · have signed : SameLine cs (sign cs).2 := .of_sign rfl
    split at h
    · rename_i eq
      rw [eq] at signed
      simp only [Option.bind_eq_bind, Option.bind_eq_some_iff, Option.pure_def] at h
      obtain ⟨_, hhours, _, hcolon, _, hminutes, eq⟩ := h
      obtain ⟨_, rfl⟩ := Prod.mk.inj (Option.some.inj eq)
      exact signed.trans <| (sameLine_within hhours).trans <|
        (SameLine.of_char (by decide) hcolon).trans <| sameLine_within hminutes
    · cases h

theorem sameLine_timeAfter? {t : Time} (h : timeAfter? cs = some (t, rest)) : SameLine cs rest := by
  unfold timeAfter? at h
  split at h
  · split at h
    · rename_i mark
      exact (sameLine_time h).cons (by rintro rfl; exact absurd mark (by decide))
    · cases h
  · cases h

theorem sameLine_datetime {d : Datetime} (h : datetime cs = some (d, rest)) : SameLine cs rest := by
  unfold datetime at h
  split at h
  · rename_i hdate
    refine (sameLine_date hdate).trans ?_
    split at h
    · rename_i htime
      refine (sameLine_timeAfter? htime).trans ?_
      split at h
      · rename_i hoffset
        obtain ⟨_, rfl⟩ := Prod.mk.inj (Option.some.inj h)
        exact sameLine_offset hoffset
      · exact .of_done h
    · exact .of_done h
  · obtain ⟨t, htime, -⟩ := exists_of_map h
    exact sameLine_time htime

theorem sameLine_numeric {v : Scalar} (h : numeric cs = some (v, rest)) : SameLine cs rest := by
  unfold numeric at h
  split at h
  · rename_i hdatetime
    obtain ⟨_, rfl⟩ := Prod.mk.inj (Option.some.inj h)
    exact sameLine_datetime hdatetime
  · exact sameLine_number h

def Quoted (cs rest : List Char) : Prop := ∃ w q, cs = w ++ q :: rest ∧ (q = '"' ∨ q = '\'')

namespace Quoted

theorem cons (c : Char) (h : Quoted cs rest) : Quoted (c :: cs) rest := by
  obtain ⟨w, q, rfl, hq⟩ := h
  exact ⟨c :: w, q, rfl, hq⟩

theorem append (w : List Char) (h : Quoted cs rest) : Quoted (w ++ cs) rest := by
  obtain ⟨v, q, rfl, hq⟩ := h
  exact ⟨w ++ v, q, by simp, hq⟩

theorem of_map {s : List Char × List Char → List Char × List Char}
    {result : Option (List Char × List Char)} {body : List Char}
    (h : result.map s = some (body, rest)) (hs : ∀ r, (s r).2 = r.2)
    (ih : ∀ {body}, result = some (body, rest) → Quoted cs rest) : Quoted cs rest := by
  obtain ⟨r, rfl, eq⟩ := Option.map_eq_some_iff.1 h
  have : r.2 = rest := by rw [← hs, eq]
  exact @ih r.1 (by rw [← this])

end Quoted

theorem quoted_basicBody {state : BasicState} {body : List Char}
    (h : basicBody state cs = some (body, rest)) : Quoted cs rest := by
  fun_induction basicBody state cs generalizing body with
  | case1 | case5 | case7 => cases h
  | case2 =>
    obtain ⟨_, rfl⟩ := Prod.mk.inj (Option.some.inj h)
    exact ⟨[], _, rfl, .inl rfl⟩
  | case3 _ _ ih => exact (ih h).cons _
  | case4 _ _ _ _ _ ih => exact (Quoted.of_map h (fun _ => rfl) ih).cons _
  | case6 _ _ _ _ _ _ _ ih => exact (Quoted.of_map h (fun _ => rfl) ih).cons _

theorem quoted_literalBody {body : List Char} (h : literalBody cs = some (body, rest)) :
    Quoted cs rest := by
  fun_induction literalBody cs generalizing body with
  | case1 | case4 => cases h
  | case2 =>
    obtain ⟨_, rfl⟩ := Prod.mk.inj (Option.some.inj h)
    exact ⟨[], _, rfl, .inr rfl⟩
  | case3 _ _ _ _ ih => exact (Quoted.of_map h (fun _ => rfl) ih).cons _

theorem quoted_literalLines {body : List Char} (h : literalLines cs = some (body, rest)) :
    Quoted cs rest := by
  fun_induction literalLines cs generalizing body with
  | case1 =>
    obtain ⟨_, rfl⟩ := Prod.mk.inj (Option.some.inj h)
    exact ⟨['\'', '\'', '\'', '\''], _, rfl, .inr rfl⟩
  | case2 =>
    obtain ⟨_, rfl⟩ := Prod.mk.inj (Option.some.inj h)
    exact ⟨['\'', '\'', '\''], _, rfl, .inr rfl⟩
  | case3 =>
    obtain ⟨_, rfl⟩ := Prod.mk.inj (Option.some.inj h)
    exact ⟨['\'', '\''], _, rfl, .inr rfl⟩
  | case4 _ ih => exact ((Quoted.of_map h (fun _ => rfl) ih).cons _).cons _
  | case5 _ _ _ _ _ _ _ ih => exact (Quoted.of_map h (fun _ => rfl) ih).cons _
  | case6 | case7 => cases h

theorem quoted_basicLines {state : BasicState} {body : List Char}
    (h : basicLines state cs = some (body, rest)) : Quoted cs rest := by
  fun_induction basicLines state cs generalizing body with
  | case1 | case18 =>
    obtain ⟨_, rfl⟩ := Prod.mk.inj (Option.some.inj h)
    exact ⟨['"', '"', '"', '"'], _, rfl, .inl rfl⟩
  | case2 | case19 =>
    obtain ⟨_, rfl⟩ := Prod.mk.inj (Option.some.inj h)
    exact ⟨['"', '"', '"'], _, rfl, .inl rfl⟩
  | case3 | case20 =>
    obtain ⟨_, rfl⟩ := Prod.mk.inj (Option.some.inj h)
    exact ⟨['"', '"'], _, rfl, .inl rfl⟩
  | case4 _ ih => exact ((Quoted.of_map h (fun _ => rfl) ih).cons _).cons _
  | case8 _ ih | case13 _ ih | case17 _ ih => exact ((ih h).cons _).cons _
  | case5 | case9 | case10 | case14 | case15 | case21 | case22 =>
    rename_i ih
    exact (ih h).cons _
  | case6 | case11 | case23 | case25 =>
    rename_i ih
    exact (Quoted.of_map h (fun _ => rfl) ih).cons _
  | case7 | case12 | case16 | case24 | case26 | case27 => cases h

theorem newline_eq {w : List Char} (h : newline cs = some (w, rest)) :
    cs = w ++ rest ∧ (w = ['\n'] ∨ w = ['\r', '\n']) := by
  unfold newline at h
  split at h
  · obtain ⟨rfl, rfl⟩ := Prod.mk.inj (Option.some.inj h)
    exact ⟨rfl, .inl rfl⟩
  · obtain ⟨rfl, rfl⟩ := Prod.mk.inj (Option.some.inj h)
    exact ⟨rfl, .inr rfl⟩
  · cases h

theorem Quoted.of_dropNewline (h : Quoted (dropNewline cs) rest) : Quoted cs rest := by
  unfold dropNewline at h
  split at h
  · rename_i hnewline
    obtain ⟨rfl, _⟩ := newline_eq hnewline
    exact h.append _
  · exact h

theorem quoted_string {s : String} (h : string cs = some (s, rest)) : Quoted cs rest := by
  unfold string at h
  split at h
  · obtain ⟨body, hbody, -⟩ := exists_of_map h
    exact (quoted_basicLines hbody).of_dropNewline.append ['"', '"', '"']
  · obtain ⟨body, hbody, -⟩ := exists_of_map h
    exact (quoted_basicBody hbody).append ['"']
  · obtain ⟨body, hbody, -⟩ := exists_of_map h
    exact (quoted_literalLines hbody).of_dropNewline.append ['\'', '\'', '\'']
  · obtain ⟨body, hbody, -⟩ := exists_of_map h
    exact (quoted_literalBody hbody).append ['\'']
  · cases h

theorem quoted_quotedKey {s : String} (h : quotedKey cs = some (s, rest)) : Quoted cs rest := by
  unfold quotedKey at h
  split at h
  · obtain ⟨body, hbody, -⟩ := exists_of_map h
    exact (quoted_basicBody hbody).append ['"']
  · obtain ⟨body, hbody, -⟩ := exists_of_map h
    exact (quoted_literalBody hbody).append ['\'']
  · cases h

/-- What was taken before the rest, which may go over several lines, does not end with a line. -/
def MidLine (cs rest : List Char) : Prop := ∃ w, cs = w ++ rest ∧ w.getLast? ≠ some '\n'

theorem MidLine.trans {mid : List Char} (h : MidLine cs mid) (h' : MidLine mid rest) :
    MidLine cs rest := by
  obtain ⟨w, rfl, hw⟩ := h
  obtain ⟨v, rfl, hv⟩ := h'
  refine ⟨w ++ v, (List.append_assoc ..).symm, fun last => ?_⟩
  rw [List.getLast?_append, Option.or_eq_some_iff] at last
  exact last.elim hv fun last => hw last.2

theorem SameLine.midLine (h : SameLine cs rest) : MidLine cs rest := by
  obtain ⟨w, eq, hw⟩ := h
  exact ⟨w, eq, fun last => hw (List.mem_of_getLast? last)⟩

theorem Quoted.midLine (h : Quoted cs rest) : MidLine cs rest := by
  obtain ⟨w, q, rfl, hq⟩ := h
  refine ⟨w ++ [q], by simp, ?_⟩
  rcases hq with rfl | rfl <;> simp

theorem midLine_literal {word : List Char} (hw : '\n' ∉ word) {value v : Scalar}
    (h : literal word value cs = some (v, rest)) : MidLine cs rest := by
  obtain ⟨_, hrest, eq⟩ := Option.map_eq_some_iff.1 h
  obtain ⟨_, rfl⟩ := Prod.mk.inj eq
  exact (SameLine.of_dropLead? hw hrest).midLine

theorem midLine_scalar {v : Scalar} (h : scalar cs = some (v, rest)) : MidLine cs rest := by
  unfold scalar at h
  split at h
  · obtain ⟨s, hs, -⟩ := exists_of_map h
    exact (quoted_string hs).midLine
  · obtain ⟨s, hs, -⟩ := exists_of_map h
    exact (quoted_string hs).midLine
  · exact midLine_literal (by decide) h
  · exact midLine_literal (by decide) h
  · exact (sameLine_numeric h).midLine

end DottedPatch.Toml.Scan
