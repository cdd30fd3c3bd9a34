import DottedPatch.Number.Numeral
import DottedPatch.Proofs.Except
import Mathlib.Data.Nat.Digits.Defs
import Mathlib.Tactic.Ring

namespace DottedPatch

theorem Width.holds_iff {w : Width} {n : Int} :
    w.Holds n ↔ -2 ^ (w.bits - 1) ≤ n ∧ n < 2 ^ (w.bits - 1) := by
  cases w <;> simp only [Width.Holds, Width.least, Width.greatest, Width.bits] <;> omega

namespace Numeral

inductive Sign
  | none
  | plus
  | minus

namespace Sign

def text : Sign → List Char
  | none => []
  | plus => ['+']
  | minus => ['-']

def apply : Sign → Nat → Int
  | none, n | plus, n => n
  | minus, n => -n

def limit (w : Width) : Sign → Nat
  | none | plus => w.greatest.toNat
  | minus => w.least.natAbs

def excess : Sign → NumeralError
  | none | plus => .tooLarge
  | minus => .tooSmall

theorem holds_apply_iff {w : Width} {sign : Sign} {n : Nat} :
    w.Holds (sign.apply n) ↔ n ≤ sign.limit w := by
  cases w <;> cases sign <;>
    simp only [Width.Holds, Width.least, Width.greatest, apply, limit] <;> omega

theorem excess_eq {w : Width} {sign : Sign} {n : Nat} (h : sign.limit w < n) :
    sign.excess = if sign.apply n < 0 then .tooSmall else .tooLarge := by
  cases sign with
  | none | plus => rw [if_neg (by simp [apply])]; rfl
  | minus => rw [if_pos (by simp only [apply]; omega)]; rfl

end Sign

def magnitude (digits : List Char) : Nat :=
  Nat.ofDigits 10 (digits.reverse.map fun c => c.toNat - '0'.toNat)

/-- An optional sign and one or more digits write a number. -/
inductive Writes : List Char → Int → Prop
  | digits (sign : Sign) {digits : List Char} (ne : digits ≠ []) (all : ∀ c ∈ digits, c.isDigit) :
    Writes (sign.text ++ digits) (sign.apply (magnitude digits))

theorem magnitude_cons (c : Char) (cs : List Char) :
    magnitude (c :: cs) = (c.toNat - '0'.toNat) * 10 ^ cs.length + magnitude cs := by
  rw [magnitude, List.reverse_cons, List.map_append, Nat.ofDigits_append, magnitude]
  simp [Nat.ofDigits_singleton, Nat.add_comm, Nat.mul_comm]

theorem magnitude_zeros (zeros : Nat) (digits : List Char) :
    magnitude (List.replicate zeros '0' ++ digits) = magnitude digits := by
  simp [magnitude, Nat.ofDigits_append_replicate_zero]

theorem digit?_eq (c : Char) : digit? c = if c.isDigit then some (c.toNat - '0'.toNat) else none := by
  have : ('0' ≤ c ∧ c ≤ '9') ↔ c.isDigit := by
    simp [Char.isDigit, Char.le_def]
  simp only [digit?, this]

theorem readDigits_cons {limit value : Nat} {excess : NumeralError} {c : Char} (hc : c.isDigit)
    (cs : List Char) :
    readDigits limit excess value (c :: cs) =
      if 10 * value + (c.toNat - '0'.toNat) ≤ limit then
        readDigits limit excess (10 * value + (c.toNat - '0'.toNat)) cs
      else .error excess := by
  rw [readDigits, digit?_eq, if_pos hc]

theorem readDigits_cons_of_not {limit value : Nat} {excess : NumeralError} {c : Char}
    (hc : c.isDigit = false) (cs : List Char) :
    readDigits limit excess value (c :: cs) = .error .invalidDigit := by
  rw [readDigits, digit?_eq, hc]
  rfl

theorem readDigits_of_digits {limit value : Nat} {excess : NumeralError} {cs : List Char}
    (hv : value ≤ limit) (all : ∀ c ∈ cs, c.isDigit) :
    readDigits limit excess value cs =
      if value * 10 ^ cs.length + magnitude cs ≤ limit then
        .ok (value * 10 ^ cs.length + magnitude cs)
      else .error excess := by
  induction cs generalizing value with
  | nil => simp [readDigits, magnitude, hv]
  | cons c cs ih =>
    obtain ⟨hc, all⟩ := List.forall_mem_cons.1 all
    have total : value * 10 ^ (c :: cs).length + magnitude (c :: cs) =
        (10 * value + (c.toNat - '0'.toNat)) * 10 ^ cs.length + magnitude cs := by
      rw [magnitude_cons, List.length_cons, Nat.pow_succ]
      ring
    rw [readDigits_cons hc, total]
    split
    · rename_i within
      exact ih within all
    · -- The number is not less than what was read of it.
      rename_i beyond
      have := Nat.le_mul_of_pos_right (10 * value + (c.toNat - '0'.toNat))
        (show 0 < 10 ^ cs.length from Nat.pow_pos (by decide))
      rw [if_neg (by omega)]

theorem isDigit_of_readDigits {limit value n : Nat} {excess : NumeralError} {cs : List Char}
    (h : readDigits limit excess value cs = .ok n) : ∀ c ∈ cs, c.isDigit := by
  induction cs generalizing value with
  | nil => simp
  | cons c cs ih =>
    cases hc : c.isDigit with
    | false => simp [readDigits_cons_of_not hc] at h
    | true =>
      rw [readDigits_cons hc] at h
      split at h
      · exact List.forall_mem_cons.2 ⟨hc, ih h⟩
      · cases h

theorem readMagnitude_of_digits {limit : Nat} {excess : NumeralError} {digits : List Char}
    (ne : digits ≠ []) (all : ∀ c ∈ digits, c.isDigit) :
    readMagnitude limit excess digits =
      if magnitude digits ≤ limit then .ok (magnitude digits) else .error excess := by
  rw [readMagnitude, readDigits_of_digits (Nat.zero_le _) all, Nat.zero_mul, Nat.zero_add]
  exact ne

theorem digits_of_readMagnitude {limit n : Nat} {excess : NumeralError} {cs : List Char}
    (h : readMagnitude limit excess cs = .ok n) : cs ≠ [] ∧ ∀ c ∈ cs, c.isDigit := by
  cases cs with
  | nil => cases h
  | cons c cs => exact ⟨List.cons_ne_nil c cs, isDigit_of_readDigits h⟩

theorem read_minus (w : Width) (cs : List Char) :
    read w ('-' :: cs) = (readMagnitude (Sign.minus.limit w) Sign.minus.excess cs).map
      Sign.minus.apply := by
  rw [read]
  cases h : readMagnitude w.least.natAbs .tooSmall cs <;> simp only [Sign.limit, Sign.excess, h] <;> rfl

theorem read_unsigned (w : Width) {c : Char} (minus : c ≠ '-') (plus : c ≠ '+') (cs : List Char) :
    read w (c :: cs) = (readMagnitude (Sign.none.limit w) Sign.none.excess (c :: cs)).map
      Sign.none.apply := by
  rw [read]
  · rfl
  · simp
  · simp [minus]
  · simp [plus]

theorem read_cases (w : Width) (cs : List Char) :
    cs = [] ∨ ∃ (sign : Sign) (digits : List Char), cs = sign.text ++ digits ∧
      read w cs = (readMagnitude (sign.limit w) sign.excess digits).map sign.apply := by
  fun_cases read w cs with
  | case1 => exact .inl rfl
  | case2 cs => exact .inr ⟨.minus, cs, rfl, read_minus w cs⟩
  | case3 cs => exact .inr ⟨.plus, cs, rfl, rfl⟩
  | case4 => exact .inr ⟨.none, cs, rfl, rfl⟩

theorem read_of_digits {w : Width} {sign : Sign} {digits : List Char} (ne : digits ≠ [])
    (all : ∀ c ∈ digits, c.isDigit) :
    read w (sign.text ++ digits) =
      if magnitude digits ≤ sign.limit w then .ok (sign.apply (magnitude digits))
      else .error sign.excess := by
  obtain ⟨c, cs, rfl⟩ := List.exists_cons_of_ne_nil ne
  have reads : read w (sign.text ++ c :: cs) =
      (readMagnitude (sign.limit w) sign.excess (c :: cs)).map sign.apply := by
    cases sign with
    | plus => rfl
    | minus => exact read_minus w (c :: cs)
    | none =>
      have minus : c ≠ '-' := by
        rintro rfl
        exact absurd (all '-' List.mem_cons_self) (by decide)
      have plus : c ≠ '+' := by
        rintro rfl
        exact absurd (all '+' List.mem_cons_self) (by decide)
      exact read_unsigned w minus plus cs
  rw [reads, readMagnitude_of_digits ne all]
  split <;> rfl

theorem read_eq_ok_iff {w : Width} {cs : List Char} {n : Int} :
    read w cs = .ok n ↔ Writes cs n ∧ w.Holds n := by
  constructor
  · intro h
    rcases read_cases w cs with rfl | ⟨sign, digits, rfl, reads⟩
    · cases h
    · obtain ⟨m, hm, rfl⟩ := ok_of_map (reads.symm.trans h)
      obtain ⟨ne, all⟩ := digits_of_readMagnitude hm
      rw [readMagnitude_of_digits ne all] at hm
      split at hm
      · rename_i within
        obtain rfl := Except.ok.inj hm
        exact ⟨.digits sign ne all, Sign.holds_apply_iff.2 within⟩
      · cases hm
  · rintro ⟨⟨sign, ne, all⟩, within⟩
    rw [read_of_digits ne all, if_pos (Sign.holds_apply_iff.1 within)]

theorem read_of_writes {w : Width} {cs : List Char} {n : Int} (h : Writes cs n) (hn : ¬w.Holds n) :
    read w cs = .error (if n < 0 then .tooSmall else .tooLarge) := by
  obtain ⟨sign, ne, all⟩ := h
  have beyond := mt Sign.holds_apply_iff.2 hn
  rw [read_of_digits ne all, if_neg beyond, Sign.excess_eq (Nat.lt_of_not_le beyond)]

theorem isDigit_zeros {digits : List Char} (zeros : Nat) (all : ∀ c ∈ digits, c.isDigit) :
    ∀ c ∈ List.replicate zeros '0' ++ digits, c.isDigit := by
  intro c hc
  rcases List.mem_append.1 hc with hc | hc
  · rw [List.eq_of_mem_replicate hc]
    rfl
  · exact all c hc

theorem read_zeros (w : Width) {sign : Sign} {digits : List Char} (zeros : Nat)
    (ne : digits ≠ []) (all : ∀ c ∈ digits, c.isDigit) :
    read w (sign.text ++ (List.replicate zeros '0' ++ digits)) = read w (sign.text ++ digits) := by
  rw [read_of_digits (by simp [ne]) (isDigit_zeros zeros all), read_of_digits ne all, magnitude_zeros]

end Numeral

end DottedPatch
