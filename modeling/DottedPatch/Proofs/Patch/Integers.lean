import DottedPatch.Proofs.Patch.Kinds

namespace DottedPatch.Patch

def Rejection.notInteger (w : Width) (raw : String) (e : NumeralError) : Rejection :=
  .coercion s!"'{raw}' is not a {w.bits}-bit integer: {e.message}"

open Numeral

theorem coerce_integer {policy : EntryPolicy} {w : Width} {leaf : Leaf}
    (integer : leaf.kind = .integer w) {raw : String} (hraw : raw ≠ nullText) :
    coerce policy leaf raw =
      match read w raw.toList with
      | .ok n => .ok (some (.integer n))
      | .error e => .error (.notInteger w raw e) := by
  rw [coerce, if_neg hraw, integer, coerceTo, Coercion.integer]
  cases read w raw.toList <;> rfl

theorem ne_null_of_digits {sign : Sign} {digits : List Char} (all : ∀ c ∈ digits, c.isDigit) :
    String.ofList (sign.text ++ digits) ≠ nullText := by
  intro eq
  have letters := congrArg String.toList eq
  rw [String.toList_ofList] at letters
  have last : 'l' ∈ sign.text ++ digits := by
    rw [letters]
    decide
  rcases List.mem_append.1 last with h | h
  · cases sign <;> simp [Sign.text] at h
  · exact absurd (all 'l' h) (by decide)

/-- A leaf of integers takes a text exactly if an optional sign and digits, and nothing else, write a
number within its width, and takes that number. Any other text is rejected, a number as too large or
too small. Zeros before the digits change nothing. -/
theorem coerce_integer_iff (policy : EntryPolicy) {w : Width} {leaf : Leaf}
    (integer : leaf.kind = .integer w) :
    (∀ raw, raw ≠ nullText →
      (∀ v, coerce policy leaf raw = .ok v ↔
        ∃ n, Writes raw.toList n ∧ (-2 ^ (w.bits - 1) ≤ n ∧ n < 2 ^ (w.bits - 1)) ∧
          v = some (.integer n)) ∧
      (∀ n, Writes raw.toList n → ¬(-2 ^ (w.bits - 1) ≤ n ∧ n < 2 ^ (w.bits - 1)) →
        coerce policy leaf raw =
          .error (.notInteger w raw (if n < 0 then .tooSmall else .tooLarge))) ∧
      ((∀ n, ¬Writes raw.toList n) →
        ∃ e, coerce policy leaf raw = .error (.notInteger w raw e))) ∧
    ∀ (sign : Sign) digits zeros, digits ≠ [] → (∀ c ∈ digits, c.isDigit) →
      (coerce policy leaf
          (.ofList (sign.text ++ (List.replicate zeros '0' ++ digits)))).toOption =
        (coerce policy leaf (.ofList (sign.text ++ digits))).toOption := by
  refine ⟨fun raw hraw => ⟨fun v => ?_, fun n hn beyond => ?_, fun none => ?_⟩, ?_⟩
  · rw [coerce_integer integer hraw]
    constructor
    · intro h
      split at h
      · rename_i n hn
        obtain ⟨writes, within⟩ := read_eq_ok_iff.1 hn
        exact ⟨n, writes, Width.holds_iff.1 within, (Except.ok.inj h).symm⟩
      · cases h
    · rintro ⟨n, writes, within, rfl⟩
      rw [read_eq_ok_iff.2 ⟨writes, Width.holds_iff.2 within⟩]
  · rw [coerce_integer integer hraw, read_of_writes hn (mt Width.holds_iff.1 beyond)]
  · rw [coerce_integer integer hraw]
    cases h : read w raw.toList with
    | ok n => exact absurd (read_eq_ok_iff.1 h).1 (none n)
    | error e => exact ⟨e, rfl⟩
  · intro sign digits zeros ne all
    rw [coerce_integer integer (ne_null_of_digits (isDigit_zeros zeros all)),
      coerce_integer integer (ne_null_of_digits all), String.toList_ofList, String.toList_ofList,
      read_zeros w zeros ne all]
    cases read w (sign.text ++ digits) <;> rfl

theorem coerce_integer_iff_bounds :
    let leaf : Leaf := .integer .w32 "port"
    leaf.kind = .integer .w32 ∧ "-02147483648" ≠ nullText ∧ "2147483648" ≠ nullText ∧
      coerce .rejectLine leaf "-02147483648" = .ok (some (.integer (-2147483648))) ∧
      coerce .rejectLine leaf "2147483648" = .error (.notInteger .w32 "2147483648" .tooLarge) := by
  intro leaf
  obtain ⟨takes, -⟩ := coerce_integer_iff .rejectLine (show leaf.kind = .integer .w32 from rfl)
  have least : Writes "-02147483648".toList (-2147483648) :=
    .digits .minus (show "02147483648".toList ≠ [] by decide) (List.all_eq_true.1 (by decide))
  have next : Writes "2147483648".toList 2147483648 :=
    .digits .none (show "2147483648".toList ≠ [] by decide) (List.all_eq_true.1 (by decide))
  have short : "-02147483648" ≠ nullText := by decide
  have long : "2147483648" ≠ nullText := by decide
  exact ⟨rfl, short, long,
    ((takes _ short).1 _).2 ⟨_, least, by decide, rfl⟩, (takes _ long).2.1 _ next (by decide)⟩

end DottedPatch.Patch
