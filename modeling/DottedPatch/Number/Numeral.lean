import DottedPatch.Number.Width

namespace DottedPatch

inductive NumeralError
  | empty
  | invalidDigit
  | tooLarge
  | tooSmall
  deriving DecidableEq, Repr

def NumeralError.message : NumeralError → String
  | .empty => "cannot parse integer from empty string"
  | .invalidDigit => "invalid digit found in string"
  | .tooLarge => "number too large to fit in target type"
  | .tooSmall => "number too small to fit in target type"

namespace Numeral

def digit? (c : Char) : Option Nat :=
  if '0' ≤ c ∧ c ≤ '9' then some (c.toNat - '0'.toNat) else none

/-- Digits are taken from the left, and the first that is none or passes the limit ends the reading. -/
def readDigits (limit : Nat) (excess : NumeralError) : (value : Nat) → List Char → Except NumeralError Nat
  | value, [] => .ok value
  | value, c :: cs =>
    match digit? c with
    | none => .error .invalidDigit
    | some d =>
      let next := 10 * value + d
      if next ≤ limit then readDigits limit excess next cs else .error excess

def readMagnitude (limit : Nat) (excess : NumeralError) : List Char → Except NumeralError Nat
  | [] => .error .invalidDigit
  | cs => readDigits limit excess 0 cs

def read (w : Width) : List Char → Except NumeralError Int
  | [] => .error .empty
  | '-' :: cs => (readMagnitude w.least.natAbs .tooSmall cs).map fun n => -(n : Int)
  | '+' :: cs => (readMagnitude w.greatest.toNat .tooLarge cs).map Int.ofNat
  | cs => (readMagnitude w.greatest.toNat .tooLarge cs).map Int.ofNat

end Numeral

end DottedPatch
