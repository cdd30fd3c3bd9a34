namespace DottedPatch

/-- A finite value is `± significand * 2 ^ exponent`. What is not a number has no sign. -/
inductive Double
  | nan
  | infinite (negative : Bool)
  | finite (negative : Bool) (significand : Nat) (exponent : Int)
  deriving DecidableEq, Repr

namespace Double

def leastNormal : Nat := 4503599627370496

def leastCarry : Nat := 9007199254740992

def leastExponent : Int := -1074

def greatestExponent : Int := 971

def roundQuotient (num den : Nat) : Nat :=
  let q := num / den
  let r := 2 * (num % den)
  if r < den then q else if den < r then q + 1 else q + q % 2

def scaled (num den : Nat) (exponent : Int) : Nat :=
  if 0 ≤ exponent then roundQuotient num (den * Nat.pow 2 exponent.toNat)
  else roundQuotient (num * Nat.pow 2 (-exponent).toNat) den

def ofQuotient (negative : Bool) (num den : Nat) : Double :=
  if num = 0 then .finite negative 0 leastExponent
  else
    let guess : Int := num.log2 - den.log2 - 53
    let above := if scaled num den guess < leastCarry then guess else guess + 1
    let exponent := max above leastExponent
    let significand := scaled num den exponent
    let (significand, exponent) :=
      if significand < leastCarry then (significand, exponent) else (leastNormal, exponent + 1)
    if exponent ≤ greatestExponent then .finite negative significand exponent else .infinite negative

def ofDecimal (negative : Bool) (digits places : Nat) (power : Int) : Double :=
  if digits = 0 ∨ power + places < -400 then .finite negative 0 leastExponent
  else if 400 < power then .infinite negative
  else if 0 ≤ power then ofQuotient negative (digits * Nat.pow 10 power.toNat) 1
  else ofQuotient negative digits (Nat.pow 10 (-power).toNat)

end Double

end DottedPatch
