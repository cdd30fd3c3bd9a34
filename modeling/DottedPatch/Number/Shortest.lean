import DottedPatch.Number.Double

namespace DottedPatch.Double

/-- The reals that round to a finite value, in units of `1 / unit`: the value lies between the
ends, and the ends count when the significand is even. -/
structure Neighbourhood where
  unit : Nat
  low : Nat
  value : Nat
  high : Nat
  closed : Bool

def neighbourhood (significand : Nat) (exponent : Int) : Neighbourhood :=
  let raised := Nat.pow 2 (exponent - 2).toNat
  let below := if significand = leastNormal ∧ leastExponent < exponent then 1 else 2
  { unit := Nat.pow 2 (2 - exponent).toNat
    low := (4 * significand - below) * raised
    value := 4 * significand * raised
    high := (4 * significand + 2) * raised
    closed := significand % 2 == 0 }

def Neighbourhood.point? (n : Neighbourhood) (power : Int) : Option Nat :=
  let up := Nat.pow 10 (-power).toNat
  let step := n.unit * Nat.pow 10 power.toNat
  let inside (x : Nat) : Bool :=
    if n.closed then n.low * up ≤ x && x ≤ n.high * up else n.low * up < x && x < n.high * up
  let value := n.value * up
  let k := value / step
  match inside (k * step), inside ((k + 1) * step) with
  | true, true => some (if 2 * (value % step) < step then k else k + 1)
  | true, false => some k
  | false, true => some (k + 1)
  | false, false => none

def Neighbourhood.firstPoint (n : Neighbourhood) : (grids : Nat) → (power : Int) → Nat × Int
  | 0, _ => (0, 0)
  | grids + 1, power =>
    match n.point? power with
    | some k => (k, power)
    | none => firstPoint n grids (power - 1)

def shortest (significand : Nat) (exponent : Int) : Nat × Int :=
  if significand = 0 then (0, 0)
  else
    let top := (significand.log2 + exponent) * 30103 / 100000 + 2
    (neighbourhood significand exponent).firstPoint 24 top

def positional (digits : Nat) (power : Int) : List Char :=
  let cs := Nat.toDigits 10 digits
  if 0 ≤ power then cs ++ List.replicate power.toNat '0'
  else
    let places := (-power).toNat
    let cs := List.replicate (places + 1 - cs.length) '0' ++ cs
    cs.take (cs.length - places) ++ '.' :: cs.drop (cs.length - places)

def magnitude (significand : Nat) (exponent : Int) : List Char :=
  let (digits, power) := shortest significand exponent
  let cs := positional digits power
  if 0 ≤ power then cs ++ ['.', '0'] else cs

def finiteText (negative : Bool) (significand : Nat) (exponent : Int) : String :=
  .ofList ((if negative then ['-'] else []) ++ magnitude significand exponent)

end DottedPatch.Double
