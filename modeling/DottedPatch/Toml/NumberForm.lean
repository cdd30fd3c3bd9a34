import DottedPatch.Number.Width
import DottedPatch.Toml.Spacing
import DottedPatch.Toml.Value

namespace DottedPatch.Toml.Scan

def digitsOf (base : Nat) (c : Char) : Option Nat :=
  let value :=
    if '0' ≤ c ∧ c ≤ '9' then c.toNat - '0'.toNat
    else if 'a' ≤ c ∧ c ≤ 'f' then c.toNat - 'a'.toNat + 10
    else if 'A' ≤ c ∧ c ≤ 'F' then c.toNat - 'A'.toNat + 10
    else base
  if value < base then some value else none

def digitRun (base : Nat) : (after : Bool) → Scan (List Nat)
  | true, [] => some ([], [])
  | false, [] => none
  | after, c :: cs =>
    match digitsOf base c with
    | some d => (digitRun base true cs).map fun (ds, r) => (d :: ds, r)
    | none => if after then (if c = '_' then digitRun base false cs else some ([], c :: cs)) else none

def natOf (base : Nat) (digits : List Nat) : Nat := digits.foldl (fun n d => base * n + d) 0

def sign : List Char → Option Bool × List Char
  | '+' :: cs => (some false, cs)
  | '-' :: cs => (some true, cs)
  | cs => (none, cs)

def wholeDigits : Scan (List Nat)
  | '0' :: cs => some ([0], cs)
  | cs => digitRun 10 false cs

def integerOf (n : Int) : Option Scalar :=
  if Width.w64.Holds n then some (.integer n) else none

def exponent : Scan Int := fun cs => do
  let (negative, cs) := sign cs
  let (digits, cs) ← digitRun 10 false cs
  let n : Int := natOf 10 digits
  return (if negative = some true then -n else n, cs)

/-- A number too large is no float, and one too far below zero is minus infinity. -/
def floatOf (negative : Bool) (whole fraction : List Nat) (power : Int) : Option Scalar :=
  let digits := whole ++ fraction
  match Double.ofDecimal negative (natOf 10 digits) digits.length (power - fraction.length) with
  | .infinite false => none
  | x => some (.float x)

def based (base : Nat) : Scan Scalar := fun cs => do
  let (digits, cs) ← digitRun base false cs
  return (← integerOf (natOf base digits), cs)

def decimal (signed : Option Bool) : Scan Scalar := fun cs => do
  let negative := signed = some true
  let (whole, cs) ← wholeDigits cs
  match cs with
  | '.' :: cs =>
    let (fraction, cs) ← digitRun 10 false cs
    match cs with
    | 'e' :: cs | 'E' :: cs =>
      let (power, cs) ← exponent cs
      return (← floatOf negative whole fraction power, cs)
    | cs => return (← floatOf negative whole fraction 0, cs)
  | 'e' :: cs | 'E' :: cs =>
    let (power, cs) ← exponent cs
    return (← floatOf negative whole [] power, cs)
  | cs =>
    let n : Int := natOf 10 whole
    return (← integerOf (if negative then -n else n), cs)

def number : Scan Scalar := fun cs =>
  match sign cs with
  | (none, '0' :: 'x' :: cs) => based 16 cs
  | (none, '0' :: 'o' :: cs) => based 8 cs
  | (none, '0' :: 'b' :: cs) => based 2 cs
  | (signed, 'i' :: 'n' :: 'f' :: cs) => some (.float (.infinite (signed = some true)), cs)
  | (_, 'n' :: 'a' :: 'n' :: cs) => some (.float .nan, cs)
  | (signed, cs) => decimal signed cs

def fixedDigits : (places value : Nat) → Scan Nat
  | 0, value, cs => some (value, cs)
  | _ + 1, _, [] => none
  | places + 1, value, c :: cs =>
    match digitsOf 10 c with
    | some d => fixedDigits places (10 * value + d) cs
    | none => none

def within (low high : Nat) (places : Nat) : Scan Nat := fun cs => do
  let (n, cs) ← fixedDigits places 0 cs
  if low ≤ n ∧ n ≤ high then return (n, cs) else none

def date : Scan Date := fun cs => do
  let (year, cs) ← fixedDigits 4 0 cs
  let (_, cs) ← char '-' cs
  let (month, cs) ← within 1 12 2 cs
  let (_, cs) ← char '-' cs
  let (day, cs) ← within 1 (daysIn year month) 2 cs
  return (⟨year, month, day⟩, cs)

def isDigit (c : Char) : Bool := (digitsOf 10 c).isSome

/-- Digits of a fraction after the ninth are left out. -/
def fraction (cs : List Char) : Nat × List Char :=
  match cs with
  | '.' :: rest =>
    let (digits, after) := rest.span isDigit
    if digits = [] then (0, cs)
    else
      let nine := (digits ++ List.replicate 9 '0').take 9
      (natOf 10 (nine.filterMap (digitsOf 10)), after)
  | _ => (0, cs)

def time (lastHour : Nat) : Scan Time := fun cs => do
  let (hour, cs) ← within 0 lastHour 2 cs
  let (_, cs) ← char ':' cs
  let (minute, cs) ← within 0 59 2 cs
  let (_, cs) ← char ':' cs
  let (second, cs) ← within 0 60 2 cs
  let (nanosecond, cs) := fraction cs
  return (⟨hour, minute, second, nanosecond⟩, cs)

def offset : Scan Offset
  | 'Z' :: cs | 'z' :: cs => some (.utc, cs)
  | cs =>
    match sign cs with
    | (some west, cs) => do
      let (hours, cs) ← within 0 23 2 cs
      let (_, cs) ← char ':' cs
      let (minutes, cs) ← within 0 59 2 cs
      let east : Int := 60 * hours + minutes
      return (.minutes (if west then -east else east), cs)
    | (none, _) => none

def isTimeMark (c : Char) : Bool := c == 'T' || c == 't' || c == ' '

def timeAfter? : List Char → Option (Time × List Char)
  | c :: cs => if isTimeMark c then time 23 cs else none
  | [] => none

def datetime : Scan Datetime := fun cs =>
  match date cs with
  | some (d, cs) =>
    match timeAfter? cs with
    | some (t, cs) =>
      match offset cs with
      | some (o, cs) => some (.moment d t o, cs)
      | none => some (.wall d t, cs)
    | none => some (.day d, cs)
  | none => (time 23 cs).map fun (t, cs) => (.clock t, cs)

def numeric : Scan Scalar := fun cs =>
  match datetime cs with
  | some (d, cs) => some (.datetime d, cs)
  | none => number cs

end DottedPatch.Toml.Scan
