namespace DottedPatch.Toml

structure Date where
  year : Nat
  month : Nat
  day : Nat
  deriving DecidableEq, Repr

structure Time where
  hour : Nat
  minute : Nat
  second : Nat
  nanosecond : Nat
  deriving DecidableEq, Repr

inductive Offset
  | utc
  | minutes (east : Int)
  deriving DecidableEq, Repr

inductive Datetime
  | day (date : Date)
  | clock (time : Time)
  | wall (date : Date) (time : Time)
  | moment (date : Date) (time : Time) (offset : Offset)
  deriving DecidableEq, Repr

def isLeap (year : Nat) : Bool :=
  year % 4 == 0 && (year % 100 != 0 || year % 400 == 0)

def daysIn (year month : Nat) : Nat :=
  if month = 2 then (if isLeap year then 29 else 28)
  else if month = 4 ∨ month = 6 ∨ month = 9 ∨ month = 11 then 30
  else 31

def padded (places n : Nat) : List Char :=
  let cs := Nat.toDigits 10 n
  List.replicate (places - cs.length) '0' ++ cs

def Date.chars (d : Date) : List Char :=
  padded 4 d.year ++ '-' :: padded 2 d.month ++ '-' :: padded 2 d.day

/-- The fraction of a second ends before its trailing zeros, and is left out when it is zero. -/
def Time.fraction (t : Time) : List Char :=
  if t.nanosecond = 0 then []
  else '.' :: ((padded 9 t.nanosecond).reverse.dropWhile (· == '0')).reverse

def Time.chars (t : Time) : List Char :=
  padded 2 t.hour ++ ':' :: padded 2 t.minute ++ ':' :: padded 2 t.second ++ t.fraction

def Offset.chars : Offset → List Char
  | .utc => ['Z']
  | .minutes east =>
    (if east < 0 then '-' else '+') ::
      padded 2 (east.natAbs / 60) ++ ':' :: padded 2 (east.natAbs % 60)

def Datetime.chars : Datetime → List Char
  | .day d => d.chars
  | .clock t => t.chars
  | .wall d t => d.chars ++ 'T' :: t.chars
  | .moment d t o => d.chars ++ 'T' :: t.chars ++ o.chars

def Datetime.text (d : Datetime) : String := .ofList d.chars

end DottedPatch.Toml
