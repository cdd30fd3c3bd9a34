import DottedPatch.Toml.NumberForm

/-! Datetimes spelt in strings. A clock may show the end of a day as hour 24, and be up to a day
ahead or behind. -/

namespace DottedPatch.Toml

def datetimeKey : String := "$__toml_private_datetime"

namespace Scan

def shift : Scan Offset
  | 'Z' :: cs | 'z' :: cs => some (.utc, cs)
  | cs =>
    match sign cs with
    | (some west, cs) => do
      let (hours, cs) ← fixedDigits 2 0 cs
      let (_, cs) ← char ':' cs
      let (minutes, cs) ← fixedDigits 2 0 cs
      let east : Int := 60 * hours + minutes
      if east ≤ 24 * 60 then return (.minutes (if west then -east else east), cs) else none
    | (none, _) => none

def whole? {α : Type} (scan : Scan α) (cs : List Char) : Option α :=
  match scan cs with
  | some (a, []) => some a
  | _ => none

end Scan

namespace Datetime

def ofDay? (d : Date) : List Char → Option Datetime
  | [] => some (.day d)
  | mark :: cs =>
    if Scan.isTimeMark mark then
      match Scan.time 24 cs with
      | some (t, []) => some (.wall d t)
      | some (t, cs) => (Scan.whole? Scan.shift cs).map (.moment d t)
      | none => none
    else none

def ofText? (text : String) : Option Datetime :=
  match text.toList with
  | a :: b :: ':' :: cs => (Scan.whole? (Scan.time 24) (a :: b :: ':' :: cs)).map .clock
  | cs => (Scan.date cs).bind fun (d, cs) => ofDay? d cs

end Datetime

end DottedPatch.Toml
