import DottedPatch.Text.Lowercase

namespace DottedPatch

inductive Casing
  | exact
  | ignoreAscii
  deriving DecidableEq, Repr

namespace Casing

def name : Casing → String
  | .exact => "exact"
  | .ignoreAscii => "ignore-ascii"

def names : List String := [exact.name, ignoreAscii.name]

def ofName? (s : String) : Option Casing := [exact, ignoreAscii].find? (·.name = s)

def admits : Casing → (canonical segment : String) → Bool
  | .exact, canonical, segment => canonical == segment
  | .ignoreAscii, canonical, segment => Text.sameUpToCase canonical segment

end Casing

end DottedPatch
