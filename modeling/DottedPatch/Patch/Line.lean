import DottedPatch.Text.Pieces
import DottedPatch.Toml.Path

namespace DottedPatch.Patch

open Toml (pathOf dotted)

/-- The raw value that resets a leaf. A line without an equals sign carries it. -/
def nullText : String := "null"

structure Line where
  number : Nat
  segments : List String
  raw : String
  deriving DecidableEq, Repr

namespace Line

def path (l : Line) : String := dotted l.segments

/-- A carriage return at the end is dropped; nothing else is trimmed. -/
def read (number : Nat) (text : String) : Line :=
  let text := Text.stripReturn text
  let (key, raw) := (Text.splitFirst? '=' text).getD (text, nullText)
  { number, segments := if key = "" then [] else pathOf key, raw }

def isInstruction (text : String) : Bool :=
  match Text.dropBlank text.toList with
  | [] => false
  | c :: _ => c != '#'

end Line

def readLines (text : String) : List Line :=
  ((Text.lines text).zipIdx 1).filterMap fun (line, number) =>
    if Line.isInstruction line then some (Line.read number line) else none

end DottedPatch.Patch
