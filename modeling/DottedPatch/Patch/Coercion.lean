import DottedPatch.Number.Numeral
import DottedPatch.Patch.Line
import DottedPatch.Patch.Rejection
import DottedPatch.Schema.Section

namespace DottedPatch.Patch

open Config

/-- What an entry of a map without a key and a value does: it rejects its line, or is skipped. -/
inductive EntryPolicy
  | rejectLine
  | skipEntry
  deriving DecidableEq, Repr

namespace EntryPolicy

def name : EntryPolicy → String
  | .rejectLine => "reject-line"
  | .skipEntry => "skip-entry"

def names : List String := [rejectLine.name, skipEntry.name]

def ofName? (s : String) : Option EntryPolicy := [rejectLine, skipEntry].find? (·.name = s)

end EntryPolicy

namespace Coercion

def tokens (delimiter : Char) (raw : String) : List String :=
  (Text.splitOn delimiter raw).filter (· ≠ "")

def boolean (raw : String) : Except Rejection Bool :=
  if Text.sameUpToCase raw "true" then .ok true
  else if Text.sameUpToCase raw "false" then .ok false
  else .error (.coercion s!"'{raw}' is not a boolean")

def integer (w : Width) (raw : String) : Except Rejection Int :=
  match Numeral.read w raw.toList with
  | .ok n => .ok n
  | .error e => .error (.coercion s!"'{raw}' is not a {w.bits}-bit integer: {e.message}")

def splitPair? (piece : String) : Option (String × String) :=
  (Text.splitFirst? pairSeparator piece).filter (·.1 ≠ "")

def isMalformed (piece : String) : Bool := (splitPair? piece).isNone

def map (policy : EntryPolicy) (raw : String) : Except Rejection StringMap :=
  let pieces := tokens entrySeparator raw
  match policy, pieces.find? isMalformed with
  | .rejectLine, some piece => .error (.malformedEntry piece)
  | _, _ => .ok (.ofList (pieces.filterMap splitPair?))

def skipped (policy : EntryPolicy) (kind : Kind) (raw : String) : List String :=
  match policy, kind with
  | .skipEntry, .map =>
    if raw = nullText then [] else (tokens entrySeparator raw).filter isMalformed
  | _, _ => []

end Coercion

open Coercion in
def coerceTo (policy : EntryPolicy) (raw : String) : Kind → Except Rejection LeafValue
  | .boolean => (boolean raw).map .boolean
  | .integer w => (integer w raw).map .integer
  | .string => .ok (.string raw)
  | .set delimiter => .ok (.set (.ofList (tokens delimiter raw)))
  | .list delimiter => .ok (.list (tokens delimiter raw))
  | .map => (map policy raw).map .map

/-- No value means that the leaf is to be absent. -/
def coerce (policy : EntryPolicy) (leaf : Leaf) (raw : String) : Except Rejection (Option LeafValue) :=
  if raw = nullText then .ok leaf.onNull.value? else (coerceTo policy raw leaf.kind).map some

end DottedPatch.Patch
