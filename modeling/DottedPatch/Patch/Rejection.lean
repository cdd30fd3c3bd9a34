namespace DottedPatch.Patch

inductive Rejection
  | emptyPath
  | unknownSegment (segment : String)
  | coercion (detail : String)
  | malformedEntry (entry : String)
  deriving DecidableEq, Repr

namespace Rejection

def kind : Rejection → String
  | .emptyPath => "empty-path"
  | .unknownSegment _ => "unknown-segment"
  | .coercion _ => "coercion"
  | .malformedEntry _ => "malformed-map-entry"

def text : Rejection → String
  | .emptyPath => "empty path"
  | .unknownSegment segment => s!"unknown segment '{segment}'"
  | .coercion detail => s!"coercion failed: {detail}"
  | .malformedEntry entry =>
    s!"coercion failed: malformed map entry '{entry}' (expected key:value)"

end Rejection

end DottedPatch.Patch
