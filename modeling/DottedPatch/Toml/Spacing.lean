namespace DottedPatch.Toml

abbrev Scan (α : Type) := List Char → Option (α × List Char)

namespace Scan

def isSpace (c : Char) : Bool := c == ' ' || c == '\t'

def isCommentChar (c : Char) : Bool := c == '\t' || (0x20 ≤ c.toNat && c.toNat != 0x7F)

def spaces (cs : List Char) : List Char × List Char := cs.span isSpace

def char (c : Char) : Scan Unit
  | [] => none
  | d :: cs => if d = c then some ((), cs) else none

def newline : Scan (List Char)
  | '\n' :: cs => some (['\n'], cs)
  | '\r' :: '\n' :: cs => some (['\r', '\n'], cs)
  | _ => none

def lineEnd : Scan (List Char)
  | [] => some ([], [])
  | cs => newline cs

def comment (cs : List Char) : List Char × List Char :=
  match cs with
  | '#' :: _ => cs.span isCommentChar
  | _ => ([], cs)

def lineRest : Scan (List Char) := fun cs => do
  let (blank, cs) := spaces cs
  let (remark, cs) := comment cs
  let (_, cs) ← lineEnd cs
  return (blank ++ remark, cs)

def prepend (c : Char) (result : List Char × List Char) : List Char × List Char :=
  (c :: result.1, result.2)

def filler : (remark : Bool) → Scan (List Char)
  | false, [] => some ([], [])
  | true, [] => none
  | _, '\n' :: cs => (filler false cs).map (prepend '\n')
  | _, '\r' :: '\n' :: cs => (filler false cs).map fun r => prepend '\r' (prepend '\n' r)
  | true, c :: cs => if isCommentChar c then (filler true cs).map (prepend c) else none
  | false, c :: cs =>
    if c = '#' then (filler true cs).map (prepend c)
    else if isSpace c then (filler false cs).map (prepend c)
    else some ([], c :: cs)

end Scan

end DottedPatch.Toml
