namespace DottedPatch.Text

def splitOn (separator : Char) (s : String) : List String :=
  (s.toList.splitOn separator).map String.ofList

def join (separator : Char) (pieces : List String) : String :=
  (String.singleton separator).intercalate pieces

def cut? (separator : Char) : List Char → Option (List Char × List Char)
  | [] => none
  | c :: cs =>
    if c = separator then some ([], cs)
    else (cut? separator cs).map fun (before, after) => (c :: before, after)

def splitFirst? (separator : Char) (s : String) : Option (String × String) :=
  (cut? separator s.toList).map fun (before, after) => (.ofList before, .ofList after)

def splitLast? (separator : Char) (s : String) : Option (String × String) :=
  (cut? separator s.toList.reverse).map fun (after, before) =>
    (.ofList before.reverse, .ofList after.reverse)

def dropLead? : (lead text : List Char) → Option (List Char)
  | [], text => some text
  | _ :: _, [] => none
  | a :: lead, b :: text => if a = b then dropLead? lead text else none

def stripLead? (lead text : String) : Option String :=
  (dropLead? lead.toList text.toList).map String.ofList

def startsWith (lead text : String) : Bool := (stripLead? lead text).isSome

def dropReturn (cs : List Char) : List Char :=
  if cs.getLast? = some '\r' then cs.dropLast else cs

def stripReturn (s : String) : String := .ofList (dropReturn s.toList)

/-- The lines end at a newline, or at a carriage return with a newline; the last line need not end. -/
def lines (s : String) : List String :=
  let pieces := s.toList.splitOn '\n'
  let unended := pieces.getLast?.filter (· ≠ [])
  ((pieces.dropLast.map dropReturn) ++ unended.toList).map String.ofList

def isBlank (c : Char) : Bool :=
  let n := c.toNat
  (9 ≤ n && n ≤ 13) || n == 0x20 || n == 0x85 || n == 0xA0 || n == 0x1680 ||
  (0x2000 ≤ n && n ≤ 0x200A) || n == 0x2028 || n == 0x2029 || n == 0x202F || n == 0x205F ||
  n == 0x3000

def dropBlank : List Char → List Char := List.dropWhile isBlank

def trimStart (s : String) : String := .ofList (dropBlank s.toList)

def trim (s : String) : String := .ofList (dropBlank (dropBlank s.toList).reverse).reverse

def trimEnd (s : String) : String := .ofList (dropBlank s.toList.reverse).reverse

end DottedPatch.Text
