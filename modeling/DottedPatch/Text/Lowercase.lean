import DottedPatch.Text.CaseTable

namespace DottedPatch.Text

def lowerChar (c : Char) : Char :=
  let n := c.toNat
  match lowerRuns.find? fun (first, last, step, _) => first ≤ n && n ≤ last && (n - first) % step == 0 with
  | some (_, _, _, shift) => .ofNat (n + shift).toNat
  | none => c

def nextToCased (cs : List Char) : Bool :=
  ((cs.dropWhile isCaseIgnorable).head?.map isCased).getD false

/-- A sigma that ends a word has a form of its own, and a capital I with a dot keeps the dot. -/
def lowerChars (before : List Char) : List Char → List Char
  | [] => []
  | c :: after =>
    let lower :=
      if c = 'Σ' then [if nextToCased before && !nextToCased after then 'ς' else 'σ']
      else if c = 'İ' then ['i', '\u0307']
      else [lowerChar c]
    lower ++ lowerChars (c :: before) after

def lowercase (s : String) : String := .ofList (lowerChars [] s.toList)

def sameUpToCase (s t : String) : Bool :=
  s.toList.map Char.toLower == t.toList.map Char.toLower

end DottedPatch.Text
