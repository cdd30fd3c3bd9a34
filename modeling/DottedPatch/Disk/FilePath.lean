import DottedPatch.Text.Pieces

namespace DottedPatch.FilePath

def endsInSlash (path : String) : Bool := path.toList.getLast? = some '/'

def under (directory name : String) : String :=
  if directory = "" ∨ endsInSlash directory then directory ++ name
  else directory ++ "/" ++ name

/-- The steps of a path. Empty names count for nothing; a slash at the end asks for a directory. -/
def steps (path : String) : List String :=
  let pieces := Text.splitOn '/' path
  let names := pieces.filter (· ≠ "")
  if pieces.getLast? = some "" ∧ names ≠ [] then names ++ ["."] else names

def settledNames (path : String) : List String :=
  match Text.splitOn '/' path with
  | [] => []
  | first :: rest => first :: rest.filter fun name => name ≠ "" ∧ name ≠ "."

def parent? (path : String) : Option String :=
  match (settledNames path).dropLast with
  | [] => none
  | [""] => if path.toList.any (· ≠ '/') then some "/" else none
  | names => some (Text.join '/' names)

end DottedPatch.FilePath
