import DottedPatch.Schema.Casing
import DottedPatch.Schema.LeafValue
import DottedPatch.Toml.Path

namespace DottedPatch

/-- The delimiter separates the items of a set or list as it is given in a patch. -/
inductive Kind
  | boolean
  | integer (width : Width)
  | string
  | set (delimiter : Char)
  | list (delimiter : Char)
  | map
  deriving DecidableEq, Repr

def entrySeparator : Char := ';'

def pairSeparator : Char := ':'

namespace Kind

def name : Kind → String
  | .boolean => "bool"
  | .integer w => w.name
  | .string => "string"
  | .set _ => "set"
  | .list _ => "list"
  | .map => "map"

def delimiters? : Kind → Option String
  | .set delimiter | .list delimiter => some (.singleton delimiter)
  | .map => some (.ofList [entrySeparator, ' ', pairSeparator])
  | .boolean | .integer _ | .string => none

def accepts : Kind → LeafValue → Bool
  | .boolean, .boolean _ | .integer _, .integer _ | .string, .string _
  | .set _, .set _ | .list _, .list _ | .map, .map _ => true
  | _, _ => false

def sample : Kind → LeafValue
  | .boolean => .boolean true
  | .integer _ => .integer 7
  | .string => .string "sample"
  | .set _ => .set { toList := ["sample"] }
  | .list _ => .list ["sample"]
  | .map => .map { entries := [("k", "v")] }

end Kind

inductive OnNull
  | reset (value : LeafValue)
  | unset
  deriving DecidableEq

namespace OnNull

def value? : OnNull → Option LeafValue
  | .reset v => some v
  | .unset => none

def text (n : OnNull) : String := LeafValue.textOrAbsent n.value?

end OnNull

structure Leaf where
  name : String
  kind : Kind
  onNull : OnNull := .unset
  doc : String := ""
  deriving DecidableEq

namespace Leaf

def boolean (name : String) : Leaf := { name, kind := .boolean, onNull := .reset (.boolean false) }

def integer (width : Width) (name : String) : Leaf := { name, kind := .integer width }

def string (name : String) : Leaf := { name, kind := .string, onNull := .reset (.string "") }

def set (delimiter : Char) (name : String) : Leaf := { name, kind := .set delimiter }

def list (delimiter : Char) (name : String) : Leaf := { name, kind := .list delimiter }

def map (name : String) : Leaf := { name, kind := .map }

def resetsTo (value : LeafValue) (l : Leaf) : Leaf := { l with onNull := .reset value }

def unsets (l : Leaf) : Leaf := { l with onNull := .unset }

def described (doc : String) (l : Leaf) : Leaf := { l with doc }

end Leaf

structure Section where
  name : String
  doc : String := ""
  leaves : List Leaf := []
  children : List Section := []

namespace Section

def child? (casing : Casing) (segment : String) (s : Section) : Option Section :=
  s.children.find? fun c => casing.admits c.name segment

def leaf? (casing : Casing) (segment : String) (s : Section) : Option Leaf :=
  s.leaves.find? fun l => casing.admits l.name segment

def descend? (casing : Casing) : (segments : List String) → Section → Option (List String × Section)
  | [], s => some ([], s)
  | segment :: rest, s => do
    let c ← s.child? casing segment
    let (names, last) ← descend? casing rest c
    return (c.name :: names, last)

/-- A name below a path; a path without characters is left out. -/
def pathBelow (above name : String) : String := if above = "" then name else above ++ "." ++ name

mutual

def leavesBelow (above : String) : Section → List (String × Leaf)
  | ⟨_, _, leaves, children⟩ =>
    leaves.map (fun l => (pathBelow above l.name, l)) ++ leavesOfAll above children

def leavesOfAll (above : String) : List Section → List (String × Leaf)
  | [] => []
  | s :: rest => s.leavesBelow (pathBelow above s.name) ++ leavesOfAll above rest

end

end Section

/-- The root of a tree of sections, whose own name is not used. -/
structure Schema where
  root : Section

namespace Schema

def leaves (s : Schema) : List (String × Leaf) := s.root.leavesBelow ""

def findLeaf? (casing : Casing) (key : String) (s : Schema) : Option (String × Leaf) := do
  let (parents, last) :=
    match Text.splitLast? '.' key with
    | some (parents, last) => (Toml.pathOf parents, last)
    | none => ([], key)
  let (names, s) ← s.root.descend? casing parents
  let leaf ← s.leaf? casing last
  return (Toml.dotted (names ++ [leaf.name]), leaf)

end Schema

structure LeafRow where
  path : String
  kind : String
  delimiters : Option String
  onNull : String
  doc : String
  deriving DecidableEq

namespace LeafRow

def ofLeaf (path : String) (l : Leaf) : LeafRow :=
  { path
    kind := l.kind.name
    delimiters := l.kind.delimiters?
    onNull := l.onNull.text
    doc := l.doc }

def text (r : LeafRow) : String :=
  let split :=
    match r.delimiters with
    | some d => " split '" ++ d ++ "'"
    | none => ""
  r.path ++ " (" ++ r.kind ++ ")" ++ split ++ " null -> " ++ r.onNull

end LeafRow

def Schema.rows (s : Schema) : List LeafRow := s.leaves.map fun (path, l) => .ofLeaf path l

end DottedPatch
