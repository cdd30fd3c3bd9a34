import DottedPatch.Text.Pieces
import DottedPatch.Toml.Value

namespace DottedPatch.Toml

def pathOf (dotted : String) : List String := Text.splitOn '.' dotted

def dotted (path : List String) : String := Text.join '.' path

namespace Table

def empty : Table := []

def lookupPath : (path : List String) → Table → Option Value
  | [], _ => none
  | [key], t => Entries.lookup key t
  | key :: rest, t =>
    match Entries.lookup key t with
    | some (.table sub) => lookupPath rest sub
    | _ => none

/-- Stores a value at a path; another value on the way gives room to a table. -/
def insertPath (value : Value) : (path : List String) → Table → Table
  | [], t => t
  | [key], t => Entries.insert key value t
  | key :: rest, t =>
    match Entries.lookup key t with
    | some (.table sub) => Entries.insert key (.table (insertPath value rest sub)) t
    | _ => Entries.insert key (.table (insertPath value rest empty)) t

def erasePath : (path : List String) → Table → Table
  | [], t => t
  | [key], t => Entries.erase key t
  | key :: rest, t =>
    match Entries.lookup key t with
    | some (.table sub) => Entries.insert key (.table (erasePath rest sub)) t
    | _ => t

structure Walk where
  table : Table
  arrived : Bool

/-- Walks on from the table at `above`, key by key, and makes each table that is missing. Another value
on the way ends the walk, and what was made before it stays. -/
def walk (above : List String) : (path : List String) → Table → Walk
  | [], t => ⟨t, true⟩
  | key :: rest, t =>
    let here := above ++ [key]
    match lookupPath here t with
    | none => walk here rest (insertPath (.table empty) here t)
    | some (.table _) => walk here rest t
    | some _ => ⟨t, false⟩

mutual

def cover : (lower : Option Value) → (upper : Value) → Value
  | some (.table lower), .table upper => .table (merge lower upper)
  | _, .table upper => .table upper
  | _, .scalar s => .scalar s
  | _, .array xs => .array xs

def merge : (lower upper : List (String × Value)) → List (String × Value)
  | lower, [] => lower
  | lower, (key, value) :: upper =>
    merge (Entries.insert key (cover (Entries.lookup key lower) value) lower) upper

end

end Table

end DottedPatch.Toml
