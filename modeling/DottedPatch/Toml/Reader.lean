import DottedPatch.Toml.Denotation
import DottedPatch.Toml.Statement

namespace DottedPatch.Toml

namespace Members

/-- Assigns an item to a dotted path of a table. A dotted key makes tables, and enters those that
have no header of their own. -/
def assign? (item : Item) : (entered dotted : Bool) → (path : List Key) → Members → Option Members
  | _, _, [], _ => none
  | entered, dotted, [key], members =>
    if entered && !dotted || (find? key.name members).isSome then none
    else some (members ++ [(key, item)])
  | _, _, key :: path, members =>
    match find? key.name members with
    | none =>
      (assign? item true true path []).map fun sub =>
        members ++ [(key, .table { implicit := true, dotted := true } sub)]
    | some (_, .table head sub) =>
      if head.implicit then
        (assign? item true head.dotted path sub).map fun sub => put key (.table head sub) members
      else none
    | some (_, .tables elements) =>
      match elements.getLast? with
      | some (head, sub) =>
        (assign? item true head.dotted path sub).map fun sub =>
          put key (.tables (elements.dropLast ++ [(head, sub)])) members
      | none => none
    | some _ => none

/-- Opens the table of a header and fills it. A header names a table once; one that only had
subtables so far moves behind the tables written before it. -/
def openTable? (head : Head) (element : Bool) (fill : Members → Option Members) :
    (path : List Key) → Members → Option Members
  | [], _ => none
  | [key], members =>
    match element, find? key.name members with
    | false, none => (fill []).map fun sub => members ++ [(key, .table head sub)]
    | false, some (_, .table old sub) =>
      if old.implicit && !old.dotted then
        (fill sub).map fun sub => erase key.name members ++ [(key, .table head sub)]
      else none
    | true, none => (fill []).map fun sub => members ++ [(key, .tables [(head, sub)])]
    | true, some (_, .tables elements) =>
      (fill []).map fun sub => put key (.tables (elements ++ [(head, sub)])) members
    | _, some _ => none
  | key :: path, members =>
    match find? key.name members with
    | none =>
      (openTable? head element fill path []).map fun sub =>
        members ++ [(key, .table { implicit := true } sub)]
    | some (_, .table old sub) =>
      (openTable? head element fill path sub).map fun sub => put key (.table old sub) members
    | some (_, .tables elements) =>
      match elements.getLast? with
      | some (old, sub) =>
        (openTable? head element fill path sub).map fun sub =>
          put key (.tables (elements.dropLast ++ [(old, sub)])) members
      | none => none
    | some _ => none

def fill? (assignments : List (List Key × Item)) (members : Members) : Option Members :=
  assignments.foldlM (fun members (path, item) => assign? item false false path members) members

end Members

namespace Statement

def assignments : List Statement → List (List Key × Item)
  | .assign path item :: rest => (path, item) :: assignments rest
  | _ => []

def openTables? : (position : Nat) → List Statement → Members → Option Members
  | _, [], members => some members
  | position, .assign _ _ :: rest, members => openTables? position rest members
  | position, .header path element decor :: rest, members => do
    let fill := Members.fill? (assignments rest)
    let members ← Members.openTable? { decor, position := some position } element fill path members
    openTables? (position + 1) rest members

end Statement

namespace Document

def ofStatements? (statements : List Statement) (trailing : String) : Option Document := do
  let members ← Members.fill? (Statement.assignments statements) []
  let members ← Statement.openTables? 1 statements members
  return { members, trailing }

def dropMark : List Char → List Char
  | '\ufeff' :: cs => cs
  | cs => cs

def read? (text : String) : Option Document := do
  let cs := dropMark text.toList
  let (statements, trailing) ← Scan.statements (cs.length + 1) [] cs
  ofStatements? statements trailing

end Document

def Table.read? (text : String) : Option Table := (Document.read? text).bind Document.denoted?

end DottedPatch.Toml
