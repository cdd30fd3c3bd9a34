import DottedPatch.Failure
import DottedPatch.Toml.Path

namespace DottedPatch.Schema

open Config Toml

abbrev Checked := Except SchemaFault Unit

def checkPresence (above : String) (t : Table) : List Section → Checked
  | [] => .ok ()
  | child :: rest =>
    match Entries.lookup child.name t with
    | some _ => checkPresence above t rest
    | none => .error (.sectionMissing (Section.pathBelow above child.name))

def checkLeafName (s : Section) (path key : String) : Checked :=
  if s.leaves.any (·.name = key) then .ok () else .error (.undeclared path)

mutual

def checkEntry (s : Section) (above key : String) : Value → Checked
  | .table sub =>
    let path := Section.pathBelow above key
    match s.children.find? (·.name = key) with
    | some child => do
      checkEntries child path sub
      checkPresence path sub child.children
    | none => checkLeafName s path key
  | .scalar _ | .array _ =>
    let path := Section.pathBelow above key
    match s.children.find? (·.name = key) with
    | some _ => .error (.noSection path)
    | none => checkLeafName s path key

def checkEntries (s : Section) (above : String) : List (String × Value) → Checked
  | [] => .ok ()
  | (key, value) :: entries => do
    checkEntry s above key value
    checkEntries s above entries

end

def checkTable (s : Section) (t : Table) : Checked := do
  checkEntries s "" t
  checkPresence "" t s.children

section

variable (α : Type) [Configuration α]

def readBack? (path : List String) (t : Table) : Option Value :=
  match (Config.ofTable t : Except Failure α) with
  | .error _ => none
  | .ok config =>
    match Config.toTable config with
    | .error _ => none
    | .ok t => Table.lookupPath path t

def isReadable (t : Table) : Bool :=
  match (Config.ofTable t : Except Failure α) with
  | .ok _ => true
  | .error _ => false

def checkLeaf (t : Table) (path : String) (leaf : Leaf) : Checked :=
  let sample := leaf.kind.sample.toValue
  let keys := pathOf path
  if readBack? α keys (Table.insertPath sample keys t) ≠ some sample then
    .error (.noField path leaf.kind)
  else
    match leaf.onNull with
    | .reset value => if leaf.kind.accepts value then .ok () else .error (.nullMisfit path value leaf.kind)
    | .unset => if isReadable α (Table.erasePath keys t) then .ok () else .error (.notOptional path)

end

def check {α : Type} [Configuration α] (schema : Schema) (config : α) : Except Failure Unit := do
  let t ← toTable config
  let checked : Checked := do
    checkTable schema.root t
    schema.leaves.forM fun (path, leaf) => checkLeaf α t path leaf
  checked.mapError .schemaMismatch

end DottedPatch.Schema
