import DottedPatch.Config.Shape
import DottedPatch.Toml.Item

namespace DottedPatch.Config

open Toml

def StringMap.table (m : StringMap) : Table := m.entries.map fun (k, v) => (k, .string v)

mutual

def Shape.encode : (s : Shape) → s.Carrier → Value
  | .boolean, b => .boolean b
  | .integer _, n => .integer n.val
  | .string, s => .string s
  | .strings, ss => .array (ss.map .string)
  | .stringSet, ss => .array (ss.toList.map .string)
  | .stringMap, m => .table m.table
  | .choice _, name => .string name.val
  | .record _ fields, c => .table (fields.encode c)

def Fields.encode : (fields : Fields) → fields.Carrier → Table
  | .nil, _ => []
  | .required name shape rest, c => Entries.insert name (shape.encode c.1) (rest.encode c.2)
  | .optional name shape rest, c =>
    match c.1 with
    | some v => Entries.insert name (shape.encode v) (rest.encode c.2)
    | none => rest.encode c.2

end

/-- A table with entries needs a header only for values of its own. -/
def tableItem (members : Members) : Item := .table { implicit := !members.isEmpty } members

mutual

def Shape.item : (s : Shape) → s.Carrier → Item
  | .record _ fields, c => tableItem (fields.members c)
  | .stringMap, m => tableItem (Item.ofEntries m.table)
  | .boolean, b => .ofValue (.boolean b)
  | .integer _, n => .ofValue (.integer n.val)
  | .string, s => .ofValue (.string s)
  | .strings, ss => .ofValue (.array (ss.map .string))
  | .stringSet, ss => .ofValue (.array (ss.toList.map .string))
  | .choice _, name => .ofValue (.string name.val)

def Fields.members : (fields : Fields) → fields.Carrier → Members
  | .nil, _ => []
  | .required name shape rest, c => ({ name }, shape.item c.1) :: rest.members c.2
  | .optional name shape rest, c =>
    match c.1 with
    | some v => ({ name }, shape.item v) :: rest.members c.2
    | none => rest.members c.2

end

end DottedPatch.Config
