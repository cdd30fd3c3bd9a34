import DottedPatch.Config.Encode
import DottedPatch.Text.Invisible

namespace DottedPatch

open Config Toml

inductive LeafValue
  | boolean (b : Bool)
  | integer (n : Int)
  | string (s : String)
  | set (items : StringSet)
  | list (items : List String)
  | map (entries : StringMap)
  deriving DecidableEq

namespace LeafValue

def toValue : LeafValue → Value
  | .boolean b => .boolean b
  | .integer n => .integer n
  | .string s => .string s
  | .set items => .array (items.toList.map .string)
  | .list items => .array (items.map .string)
  | .map entries => .table entries.table

def listed (items : List String) : String := ", ".intercalate items

def text : LeafValue → String
  | .boolean b => if b then "true" else "false"
  | .integer n => toString n
  | .string s => Text.quote s
  | .set items => "\x7b" ++ listed items.toList ++ "\x7d"
  | .list items => "[" ++ listed items ++ "]"
  | .map entries =>
    "\x7b" ++ listed (entries.entries.map fun (k, v) => k ++ ": " ++ v) ++ "\x7d"

def textOrAbsent : Option LeafValue → String
  | some v => v.text
  | none => "<absent>"

end LeafValue

end DottedPatch
