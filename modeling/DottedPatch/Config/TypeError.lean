import DottedPatch.Number.Shortest
import DottedPatch.Text.Invisible
import DottedPatch.Toml.Path

namespace DottedPatch.Config

open Toml

inductive Found
  | boolean (b : Bool)
  | integer (n : Int)
  | float (x : Double)
  | string (s : String)
  | sequence
  | map
  | unitVariant

namespace Found

def ofValue : Value → Found
  | .string s => .string s
  | .integer n => .integer n
  | .float x => .float x
  | .boolean b => .boolean b
  | .datetime d => .string d.text
  | .array _ => .sequence
  | .table _ => .map

def floatText : Double → String
  | .nan => "NaN"
  | .infinite negative => if negative then "-inf" else "inf"
  | .finite negative significand exponent => Double.finiteText negative significand exponent

def text : Found → String
  | .boolean b => if b then "boolean `true`" else "boolean `false`"
  | .integer n => s!"integer `{n}`"
  | .float x => s!"floating point `{floatText x}`"
  | .string s => s!"string {Text.quote s}"
  | .sequence => "sequence"
  | .map => "map"
  | .unitVariant => "unit variant"

end Found

def typeName : Value → String
  | .string _ => "string"
  | .integer _ => "integer"
  | .float _ => "float"
  | .boolean _ => "boolean"
  | .datetime _ => "datetime"
  | .array _ => "array"
  | .table _ => "table"

inductive Mismatch
  | type (found : Found) (expected : String)
  | range (n : Int) (expected : String)
  | missing (field : String)
  | unknownVariant (found : String) (known : List String)
  | noVariant
  | manyVariants
  | payload (found : Value)
  | tooFew (found : Nat) (record : String) (fields : Nat)
  | tooMany (found : Nat)
  | noDatetime
  | besideDatetime (entries : Nat)

namespace Mismatch

def alternatives : List String → String
  | [] => "there are no variants"
  | [a] => s!"expected `{a}`"
  | [a, b] => s!"expected `{a}` or `{b}`"
  | names => "expected one of " ++ ", ".intercalate (names.map fun name => "`" ++ name ++ "`")

def text : Mismatch → String
  | .type found expected => s!"invalid type: {found.text}, expected {expected}"
  | .range n expected => s!"invalid value: {(Found.integer n).text}, expected {expected}"
  | .missing field => s!"missing field `{field}`"
  | .unknownVariant found known => s!"unknown variant `{found}`, {alternatives known}"
  | .noVariant => "wanted exactly 1 element, found 0 elements"
  | .manyVariants => "wanted exactly 1 element, more than 1 element"
  | .payload (.array _) => "expected empty array"
  | .payload (.table _) => "expected empty table"
  | .payload found => s!"expected table, found {typeName found}"
  | .tooFew found record fields =>
    s!"invalid length {found}, expected struct {record} with {fields} element" ++
      (if fields = 1 then "" else "s")
  | .tooMany found => s!"invalid length {found}, expected fewer elements in array"
  | .noDatetime => "failed to parse datetime"
  | .besideDatetime entries => s!"invalid length {entries}, expected fewer elements in map"

end Mismatch

structure TypeError where
  cause : Mismatch
  path : List String := []

namespace TypeError

def within (key : String) (e : TypeError) : TypeError := { e with path := key :: e.path }

def text (e : TypeError) : String :=
  e.cause.text ++ "\n" ++ (if e.path = [] then "" else "in `" ++ dotted e.path ++ "`\n")

end TypeError

end DottedPatch.Config
