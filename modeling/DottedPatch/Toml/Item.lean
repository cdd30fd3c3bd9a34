import DottedPatch.Toml.Value

/-! A TOML document as written: every value with the text around it, keys as they were spelt, and
tables in the order of their headers. -/

namespace DottedPatch.Toml

/-- The blank space and comments around a thing; the printer chooses where none is given. -/
structure Decor where
  before : Option String := none
  after : Option String := none
  deriving DecidableEq, Repr

/-- A dotted decor surrounds a key between dots, a leaf decor a whole dotted path that ends in it. -/
structure Key where
  name : String
  written : Option String := none
  leaf : Decor := {}
  dotted : Decor := {}
  deriving DecidableEq, Repr

/-- An implicit table is one that only its subtables ask for, a dotted table one made by a dotted
key. Tables that headers opened are numbered in the order of the headers. -/
structure Head where
  decor : Decor := {}
  implicit : Bool := false
  dotted : Bool := false
  position : Option Nat := none
  deriving DecidableEq, Repr

inductive Item
  | vacant
  | scalar (value : Scalar) (written : Option String) (decor : Decor)
  | array (items : List Item) (closing : String) (comma : Bool) (decor : Decor)
  | inline (opening : String) (dotted : Bool) (entries : List (Key × Item)) (decor : Decor)
  | table (head : Head) (entries : List (Key × Item))
  | tables (elements : List (Head × List (Key × Item)))

namespace Item

mutual

def ofValue : Value → Item
  | .scalar s => .scalar s none {}
  | .array xs => .array (ofItems xs) "" false {}
  | .table es => .inline "" false (ofEntries es) {}

def ofItems : List Value → List Item
  | [] => []
  | x :: xs => ofValue x :: ofItems xs

def ofEntries : List (String × Value) → List (Key × Item)
  | [] => []
  | (k, x) :: es => ({ name := k }, ofValue x) :: ofEntries es

end

mutual

def value? : Item → Option Value
  | .vacant => none
  | .scalar v _ _ => some (.scalar v)
  | .array items _ _ _ => some (.array (values items))
  | .inline _ _ entries _ => some (.table (data entries))
  | .table _ entries => some (.table (data entries))
  | .tables elements => some (.array (elementData elements))

def values : List Item → List Value
  | [] => []
  | item :: items => (value? item).toList ++ values items

def data : List (Key × Item) → List (String × Value)
  | [] => []
  | (key, item) :: entries =>
    match value? item with
    | some v => Entries.insert key.name v (data entries)
    | none => data entries

def elementData : List (Head × List (Key × Item)) → List Value
  | [] => []
  | (_, entries) :: elements => .table (data entries) :: elementData elements

end

def decor? : Item → Option Decor
  | .scalar _ _ d | .array _ _ _ d | .inline _ _ _ d => some d
  | _ => none

def withDecor (d : Decor) : Item → Item
  | .scalar v w _ => .scalar v w d
  | .array xs closing comma _ => .array xs closing comma d
  | .inline opening dotted es _ => .inline opening dotted es d
  | item => item

end Item

abbrev Members := List (Key × Item)

namespace Members

def find? (name : String) : Members → Option (Key × Item)
  | [] => none
  | (key, item) :: members => if key.name = name then some (key, item) else find? name members

def put (key : Key) (item : Item) : Members → Members
  | [] => [(key, item)]
  | (k, i) :: members => if k.name = key.name then (k, item) :: members else (k, i) :: put key item members

def erase (name : String) : Members → Members
  | [] => []
  | (key, item) :: members => if key.name = name then members else (key, item) :: erase name members

end Members

structure Document where
  members : Members := []
  trailing : String := ""

def Document.table (d : Document) : Table := Item.data d.members

end DottedPatch.Toml
