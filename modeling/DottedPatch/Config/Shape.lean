import DottedPatch.Config.Collections
import DottedPatch.Number.Width

/-! Shapes of configuration types.

A shape says what a value may be, `Shape.Carrier` is the type of the values of a shape, and
`Shape.encode` and `Shape.decode` lead from them to TOML values and back. -/

namespace DottedPatch.Config

mutual

inductive Shape
  | boolean
  | integer (width : Width)
  | string
  | strings
  | stringSet
  | stringMap
  | choice (names : List String)
  | record (name : String) (fields : Fields)

inductive Fields
  | nil
  | required (name : String) (shape : Shape) (rest : Fields)
  | optional (name : String) (shape : Shape) (rest : Fields)

end

mutual

@[reducible] def Shape.Carrier : Shape → Type
  | .boolean => Bool
  | .integer w => Bounded w
  | .string => String
  | .strings => List String
  | .stringSet => StringSet
  | .stringMap => StringMap
  | .choice names => { name : String // name ∈ names }
  | .record _ fields => fields.Carrier

@[reducible] def Fields.Carrier : Fields → Type
  | .nil => Unit
  | .required _ shape rest => shape.Carrier × rest.Carrier
  | .optional _ shape rest => Option shape.Carrier × rest.Carrier

end

namespace Fields

def names : Fields → List String
  | .nil => []
  | .required name _ rest | .optional name _ rest => name :: rest.names

def size (fields : Fields) : Nat := fields.names.length

end Fields

end DottedPatch.Config
