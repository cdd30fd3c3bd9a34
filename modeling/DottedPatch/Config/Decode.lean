import DottedPatch.Config.Shape
import DottedPatch.Config.TypeError

/-! Reading a configuration from a TOML value, and the keys of the value that the reading ignores.

A record is read from a table by the names of its fields, or from an array by their order. -/

namespace DottedPatch.Config

open Toml

abbrev Decoded (α : Type) := Except TypeError α

namespace Decoded

def fail {α : Type} (cause : Mismatch) : Decoded α := .error { cause }

def within {α : Type} (key : String) : Decoded α → Decoded α
  | .ok a => .ok a
  | .error e => .error (e.within key)

def error? {α : Type} : Decoded α → Option TypeError
  | .ok _ => none
  | .error e => some e

end Decoded

def mismatch {α : Type} (v : Value) (expected : String) : Decoded α :=
  .fail (.type (.ofValue v) expected)

def decodeString : Value → Decoded String
  | .string s => .ok s
  | .datetime d => .ok d.text
  | v => mismatch v "a string"

def decodeStrings : Value → Decoded (List String)
  | .array items => items.mapM decodeString
  | v => mismatch v "a sequence"

def decodeStringMap : Value → Decoded StringMap
  | .table entries =>
    (entries.mapM fun (k, v) => (decodeString v).within k |>.map fun s => (k, s)).map .ofList
  | v => mismatch v "a map"

def decodeInteger (w : Width) : Value → Decoded (Bounded w)
  | .integer n =>
    match Bounded.ofInt? w n with
    | some b => .ok b
    | none => .fail (.range n w.name)
  | v => mismatch v w.name

def chosen (names : List String) (name : String) : Decoded { name : String // name ∈ names } :=
  if h : name ∈ names then .ok ⟨name, h⟩ else .fail (.unknownVariant name names)

def isEmptyPayload : Value → Bool
  | .array [] | .table [] => true
  | _ => false

/-- A choice is its name, or the name with an empty payload. -/
def decodeChoice (names : List String) : Value → Decoded { name : String // name ∈ names }
  | .string name => chosen names name
  | .table [] => .fail .noVariant
  | .table [(name, payload)] => do
    let c ← chosen names name
    if isEmptyPayload payload then return c else .fail (.payload payload)
  | .table _ => .fail .manyVariants
  | _ => .fail (.type .unitVariant "string only")

mutual

def Shape.decode : (s : Shape) → Value → Decoded s.Carrier
  | .boolean, v =>
    match v with
    | .boolean b => .ok b
    | v => mismatch v "a boolean"
  | .integer w, v => decodeInteger w v
  | .string, v => decodeString v
  | .strings, v => decodeStrings v
  | .stringSet, v => (decodeStrings v).map .ofList
  | .stringMap, v => decodeStringMap v
  | .choice names, v => decodeChoice names v
  | .record name fields, v =>
    match v with
    | .table entries =>
      match entries.findSome? fun e => fields.entryError? e.1 e.2 with
      | some e => .error e
      | none => fields.decodeTable entries
    | .array items => fields.decodeItems name fields.size 0 items
    | v => mismatch v ("struct " ++ name)

def Fields.entryError? : (fields : Fields) → (key : String) → Value → Option TypeError
  | .nil, _, _ => none
  | .required name shape rest, key, v | .optional name shape rest, key, v =>
    if name = key then ((shape.decode v).within key).error? else rest.entryError? key v

def Fields.decodeTable : (fields : Fields) → Table → Decoded fields.Carrier
  | .nil, _ => .ok ()
  | .required name shape rest, t =>
    match Entries.lookup name t with
    | some v => do return (← (shape.decode v).within name, ← rest.decodeTable t)
    | none => .fail (.missing name)
  | .optional name shape rest, t =>
    match Entries.lookup name t with
    | some v => do return (some (← (shape.decode v).within name), ← rest.decodeTable t)
    | none => do return (none, ← rest.decodeTable t)

def Fields.decodeItems (record : String) (size : Nat) : (fields : Fields) → (index : Nat) → List Value →
    Decoded fields.Carrier
  | .nil, _, [] => .ok ()
  | .nil, index, extra => .fail (.tooMany (index + extra.length))
  | .required _ shape rest, index, v :: vs => do
    return (← shape.decode v, ← rest.decodeItems record size (index + 1) vs)
  | .optional _ shape rest, index, v :: vs => do
    return (some (← shape.decode v), ← rest.decodeItems record size (index + 1) vs)
  | .required _ _ _, index, [] | .optional _ _ _, index, [] => .fail (.tooFew index record size)

end

mutual

/-- The paths of the keys that no field has, in the order of the entries. -/
def Shape.undeclared : Shape → Value → List (List String)
  | .record _ fields, .table entries => entries.flatMap fun e => fields.undeclaredEntry e.1 e.2
  | .record _ fields, .array items => fields.undeclaredItems 0 items
  | .record _ _, .scalar _ | .boolean, _ | .integer _, _ | .string, _ | .strings, _
  | .stringSet, _ | .stringMap, _ | .choice _, _ => []

def Fields.undeclaredEntry : Fields → (key : String) → Value → List (List String)
  | .nil, key, _ => [[key]]
  | .required name shape rest, key, v | .optional name shape rest, key, v =>
    if name = key then (shape.undeclared v).map (key :: ·) else rest.undeclaredEntry key v

def Fields.undeclaredItems : Fields → (index : Nat) → List Value → List (List String)
  | .required _ shape rest, index, v :: vs | .optional _ shape rest, index, v :: vs =>
    (shape.undeclared v).map (toString index :: ·) ++ rest.undeclaredItems (index + 1) vs
  | .required _ _ _, _, [] | .optional _ _ _, _, [] | .nil, _, _ => []

end

end DottedPatch.Config
