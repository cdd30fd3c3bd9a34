import DottedPatch.Config.Decode
import DottedPatch.Config.Encode
import DottedPatch.Toml.DatetimeText

namespace DottedPatch.Config

open Toml

class Shaped (α : Type) where
  shape : Shape
  toCarrier : α → shape.Carrier
  ofCarrier : shape.Carrier → α
  ofCarrier_toCarrier (a : α) : ofCarrier (toCarrier a) = a
  toCarrier_ofCarrier (c : shape.Carrier) : toCarrier (ofCarrier c) = c

class Configuration (α : Type) where
  encode : α → Value
  decode : Value → Decoded α
  undeclared : Value → List (List String)
  initial : α

instance {α : Type} [Shaped α] [Inhabited α] : Configuration α where
  encode a := (Shaped.shape α).encode (Shaped.toCarrier a)
  decode v := ((Shaped.shape α).decode v).map Shaped.ofCarrier
  undeclared v := (Shaped.shape α).undeclared v
  initial := default

def datetimeTable (d : Datetime) : Table := [(datetimeKey, .string d.text)]

mutual

def encodeValue : Value → Value
  | .scalar (.datetime d) => .table (datetimeTable d)
  | .scalar s => .scalar s
  | .array items => .array (encodeItems items)
  | .table entries => .table (encodeEntries entries)

def encodeItems : List Value → List Value
  | [] => []
  | v :: vs => encodeValue v :: encodeItems vs

def encodeEntries : List (String × Value) → List (String × Value)
  | [] => []
  | (k, v) :: es => (k, encodeValue v) :: encodeEntries es

end

def decodeDatetime : Value → Decoded Datetime
  | .string s =>
    match Datetime.ofText? s with
    | some d => .ok d
    | none => .fail .noDatetime
  | .datetime d => .ok d
  | v => mismatch v "string containing a datetime"

def spelt? : List (String × Value) → Option (Decoded Datetime)
  | [] => none
  | (k, v) :: es =>
    if k = datetimeKey then
      some do
        let d ← (decodeDatetime v).within k
        if es.isEmpty then return d else .fail (.besideDatetime (es.length + 1))
    else none

mutual

def decodeValue : Value → Decoded Value
  | .scalar (.datetime d) => .ok (.string d.text)
  | .scalar s => .ok (.scalar s)
  | .array items => (decodeItems items).map .array
  | .table entries =>
    match spelt? entries with
    | some datetime => datetime.map .datetime
    | none => (decodeEntries entries).map .table

def decodeItems : List Value → Decoded (List Value)
  | [] => .ok []
  | v :: vs => do return (← decodeValue v) :: (← decodeItems vs)

def decodeEntries : List (String × Value) → Decoded (List (String × Value))
  | [] => .ok []
  | (k, v) :: es => do return (k, ← (decodeValue v).within k) :: (← decodeEntries es)

end

instance : Configuration Table where
  encode t := .table (encodeEntries t)
  decode
    | .table t => decodeEntries t
    | v => mismatch v "a map"
  undeclared _ := []
  initial := []

instance : Configuration Value where
  encode := encodeValue
  decode := decodeValue
  undeclared _ := []
  initial := .table []

end DottedPatch.Config
