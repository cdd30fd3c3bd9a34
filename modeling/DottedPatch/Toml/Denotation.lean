import DottedPatch.Toml.DatetimeText
import DottedPatch.Toml.Item

/-! What a document denotes: its data, in which a table that starts with the datetime key is the
datetime spelt there. -/

namespace DottedPatch.Toml

namespace Item

/-- The item under the datetime key, if the table starts with it. -/
def spelling? : Members → Option Item
  | (key, item) :: _ => if key.name = datetimeKey then some item else none
  | [] => none

def datetime? : Item → Option Datetime
  | .scalar (.string s) _ _ => Datetime.ofText? s
  | _ => none

mutual

/-- The other entries of a table that denotes a datetime are passed over. -/
def denoted? : Item → Option Value
  | .vacant => none
  | .scalar v _ _ => some (.scalar v)
  | .array items _ _ _ => (denotedItems? items).map .array
  | .inline _ _ entries _ | .table _ entries =>
    match spelling? entries with
    | some item => (datetime? item).map .datetime
    | none => (denotedEntries? entries).map .table
  | .tables elements => (denotedElements? elements).map .array

def denotedItems? : List Item → Option (List Value)
  | [] => some []
  | item :: items => do return (← denoted? item) :: (← denotedItems? items)

def denotedEntries? : List (Key × Item) → Option (List (String × Value))
  | [] => some []
  | (_, .vacant) :: entries => denotedEntries? entries
  | (key, item) :: entries => do
    return Entries.insert key.name (← denoted? item) (← denotedEntries? entries)

def denotedElements? : List (Head × List (Key × Item)) → Option (List Value)
  | [] => some []
  | (_, entries) :: elements => do
    let v ←
      match spelling? entries with
      | some item => (datetime? item).map .datetime
      | none => (denotedEntries? entries).map .table
    return v :: (← denotedElements? elements)

end

end Item

def Document.denoted? (d : Document) : Option Table := Item.denotedEntries? d.members

end DottedPatch.Toml
