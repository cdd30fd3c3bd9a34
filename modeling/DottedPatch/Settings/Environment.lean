import DottedPatch.Number.Numeral
import DottedPatch.Text.Lowercase
import DottedPatch.Toml.Path

namespace DottedPatch.Settings

open Toml

def levels : List Char → List (List Char)
  | [] => [[]]
  | '_' :: '_' :: cs => [] :: levels cs
  | c :: cs => (levels cs).modifyHead (c :: ·)

def variablePath? (mark name : String) : Option (List String) := do
  let rest ← Text.stripLead? (mark ++ "__") name
  let path := (levels rest.toList).map fun level => Text.lowercase (.ofList level)
  if path.contains "" then none else some path

def variableValue (text : String) : Value :=
  if Text.sameUpToCase text "true" then .boolean true
  else if Text.sameUpToCase text "false" then .boolean false
  else
    match Numeral.read .w64 text.toList with
    | .ok n => .integer n
    | .error _ => .string text

def addVariable (mark : String) (t : Table) (entry : String × String) : Table :=
  match variablePath? mark entry.1 with
  | some path => Table.insertPath (variableValue entry.2) path t
  | none => t

def environmentTable (mark : String) (environment : List (String × String)) : Table :=
  environment.foldl (addVariable mark) Table.empty

end DottedPatch.Settings
