import DottedPatch.Patch.Report
import DottedPatch.Patch.Values
import DottedPatch.Text.Pieces

namespace DottedPatch

open Patch

inductive Action
  | apply (patch : String) (base : Option String) (write printConfig : Bool)
  | list (base : Option String)
  | get (key : String) (base : Option String)
  | schema
  | template
  deriving DecidableEq, Repr

structure PassAnswer where
  report : Report
  rendered : String
  config : Option String
  written : Option String
  reverted : List String

inductive Answer
  | patched (answer : PassAnswer)
  | listing (entries : List (String × String))
  | reading (leaf : LeafReading)
  | leaves (rows : List LeafRow)
  | template (text : String)

namespace Answer

def onLines (lines : List String) : String := "\n".intercalate lines

def passText (a : PassAnswer) : String :=
  a.rendered ++
    (a.config.map fun config => "\n\n" ++ Text.trimEnd config).getD "" ++
    (a.written.map fun path => "\n\nWrote " ++ path).getD "" ++
    String.join (a.reverted.map fun leaf =>
      s!"\nwarning: {leaf} is unset but will reload as its default")

def listingText (entries : List (String × String)) : String :=
  onLines (entries.map fun (path, value) => s!"{path} = {value}")

def rowsText (rows : List LeafRow) : String := onLines (rows.map LeafRow.text)

def text : Answer → String
  | .patched answer => passText answer
  | .listing entries => listingText entries
  | .reading leaf => leaf.text
  | .leaves rows => rowsText rows
  | .template text => text

end Answer

end DottedPatch
