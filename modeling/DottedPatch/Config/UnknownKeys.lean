import DottedPatch.Failure
import DottedPatch.Text.Pieces
import DottedPatch.Toml.Reader

namespace DottedPatch.Config

open Toml

/-- The path of a line that opens a table; an array of tables opens none. -/
def headerPath? (line : String) : Option (List String) :=
  match line.toList with
  | '[' :: '[' :: _ => none
  | '[' :: rest =>
    let inner := (rest.reverse.dropWhile (· == ']')).reverse
    some ((pathOf (.ofList inner)).map Text.trim)
  | _ => none

def assigns (key line : String) : Bool :=
  match Text.stripLead? key line with
  | some after => Text.startsWith "=" (Text.trimStart after)
  | none => false

def lineOf (table : List String) (key : String) :
    (opened : List String) → (number : Nat) → (lines : List String) → Nat
  | _, _, [] => 0
  | opened, number, line :: lines =>
    let line := Text.trim line
    match headerPath? line with
    | some path => lineOf table key path (number + 1) lines
    | none =>
      if opened = table && assigns key line then number
      else lineOf table key opened (number + 1) lines

/-- The line a dotted key is assigned on in a text, or zero. -/
def keyLine (text key : String) : Nat :=
  let (table, last) :=
    match Text.splitLast? '.' key with
    | some (table, last) => (pathOf table, last)
    | none => ([], key)
  lineOf table last [] 1 (Text.lines text)

variable {α : Type} [Configuration α]

def readStrictly (v : Value) (text file : String) (strict : Bool) : Except Failure α :=
  match Configuration.decode v with
  | .error e => .error (.mistyped file e)
  | .ok config =>
    let unknown := (Configuration.undeclared α v).map dotted
    if !strict || unknown.isEmpty then .ok config
    else .error (.unknownKeys (unknown.map fun key => ⟨key, file, keyLine text key⟩))

/-- A base file is a sparse text, laid over the initial configuration. -/
def readBase (text file : String) (strict : Bool) : Except Failure α := do
  let some sparse := Table.read? text | throw (.syntaxError file)
  let full ← toTable (Configuration.initial : α)
  readStrictly (.table (Table.merge full sparse)) text file strict

end DottedPatch.Config
