import DottedPatch.Config.Configuration
import DottedPatch.Schema.Section

namespace DottedPatch

open Config

inductive SchemaFault
  | noSection (path : String)
  | undeclared (path : String)
  | sectionMissing (path : String)
  | noField (path : String) (kind : Kind)
  | nullMisfit (path : String) (value : LeafValue) (kind : Kind)
  | notOptional (path : String)

def SchemaFault.text : SchemaFault → String
  | .noSection path => s!"{path}: expected a section"
  | .undeclared path => s!"{path}: not declared"
  | .sectionMissing path => s!"{path}: section missing"
  | .noField path kind => s!"{path}: not a {kind.name} field of the config type"
  | .nullMisfit path value kind => s!"{path}: null value {value.text} is not a {kind.name}"
  | .notOptional path => s!"{path}: null unsets it, but the field is not optional"

inductive FileFault
  | notFound
  | isDirectory
  | notDirectory
  | exists
  | nameTooLong
  | invalidPath
  | invalidText
  | other (text : String)
  deriving DecidableEq, Repr

def FileFault.text : FileFault → String
  | .notFound => "No such file or directory (os error 2)"
  | .isDirectory => "Is a directory (os error 21)"
  | .notDirectory => "Not a directory (os error 20)"
  | .exists => "File exists (os error 17)"
  | .nameTooLong => "File name too long (os error 36)"
  | .invalidPath => "file name contained an unexpected NUL byte"
  | .invalidText => "stream did not contain valid UTF-8"
  | .other text => text

structure UnknownKey where
  key : String
  file : String
  line : Nat
  deriving DecidableEq, Repr

def UnknownKey.text (k : UnknownKey) : String :=
  s!"Unknown key '{k.key}' in {k.file} (line {k.line})"

inductive Failure
  | file (path : String) (fault : FileFault)
  | syntaxError (path : String)
  | uneditable (path : String)
  | mistyped (path : String) (error : TypeError)
  | unknownKeys (keys : List UnknownKey)
  | unconvertible (error : TypeError)
  | noTable
  | schemaMismatch (fault : SchemaFault)
  | keyNotFound (key : String)
  | noBaseFile

namespace Failure

def text : Failure → String
  | .file path fault => s!"Failed to read {path}: {fault.text}"
  | .syntaxError path => s!"Failed to parse {path}: TOML parse error"
  | .uneditable path => s!"Failed to edit {path}: TOML parse error"
  | .mistyped path error => s!"Failed to parse {path}: {error.text}"
  | .unknownKeys _ => "Unknown keys in config file"
  | .unconvertible error => s!"Failed to convert config: {error.text}"
  | .noTable => "Failed to convert config: config did not serialize to a table"
  | .schemaMismatch fault => s!"Config does not match its schema: {fault.text}"
  | .keyNotFound key => s!"Key not found: {key}"
  | .noBaseFile => "--write needs a base file, pass --base"

end Failure

namespace Config

open Toml (Table Value)

variable {α : Type} [Configuration α]

def toTable (config : α) : Except Failure Table :=
  match Configuration.encode config with
  | .table t => .ok t
  | _ => .error .noTable

def ofTable (t : Table) : Except Failure α :=
  match Configuration.decode (.table t) with
  | .ok config => .ok config
  | .error e => .error (.unconvertible e)

end Config

end DottedPatch
