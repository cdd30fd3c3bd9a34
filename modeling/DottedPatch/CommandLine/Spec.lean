import DottedPatch.Text.Pieces

namespace DottedPatch.CommandLine

inductive UsageError
  | displayHelp
  | displayHelpOnMissing
  | displayVersion
  | missingSubcommand
  | invalidSubcommand
  | unknownArgument
  | invalidValue
  | argumentConflict
  | tooManyValues
  | missingRequiredArgument
  deriving DecidableEq, Repr

/-- What an option brings: nothing, a value of a certain form, or one of the texts for the user. -/
inductive Effect
  | flag
  | value (isValid : String → Bool)
  | help
  | version

structure OptionSpec where
  name : String
  short : Option Char := none
  effect : Effect
  repeatable : Bool := false

structure Operand where
  name : String
  isValid : String → Bool := fun _ => true

structure CommandSpec where
  name : String
  options : List OptionSpec := []
  operands : List Operand := []
  /-- Options that are only allowed together with another one. -/
  requires : List (String × String) := []

/-- A tool is a command that hands over to one of its subcommands. What its shared options were
given before the subcommand holds unless it is given again after it. -/
structure ToolSpec where
  shared : List OptionSpec
  own : List OptionSpec
  subcommands : List CommandSpec

def helpOption : OptionSpec := { name := "help", short := some 'h', effect := .help }

def versionOption : OptionSpec := { name := "version", short := some 'V', effect := .version }

def helpName : String := "help"

namespace ToolSpec

def root (t : ToolSpec) : CommandSpec := { name := "", options := t.shared ++ t.own }

def subcommand? (name : String) (t : ToolSpec) : Option CommandSpec :=
  (t.subcommands.find? (·.name = name)).map fun c => { c with options := c.options ++ t.shared }

def isSubcommand (name : String) (t : ToolSpec) : Bool :=
  name = helpName || (t.subcommand? name).isSome

end ToolSpec

namespace CommandSpec

def long? (name : String) (c : CommandSpec) : Option OptionSpec :=
  c.options.find? (·.name = name)

def short? (letter : Char) (c : CommandSpec) : Option OptionSpec :=
  c.options.find? (·.short = some letter)

end CommandSpec

end DottedPatch.CommandLine
