import DottedPatch.CommandLine.Spec

/-! Matching the words of a command line with what a command accepts.

A value that stands in a word of its own is checked when the next option is met, or at the end. -/

namespace DottedPatch.CommandLine

abbrev Matches := List (String × List String)

namespace Matches

def values? (name : String) (ms : Matches) : Option (List String) :=
  (ms.find? (·.1 = name)).map Prod.snd

def has (name : String) (ms : Matches) : Bool := (ms.values? name).isSome

def first? (name : String) (ms : Matches) : Option String := (ms.values? name).bind List.head?

def add (name : String) (values : List String) (ms : Matches) : Matches :=
  if ms.has name then ms.map fun m => if m.1 = name then (m.1, m.2 ++ values) else m
  else ms ++ [(name, values)]

def overlaid (earlier later : Matches) : Matches :=
  later ++ earlier.filter fun m => !later.has m.1

end Matches

/-- An option or operand whose value is not checked yet. -/
structure Waiting where
  name : String
  isValid : String → Bool
  repeatable : Bool
  value : Option String

structure State where
  found : Matches := []
  waiting : Option Waiting := none
  operands : List Operand
  onlyOperands : Bool := false

abbrev Parsed (α : Type) := Except UsageError α

namespace State

def record (name : String) (repeatable : Bool) (isValid : String → Bool) (value : String) (s : State) :
    Parsed State :=
  if s.found.has name && !repeatable then .error .argumentConflict
  else if isValid value then .ok { s with found := s.found.add name [value] }
  else .error .invalidValue

def settle (s : State) : Parsed State :=
  match s.waiting with
  | none => .ok s
  | some w =>
    match w.value with
    | some value => { s with waiting := none }.record w.name w.repeatable w.isValid value
    | none => .error .invalidValue

def wantsValue (s : State) : Bool :=
  match s.waiting with
  | some w => w.value.isNone
  | none => false

def give (value : String) (s : State) : State :=
  { s with waiting := s.waiting.map fun w => { w with value := some value } }

def flag (o : OptionSpec) (s : State) : Parsed State := do
  let s ← s.settle
  match o.effect with
  | .help => throw .displayHelp
  | .version => throw .displayVersion
  | .flag | .value _ =>
    if s.found.has o.name then throw .argumentConflict
    return { s with found := s.found.add o.name [] }

def await (o : OptionSpec) (isValid : String → Bool) (s : State) : Parsed State := do
  let s ← s.settle
  return { s with waiting := some ⟨o.name, isValid, o.repeatable, none⟩ }

def attached (o : OptionSpec) (isValid : String → Bool) (value : String) (s : State) : Parsed State := do
  let s ← s.settle
  s.record o.name o.repeatable isValid value

def long (c : CommandSpec) (word : String) (s : State) : Parsed State :=
  let (name, value?) :=
    match Text.splitFirst? '=' word with
    | some (name, value) => (name, some value)
    | none => (word, none)
  match c.long? name with
  | none => .error .unknownArgument
  | some o =>
    match o.effect, value? with
    | .value isValid, some value => s.attached o isValid value
    | .value isValid, none => s.await o isValid
    | _, some _ => .error .tooManyValues
    | _, none => s.flag o

def shorts (c : CommandSpec) : List Char → State → Parsed State
  | [], s => .ok s
  | letter :: rest, s =>
    match c.short? letter with
    | none => .error .unknownArgument
    | some o =>
      match o.effect with
      | .value isValid =>
        if rest = [] then s.await o isValid
        else s.attached o isValid (.ofList (if rest.head? = some '=' then rest.tail else rest))
      | .flag | .help | .version => do shorts c rest (← s.flag o)

def operand (unexpected : UsageError) (word : String) (s : State) : Parsed State :=
  match s.operands with
  | [] => .error unexpected
  | o :: rest => do
    let s ← s.settle
    return { s with waiting := some ⟨o.name, o.isValid, false, some word⟩, operands := rest }

def word (c : CommandSpec) (unexpected : UsageError) (text : String) (s : State) : Parsed State :=
  if s.onlyOperands then s.operand unexpected text
  else
    match text.toList with
    | ['-', '-'] => .ok { s with onlyOperands := true }
    | '-' :: '-' :: name => s.long c (.ofList name)
    | '-' :: letter :: letters => s.shorts c (letter :: letters)
    | _ => if s.wantsValue then .ok (s.give text) else s.operand unexpected text

end State

namespace CommandSpec

def parse (c : CommandSpec) (words : List String) : Parsed Matches := do
  let start : State := { operands := c.operands }
  let read ← words.foldlM (fun (s : State) text => s.word c .unknownArgument text) start
  let s ← read.settle
  let missing := c.operands.any fun o => !s.found.has o.name
  let alone := c.requires.any fun (option, other) => s.found.has option && !s.found.has other
  if missing || alone then throw .missingRequiredArgument
  return s.found

end CommandSpec

namespace ToolSpec

def help (t : ToolSpec) : (topics : List String) → UsageError
  | [] => .displayHelp
  | [topic] => if t.isSubcommand topic then .displayHelp else .invalidSubcommand
  | _ => .invalidSubcommand

def parseRoot (t : ToolSpec) : State → (words : List String) → Parsed (State × Option (String × List String))
  | s, [] => .ok (s, none)
  | s, text :: words =>
    if !s.onlyOperands && !s.wantsValue && t.isSubcommand text then .ok (s, some (text, words))
    else
      let unexpected :=
        if s.onlyOperands && t.isSubcommand text then UsageError.unknownArgument
        else .invalidSubcommand
      match s.word t.root unexpected text with
      | .error e => .error e
      | .ok s => parseRoot t s words

def parse (t : ToolSpec) (words : List String) : Parsed (String × Matches) := do
  let (s, subcommand) ← t.parseRoot { operands := [] } words
  match subcommand with
  | none =>
    let s ← s.settle
    throw (if s.found.isEmpty then .displayHelpOnMissing else .missingSubcommand)
  | some (name, words) =>
    match t.subcommand? name with
    | none => throw (t.help words)
    | some c =>
      let found ← c.parse words
      let s ← s.settle
      return (name, s.found.overlaid found)

end ToolSpec

end DottedPatch.CommandLine
