import DottedPatch.CommandLine.Invocation

namespace DottedPatch

namespace FileFault

def ofNumber? (code : UInt32) : Option FileFault :=
  match code.toInt32.toInt.natAbs with
  | 2 => some .notFound
  | 17 => some .exists
  | 20 => some .notDirectory
  | 21 => some .isDirectory
  | 36 => some .nameTooLong
  | _ => none

def number? : IO.Error → Option UInt32
  | .noFileOrDirectory _ code _ | .alreadyExists _ code _ | .inappropriateType _ code _
  | .invalidArgument _ code _ => some code
  | _ => none

def ofError (e : IO.Error) : FileFault :=
  ((number? e).bind ofNumber?).getD (.other (toString e))

end FileFault

namespace Host

def attempt {α : Type} (path : String) (act : IO α) : IO (Except FileFault α) := do
  if path.contains '\x00' then return .error .invalidPath
  match ← act.toBaseIO with
  | .ok a => return .ok a
  | .error e => return .error (.ofError e)

def decode (bytes : ByteArray) : Except FileFault String :=
  match String.fromUTF8? bytes with
  | some text => .ok text
  | none => .error .invalidText

instance : Disk IO where
  read path := return (← attempt path (IO.FS.readBinFile path)).bind decode
  write path text := attempt path (IO.FS.writeFile path text)
  makeDirectories path := attempt path (IO.FS.createDirAll path)

def environment : IO (List (String × String)) := do
  let bytes ← IO.FS.readBinFile "/proc/self/environ"
  return (Text.splitOn '\x00' ((String.fromUTF8? bytes).getD "")).filterMap (Text.splitFirst? '=')

def surroundings : IO Settings.Surroundings := do
  return { workingDirectory := some (← IO.currentDir).toString, environment := ← environment }

/-- Read off the mask of the processors that the process may run on. -/
def processorsOf? (line : String) : Option Nat :=
  (Text.stripLead? "Cpus_allowed:" line).map fun mask =>
    ((mask.toList.filterMap Toml.Scan.hexDigit?).flatMap (Nat.toDigits 2)).count '1'

def machine : IO Gateway.Machine := do
  match ← (IO.FS.readBinFile "/proc/self/status").toBaseIO with
  | .ok bytes =>
    return ⟨(Text.lines ((String.fromUTF8? bytes).getD "")).findSome? processorsOf?⟩
  | .error _ => return ⟨none⟩

def runTool [Gateway.Machine] (words : List String) : IO UInt32 := do
  let ending ← CommandLine.runTool words (← surroundings)
  for r in ending.log do IO.eprintln r.text
  IO.print ending.output
  IO.eprint ending.errors
  return ending.code.toUInt32

end Host

end DottedPatch

open DottedPatch in
def main (words : List String) : IO UInt32 := do
  @Host.runTool (← Host.machine) words
