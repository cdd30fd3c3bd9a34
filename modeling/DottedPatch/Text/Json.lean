import DottedPatch.Text.Invisible

namespace DottedPatch.Text

def jsonChar (c : Char) : List Char :=
  match c with
  | '"' => ['\\', '"']
  | '\\' => ['\\', '\\']
  | '\x08' => ['\\', 'b']
  | '\x0c' => ['\\', 'f']
  | '\n' => ['\\', 'n']
  | '\r' => ['\\', 'r']
  | '\t' => ['\\', 't']
  | _ =>
    if c.toNat < 0x20 then
      let digits := hexDigits c.toNat
      '\\' :: 'u' :: (List.replicate (4 - digits.length) '0' ++ digits)
    else [c]

def jsonString (s : String) : String := .ofList ('"' :: s.toList.flatMap jsonChar ++ ['"'])

inductive JsonAtom
  | string (s : String)
  | number (n : Nat)

def JsonAtom.text : JsonAtom → String
  | .string s => jsonString s
  | .number n => toString n

def jsonMember (member : String × JsonAtom) : String :=
  "    " ++ jsonString member.1 ++ ": " ++ member.2.text

def jsonRecord (members : List (String × JsonAtom)) : String :=
  "  \x7b\n" ++ ",\n".intercalate (members.map jsonMember) ++ "\n  \x7d"

def jsonRecords (records : List (List (String × JsonAtom))) : String :=
  if records.isEmpty then "[]" else "[\n" ++ ",\n".intercalate (records.map jsonRecord) ++ "\n]"

end DottedPatch.Text
