import DottedPatch.Text.Invisible

/-! The written forms of strings and keys.

A string takes the first of these forms that holds it without an escape: basic, literal,
multi-line basic, multi-line literal. If none does, it is escaped. -/

namespace DottedPatch.Toml.Quoting

def isControl (c : Char) : Bool :=
  (c.toNat < 0x20 && c ≠ '\t' && c ≠ '\n') || c == '\x7f'

def longestRun (c : Char) : (run : Nat) → List Char → Nat
  | _, [] => 0
  | run, d :: cs => if d = c then max (run + 1) (longestRun c (run + 1) cs) else longestRun c 0 cs

def upperHex (places n : Nat) : List Char :=
  let cs := (Text.hexDigits n).map Char.toUpper
  List.replicate (places - cs.length) '0' ++ cs

def escapeChar (multiline : Bool) (c : Char) : List Char :=
  match c with
  | '\x08' => ['\\', 'b']
  | '\t' => ['\\', 't']
  | '\n' => if multiline then ['\n'] else ['\\', 'n']
  | '\x0c' => ['\\', 'f']
  | '\r' => ['\\', 'r']
  | '"' => if multiline then ['"'] else ['\\', '"']
  | '\\' => ['\\', '\\']
  | _ => if c.toNat < 0x20 ∨ c = '\x7f' then '\\' :: 'u' :: upperHex 4 c.toNat else [c]

/-- The third of three quotes in a row is escaped in a multi-line string. -/
def escapeQuotes (multiline : Bool) : (quotes : Nat) → List Char → List Char
  | _, [] => []
  | quotes, c :: cs =>
    if c = '"' ∧ multiline then
      if quotes = 2 then '\\' :: '"' :: escapeQuotes multiline 0 cs
      else '"' :: escapeQuotes multiline (quotes + 1) cs
    else escapeChar multiline c ++ escapeQuotes multiline 0 cs

def fenced (fence : Char) (body : List Char) : List Char := fence :: body ++ [fence]

def fencedLines (fence : Char) (body : List Char) : List Char :=
  let opening := if body.contains '\n' then ['\n'] else []
  List.replicate 3 fence ++ opening ++ body ++ List.replicate 3 fence

def basic (cs : List Char) : List Char := fenced '"' (escapeQuotes false 0 cs)

def string (s : String) : String :=
  let cs := s.toList
  let control := cs.any isControl
  let newline := cs.contains '\n'
  let backslash := cs.contains '\\'
  .ofList <|
    if !control && !newline && !backslash && !cs.contains '"' then basic cs
    else if !control && !newline && !cs.contains '\'' then fenced '\'' cs
    else if !control && !backslash && longestRun '"' 0 cs ≤ 2 then
      fencedLines '"' (escapeQuotes true 0 cs)
    else if !control && longestRun '\'' 0 cs ≤ 2 then fencedLines '\'' cs
    else if newline then fencedLines '"' (escapeQuotes true 0 cs)
    else basic cs

def isBare (c : Char) : Bool := c.isAlphanum || c == '_' || c == '-'

def key (s : String) : String :=
  let cs := s.toList
  let control := cs.any isControl || cs.contains '\n'
  .ofList <|
    if cs ≠ [] ∧ cs.all isBare then cs
    else if !control && !cs.contains '\\' && !cs.contains '"' then basic cs
    else if !control && !cs.contains '\'' then fenced '\'' cs
    else basic cs

end DottedPatch.Toml.Quoting
