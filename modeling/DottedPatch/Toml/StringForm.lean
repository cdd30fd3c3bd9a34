import DottedPatch.Toml.Spacing

namespace DottedPatch.Toml.Scan

def isBasicChar (c : Char) : Bool := isCommentChar c && c != '"' && c != '\\'

def isLiteralChar (c : Char) : Bool := isCommentChar c && c != '\''

def escape? : Char → Option Char
  | 'b' => some '\x08'
  | 't' => some '\t'
  | 'n' => some '\n'
  | 'f' => some '\x0c'
  | 'r' => some '\r'
  | '"' => some '"'
  | '\\' => some '\\'
  | _ => none

def hexDigit? (c : Char) : Option Nat :=
  if '0' ≤ c ∧ c ≤ '9' then some (c.toNat - '0'.toNat)
  else if 'a' ≤ c ∧ c ≤ 'f' then some (c.toNat - 'a'.toNat + 10)
  else if 'A' ≤ c ∧ c ≤ 'F' then some (c.toNat - 'A'.toNat + 10)
  else none

def ofCodePoint? (n : Nat) : Option Char :=
  if n < 0xD800 ∨ (0xDFFF < n ∧ n < 0x110000) then some (.ofNat n) else none

/-- Where the reading of a basic string stands: between characters, after a backslash, within a
code point of so many more digits, or after a backslash that folds the line end. -/
inductive BasicState
  | plain
  | backslash
  | code (left value : Nat)
  | folding
  | folded

def escapeStep (c : Char) : BasicState → Option (Option Char × BasicState)
  | .backslash =>
    if c = 'u' then some (none, .code 4 0)
    else if c = 'U' then some (none, .code 8 0)
    else (escape? c).map fun d => (some d, .plain)
  | .code left value => do
    let value := 16 * value + (← hexDigit? c)
    if left ≤ 1 then return (some (← ofCodePoint? value), .plain)
    else return (none, .code (left - 1) value)
  | _ => none

def prependAll (cs : List Char) (result : List Char × List Char) : List Char × List Char :=
  (cs ++ result.1, result.2)

def basicBody : BasicState → Scan (List Char)
  | _, [] => none
  | .plain, c :: cs =>
    if c = '"' then some ([], cs)
    else if c = '\\' then basicBody .backslash cs
    else if isBasicChar c then (basicBody .plain cs).map (prepend c)
    else none
  | state, c :: cs =>
    match escapeStep c state with
    | some (d, next) => (basicBody next cs).map (prependAll d.toList)
    | none => none

/-- Two quotes may stand before the three that end the string. -/
def basicLines : BasicState → Scan (List Char)
  | .plain, '"' :: '"' :: '"' :: '"' :: '"' :: cs => some (['"', '"'], cs)
  | .plain, '"' :: '"' :: '"' :: '"' :: cs => some (['"'], cs)
  | .plain, '"' :: '"' :: '"' :: cs => some ([], cs)
  | .plain, '\r' :: '\n' :: cs => (basicLines .plain cs).map (prepend '\n')
  | .plain, c :: cs =>
    if c = '\\' then basicLines .backslash cs
    else if c = '"' ∨ c = '\n' ∨ isBasicChar c then (basicLines .plain cs).map (prepend c)
    else none
  | .backslash, '\r' :: '\n' :: cs => basicLines .folded cs
  | .backslash, c :: cs =>
    if c = '\n' then basicLines .folded cs
    else if isSpace c then basicLines .folding cs
    else
      match escapeStep c .backslash with
      | some (d, next) => (basicLines next cs).map (prependAll d.toList)
      | none => none
  | .folding, '\r' :: '\n' :: cs => basicLines .folded cs
  | .folding, c :: cs =>
    if c = '\n' then basicLines .folded cs
    else if isSpace c then basicLines .folding cs
    else none
  | .folded, '\r' :: '\n' :: cs => basicLines .folded cs
  | .folded, '"' :: '"' :: '"' :: '"' :: '"' :: cs => some (['"', '"'], cs)
  | .folded, '"' :: '"' :: '"' :: '"' :: cs => some (['"'], cs)
  | .folded, '"' :: '"' :: '"' :: cs => some ([], cs)
  | .folded, c :: cs =>
    if c = '\n' ∨ isSpace c then basicLines .folded cs
    else if c = '\\' then basicLines .backslash cs
    else if c = '"' ∨ isBasicChar c then (basicLines .plain cs).map (prepend c)
    else none
  | .code left value, c :: cs =>
    match escapeStep c (.code left value) with
    | some (d, next) => (basicLines next cs).map (prependAll d.toList)
    | none => none
  | _, [] => none

def literalBody : Scan (List Char)
  | [] => none
  | c :: cs =>
    if c = '\'' then some ([], cs)
    else if isLiteralChar c then (literalBody cs).map (prepend c)
    else none

def literalLines : Scan (List Char)
  | '\'' :: '\'' :: '\'' :: '\'' :: '\'' :: cs => some (['\'', '\''], cs)
  | '\'' :: '\'' :: '\'' :: '\'' :: cs => some (['\''], cs)
  | '\'' :: '\'' :: '\'' :: cs => some ([], cs)
  | '\r' :: '\n' :: cs => (literalLines cs).map (prepend '\n')
  | c :: cs =>
    if c = '\'' ∨ c = '\n' ∨ isLiteralChar c then (literalLines cs).map (prepend c)
    else none
  | [] => none

def dropNewline (cs : List Char) : List Char :=
  match newline cs with
  | some (_, rest) => rest
  | none => cs

def string : Scan String
  | '"' :: '"' :: '"' :: cs => (basicLines .plain (dropNewline cs)).map fun (s, r) => (.ofList s, r)
  | '"' :: cs => (basicBody .plain cs).map fun (s, r) => (.ofList s, r)
  | '\'' :: '\'' :: '\'' :: cs => (literalLines (dropNewline cs)).map fun (s, r) => (.ofList s, r)
  | '\'' :: cs => (literalBody cs).map fun (s, r) => (.ofList s, r)
  | _ => none

def quotedKey : Scan String
  | '"' :: cs => (basicBody .plain cs).map fun (s, r) => (.ofList s, r)
  | '\'' :: cs => (literalBody cs).map fun (s, r) => (.ofList s, r)
  | _ => none

end DottedPatch.Toml.Scan
