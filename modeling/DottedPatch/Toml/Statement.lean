import DottedPatch.Text.Pieces
import DottedPatch.Toml.Item
import DottedPatch.Toml.NumberForm
import DottedPatch.Toml.Quoting
import DottedPatch.Toml.StringForm

namespace DottedPatch.Toml

/-- Arrays and inline tables nest, and dotted keys go, less deep than this. -/
def nestingLimit : Nat := 80

def layout (cs : List Char) : String := .ofList (cs.filter (· ≠ '\r'))

def taken (whole rest : List Char) : List Char := whole.take (whole.length - rest.length)

namespace Scan

def bareKey : Scan String := fun cs =>
  match cs.span Quoting.isBare with
  | ([], _) => none
  | (name, cs) => some (.ofList name, cs)

def simpleKey : Scan Key := fun cs => do
  let (before, cs) := spaces cs
  let (name, rest) ←
    match cs with
    | '"' :: _ | '\'' :: _ => quotedKey cs
    | _ => bareKey cs
  let (after, remaining) := spaces rest
  let key : Key :=
    { name
      written := some (.ofList (taken cs rest))
      dotted := ⟨some (layout before), some (layout after)⟩ }
  return (key, remaining)

def keys : (left : Nat) → Scan (List Key)
  | 0, _ => none
  | left + 1, cs => do
    let (key, cs) ← simpleKey cs
    match cs with
    | '.' :: cs =>
      let (path, cs) ← keys left cs
      return (key :: path, cs)
    | _ => return ([key], cs)

end Scan

namespace Key

def clearBefore (k : Key) : Key := { k with dotted := { k.dotted with before := some "" } }

def clearAfter (k : Key) : Key := { k with dotted := { k.dotted with after := some "" } }

def gatherDecor : (before : Option String) → List Key → List Key
  | _, [] => []
  | before, [last] =>
    [{ last with leaf := ⟨before, last.dotted.after⟩ }.clearAfter]
  | before, key :: path => key :: gatherDecor before path

def settle : List Key → List Key
  | [] => []
  | first :: path => gatherDecor first.dotted.before (first.clearBefore :: path)

end Key

namespace Scan

def keyPath : Scan (List Key) := fun cs =>
  (keys (nestingLimit - 1) cs).map fun (path, cs) => (Key.settle path, cs)

end Scan

namespace Members

def assignInline? (item : Item) : (entered dotted : Bool) → (path : List Key) → Members → Option Members
  | _, _, [], _ => none
  | entered, dotted, [key], members =>
    if entered && !dotted || (find? key.name members).isSome then none
    else some (members ++ [(key, item)])
  | _, _, key :: path, members =>
    match find? key.name members with
    | none =>
      (assignInline? item true true path []).map fun sub =>
        members ++ [(key, .inline "" true sub {})]
    | some (_, .inline opening true sub decor) =>
      (assignInline? item true true path sub).map fun sub =>
        put key (.inline opening true sub decor) members
    | some _ => none

def ofAssignments? (assignments : List (List Key × Item)) : Option Members :=
  assignments.foldlM (fun members (path, item) => assignInline? item false false path members) []

end Members

namespace Scan

def scalarItem (whole : List Char) (result : Option (Scalar × List Char)) : Option (Item × List Char) :=
  result.map fun (v, rest) => (.scalar v (some (.ofList (taken whole rest))) {}, rest)

def literal (word : List Char) (value : Scalar) : Scan Scalar := fun cs =>
  (Text.dropLead? word cs).map fun rest => (value, rest)

def scalar : Scan Scalar
  | '"' :: cs => (string ('"' :: cs)).map fun (s, rest) => (.string s, rest)
  | '\'' :: cs => (string ('\'' :: cs)).map fun (s, rest) => (.string s, rest)
  | 't' :: cs => literal ['t', 'r', 'u', 'e'] (.boolean true) ('t' :: cs)
  | 'f' :: cs => literal ['f', 'a', 'l', 's', 'e'] (.boolean false) ('f' :: cs)
  | cs => numeric cs

mutual

/-- The fuel bounds the recursion: two steps go with every character at least. -/
def value : (fuel depth : Nat) → Scan Item
  | 0, _, _ => none
  | fuel + 1, depth, '[' :: cs =>
    if depth + 1 < nestingLimit then do
      let ((items, closing, comma), cs) ← arrayItems fuel (depth + 1) false cs
      return (.array items closing comma {}, cs)
    else none
  | fuel + 1, depth, '\x7b' :: cs =>
    if depth + 1 < nestingLimit then
      match spaces cs with
      | (blank, '\x7d' :: cs) => some (.inline (layout blank) false [] {}, cs)
      | _ => do
        let (assignments, cs) ← inlineAssignments fuel (depth + 1) cs
        return (.inline "" false (← Members.ofAssignments? assignments) {}, cs)
    else none
  | _ + 1, _, cs => scalarItem cs (scalar cs)

def arrayItems : (fuel depth : Nat) → (comma : Bool) → Scan (List Item × String × Bool)
  | 0, _, _, _ => none
  | fuel + 1, depth, comma, cs => do
    let (before, cs) ← filler false cs
    match cs with
    | ']' :: cs => return (([], layout before, comma), cs)
    | _ =>
      let (item, cs) ← value fuel depth cs
      let (after, cs) ← filler false cs
      let item := item.withDecor ⟨some (layout before), some (layout after)⟩
      match cs with
      | ',' :: cs =>
        let ((items, closing, comma), cs) ← arrayItems fuel depth true cs
        return ((item :: items, closing, comma), cs)
      | ']' :: cs => return (([item], "", false), cs)
      | _ => none

def inlineAssignments : (fuel depth : Nat) → Scan (List (List Key × Item))
  | 0, _, _ => none
  | fuel + 1, depth, cs => do
    let (path, cs) ← keyPath cs
    let (_, cs) ← char '=' cs
    let (before, cs) := spaces cs
    let (item, cs) ← value fuel depth cs
    let (after, cs) := spaces cs
    let item := item.withDecor ⟨some (layout before), some (layout after)⟩
    match cs with
    | ',' :: cs =>
      let (rest, cs) ← inlineAssignments fuel depth cs
      return ((path, item) :: rest, cs)
    | '\x7d' :: cs => return ([(path, item)], cs)
    | _ => none

end

end Scan

inductive Statement
  | assign (path : List Key) (item : Item)
  | header (path : List Key) (element : Bool) (decor : Decor)

namespace Key

def precede (text : String) (k : Key) : Key :=
  { k with leaf := { k.leaf with before := some (text ++ k.leaf.before.getD "") } }

def precedeLast (text : String) : List Key → List Key
  | [] => []
  | [last] => [last.precede text]
  | key :: path => key :: precedeLast text path

end Key

namespace Scan

def header (before : String) : Scan Statement
  | '[' :: '[' :: cs => do
    let (path, cs) ← keyPath cs
    let (_, cs) ← char ']' cs
    let (_, cs) ← char ']' cs
    let (after, cs) ← lineRest cs
    return (.header path true ⟨some before, some (layout after)⟩, cs)
  | '[' :: cs => do
    let (path, cs) ← keyPath cs
    let (_, cs) ← char ']' cs
    let (after, cs) ← lineRest cs
    return (.header path false ⟨some before, some (layout after)⟩, cs)
  | _ => none

def assignment (before : String) : Scan Statement := fun cs => do
  let (path, cs) ← keyPath cs
  let (_, cs) ← char '=' cs
  let (blank, cs) := spaces cs
  let (item, cs) ← value (2 * cs.length + 2) 0 cs
  let (after, cs) ← lineRest cs
  return (.assign (Key.precedeLast before path) (item.withDecor ⟨some (layout blank), some (layout after)⟩), cs)

def statements : (fuel : Nat) → (before : List Char) → List Char → Option (List Statement × String)
  | 0, _, _ => none
  | fuel + 1, before, cs =>
    let (blank, cs) := spaces cs
    let before := before ++ blank
    match cs with
    | [] => some ([], layout before)
    | '#' :: _ => do
      let (remark, cs) := comment cs
      let (ending, cs) ← lineEnd cs
      statements fuel (before ++ remark ++ ending) cs
    | '\n' :: _ | '\r' :: _ => do
      let (ending, cs) ← newline cs
      statements fuel (before ++ ending) cs
    | '[' :: _ => do
      let (statement, cs) ← header (layout before) cs
      let (rest, trailing) ← statements fuel [] cs
      return (statement :: rest, trailing)
    | _ => do
      let (statement, cs) ← assignment (layout before) cs
      let (rest, trailing) ← statements fuel [] cs
      return (statement :: rest, trailing)

end Scan

end DottedPatch.Toml
