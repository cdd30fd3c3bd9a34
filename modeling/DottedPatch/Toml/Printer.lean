import DottedPatch.Number.Shortest
import DottedPatch.Toml.Item
import DottedPatch.Toml.Quoting

namespace DottedPatch.Toml

def floatText : Double → String
  | .nan => "nan"
  | .infinite negative => if negative then "-inf" else "inf"
  | .finite negative significand exponent => Double.finiteText negative significand exponent

def Scalar.text : Scalar → String
  | .string s => Quoting.string s
  | .integer n => toString n
  | .float x => floatText x
  | .boolean b => if b then "true" else "false"
  | .datetime d => d.text

structure Margin where
  before : String
  after : String

namespace Margin

def none : Margin := ⟨"", ""⟩

def value : Margin := ⟨" ", ""⟩

def lastMember : Margin := ⟨" ", " "⟩

def key : Margin := ⟨"", " "⟩

def memberKey : Margin := ⟨" ", " "⟩

def header : Margin := ⟨"\n", ""⟩

end Margin

def Decor.around (d : Decor) (m : Margin) (body : String) : String :=
  d.before.getD m.before ++ body ++ d.after.getD m.after

namespace Key

def text (k : Key) : String := k.written.getD (Quoting.key k.name)

def dottedText : List Key → String
  | [] => ""
  | [k] => k.text
  | k :: next :: rest =>
    k.text ++ k.dotted.after.getD "" ++ "." ++ next.dotted.before.getD "" ++ dottedText (next :: rest)

def pathText (m : Margin) (path : List Key) : String :=
  match path.getLast? with
  | some last => last.leaf.around m (dottedText path)
  | none => ""

end Key

namespace Item

/-- A value that is yet to learn what surrounds it. -/
abbrev Pending := Margin → String

def scalarText (value : Scalar) (written : Option String) (decor : Decor) : Pending :=
  fun m => decor.around m (written.getD value.text)

def arrayText (items closing : String) (comma : Bool) (decor : Decor) : Pending :=
  fun m => decor.around m ("[" ++ items ++ (if comma then "," else "") ++ closing ++ "]")

def assignmentText (keyMargin valueMargin : Margin) (assignment : List Key × Pending) : String :=
  Key.pathText keyMargin assignment.1 ++ "=" ++ assignment.2 valueMargin

def inlineText (opening : String) (assignments : List (List Key × Pending)) (decor : Decor) : Pending :=
  let members := assignments.dropLast.map (assignmentText .memberKey .value) ++
    assignments.getLast?.toList.map (assignmentText .memberKey .lastMember)
  fun m => decor.around m ("\x7b" ++ opening ++ ",".intercalate members ++ "\x7d")

mutual

def text : Item → Pending
  | .scalar value written decor => scalarText value written decor
  | .array items closing comma decor => arrayText (itemsText true items) closing comma decor
  | .inline opening _ entries decor => inlineText opening (assignments [] entries) decor
  | .vacant | .table _ _ | .tables _ => fun _ => ""

def itemsText : (first : Bool) → List Item → String
  | _, [] => ""
  | true, item :: items => text item .none ++ itemsText false items
  | false, item :: items => "," ++ text item .value ++ itemsText false items

def assignments : (path : List Key) → List (Key × Item) → List (List Key × Pending)
  | _, [] => []
  | path, (key, item) :: entries => assigned (path ++ [key]) item ++ assignments path entries

def assigned : (path : List Key) → Item → List (List Key × Pending)
  | path, .scalar value written decor => [(path, scalarText value written decor)]
  | path, .array items closing comma decor =>
    [(path, arrayText (itemsText true items) closing comma decor)]
  | path, .inline opening dotted entries decor =>
    if dotted then assignments path entries
    else [(path, inlineText opening (assignments [] entries) decor)]
  | path, .table head entries => if head.dotted then assignments path entries else []
  | _, .vacant | _, .tables _ => []

end

structure Section where
  path : List Key
  element : Bool
  head : Head
  members : Members

def Section.listed (s : Section) : List Section := if s.head.dotted then [] else [s]

mutual

def sections : (path : List Key) → List (Key × Item) → List Section
  | _, [] => []
  | path, (key, item) :: entries => itemSections (path ++ [key]) item ++ sections path entries

def itemSections : (path : List Key) → Item → List Section
  | path, .table head entries => Section.listed ⟨path, false, head, entries⟩ ++ sections path entries
  | path, .tables elements => elementSections path elements
  | _, .vacant | _, .scalar _ _ _ | _, .array _ _ _ _ | _, .inline _ _ _ _ => []

def elementSections : (path : List Key) → List (Head × List (Key × Item)) → List Section
  | _, [] => []
  | path, (head, entries) :: elements =>
    Section.listed ⟨path, true, head, entries⟩ ++ sections path entries ++
      elementSections path elements

end

namespace Section

/-- A table without a position of its own stands at the one of the table before. -/
def numbered : (last : Nat) → List Section → List (Nat × Section)
  | _, [] => []
  | last, s :: rest =>
    let position := s.head.position.getD last
    (position, s) :: numbered position rest

def headed (s : Section) (values : List (List Key × Pending)) : Bool :=
  s.path ≠ [] && (s.element || !(s.head.implicit && values.isEmpty))

def headerText (s : Section) (first : Bool) : String :=
  let path := Key.pathText .none s.path
  let brackets := if s.element then "[[" ++ path ++ "]]" else "[" ++ path ++ "]"
  s.head.decor.around (if first then .none else .header) brackets ++ "\n"

def texts : (first : Bool) → List Section → String
  | _, [] => ""
  | first, s :: rest =>
    let values := assignments [] s.members
    let header := if s.headed values then s.headerText first else ""
    let body := String.join (values.map fun v => assignmentText .key .value v ++ "\n")
    let blank := !s.headed values && (s.path ≠ [] || values.isEmpty)
    header ++ body ++ texts (first && blank) rest

end Section

end Item

def Document.text (d : Document) : String :=
  let sections := ⟨[], false, {}, d.members⟩ :: Item.sections [] d.members
  let ordered := (Item.Section.numbered 0 sections).mergeSort fun a b => a.1 ≤ b.1
  Item.Section.texts true (ordered.map Prod.snd) ++ d.trailing

end DottedPatch.Toml
