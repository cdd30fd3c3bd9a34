import DottedPatch.Number.Double
import DottedPatch.Toml.Datetime
import DottedPatch.Toml.Entries

namespace DottedPatch.Toml

inductive Scalar
  | string (text : String)
  | integer (value : Int)
  | float (value : Double)
  | boolean (value : Bool)
  | datetime (value : Datetime)
  deriving DecidableEq, Repr

inductive Value
  | scalar (value : Scalar)
  | array (items : List Value)
  | table (entries : List (String × Value))
  deriving Repr

abbrev Table := Entries Value

namespace Value

@[match_pattern] abbrev string (s : String) : Value := .scalar (.string s)

@[match_pattern] abbrev integer (n : Int) : Value := .scalar (.integer n)

@[match_pattern] abbrev float (x : Double) : Value := .scalar (.float x)

@[match_pattern] abbrev boolean (b : Bool) : Value := .scalar (.boolean b)

@[match_pattern] abbrev datetime (d : Datetime) : Value := .scalar (.datetime d)

def table? : Value → Option Table
  | .table es => some es
  | _ => none

def isTable (v : Value) : Bool := v.table?.isSome

mutual

def decideEq : (a b : Value) → Decidable (a = b)
  | .scalar s, .scalar t =>
    if h : s = t then isTrue (h ▸ rfl) else isFalse (by simpa using h)
  | .array xs, .array ys =>
    match decideEqItems xs ys with
    | isTrue h => isTrue (h ▸ rfl)
    | isFalse h => isFalse (by simpa using h)
  | .table xs, .table ys =>
    match decideEqEntries xs ys with
    | isTrue h => isTrue (h ▸ rfl)
    | isFalse h => isFalse (by simpa using h)
  | .scalar _, .array _ | .scalar _, .table _ | .array _, .scalar _
  | .array _, .table _ | .table _, .scalar _ | .table _, .array _ => isFalse (by simp)

def decideEqItems : (a b : List Value) → Decidable (a = b)
  | [], [] => isTrue rfl
  | [], _ :: _ | _ :: _, [] => isFalse (by simp)
  | x :: xs, y :: ys =>
    match decideEq x y, decideEqItems xs ys with
    | isTrue h, isTrue k => isTrue (h ▸ k ▸ rfl)
    | isFalse h, _ => isFalse (by simp [h])
    | _, isFalse h => isFalse (by simp [h])

def decideEqEntries : (a b : List (String × Value)) → Decidable (a = b)
  | [], [] => isTrue rfl
  | [], _ :: _ | _ :: _, [] => isFalse (by simp)
  | (k, x) :: xs, (l, y) :: ys =>
    match decEq k l, decideEq x y, decideEqEntries xs ys with
    | isTrue f, isTrue g, isTrue h => isTrue (by rw [f, g, h])
    | isFalse h, _, _ => isFalse (by simp [h])
    | _, isFalse h, _ => isFalse (by simp [h])
    | _, _, isFalse h => isFalse (by simp [h])

end

instance : DecidableEq Value := decideEq

end Value

end DottedPatch.Toml
