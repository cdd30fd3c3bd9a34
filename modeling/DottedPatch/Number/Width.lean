namespace DottedPatch

inductive Width
  | w32
  | w64
  deriving DecidableEq, Repr

namespace Width

def bits : Width → Nat
  | .w32 => 32
  | .w64 => 64

def least : Width → Int
  | .w32 => -2147483648
  | .w64 => -9223372036854775808

def greatest : Width → Int
  | .w32 => 2147483647
  | .w64 => 9223372036854775807

def name : Width → String
  | .w32 => "i32"
  | .w64 => "i64"

def Holds (w : Width) (n : Int) : Prop := w.least ≤ n ∧ n ≤ w.greatest

instance (w : Width) (n : Int) : Decidable (w.Holds n) :=
  inferInstanceAs (Decidable (_ ∧ _))

end Width

structure Bounded (w : Width) where
  val : Int
  holds : w.Holds val := by decide
  deriving DecidableEq

def Bounded.ofInt? (w : Width) (n : Int) : Option (Bounded w) :=
  if h : w.Holds n then some ⟨n, h⟩ else none

def Bounded.saturate (w : Width) (n : Int) : Bounded w where
  val := max w.least (min n w.greatest)
  holds :=
    have ends : w.least ≤ w.greatest := by cases w <;> decide
    ⟨Int.le_max_left _ _, Int.max_le.2 ⟨ends, Int.min_le_right _ _⟩⟩

@[simp] theorem Bounded.ofInt?_val {w : Width} (n : Bounded w) : Bounded.ofInt? w n.val = some n := by
  simp [Bounded.ofInt?, n.holds]

end DottedPatch
