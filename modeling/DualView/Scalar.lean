import DualView.Kind

/-!
# Scalar content

Leaf content of values and of data trees.  Numbers with a fraction are IEEE 754 binary64, held as
their 64 bits, so that a tree can be compared bit by bit; `Binary64.same` compares the numbers.
-/

namespace DualView

/-! ## Binary64 numbers -/

/-- A binary64 number, given by its bits: sign, eleven exponent bits, fifty-two fraction bits. -/
structure Binary64 where
  bits : UInt64
  deriving DecidableEq

namespace Binary64

/-- The bits without the sign. -/
def magnitude (x : Binary64) : UInt64 := x.bits &&& 0x7fffffffffffffff

/-- All exponent bits set and some fraction bit set. -/
def isNaN (x : Binary64) : Bool := decide (0x7ff0000000000000 < x.magnitude)

/-- Zero of either sign. -/
def isZero (x : Binary64) : Bool := x.magnitude == 0

/-- Equality of numbers: a NaN equals nothing, and the two zeros are equal. -/
def same (x y : Binary64) : Bool :=
  !x.isNaN && !y.isNaN && (x.bits == y.bits || x.isZero && y.isZero)

theorem same_self {x : Binary64} (h : x.isNaN = false) : x.same x = true := by
  simp [same, h]

end Binary64

/-! ## Leaves -/

/-- A link to content elsewhere, held as text. -/
structure Link where
  target : String
  deriving DecidableEq

/-- Content of a leaf. -/
inductive Scalar
  | bool (value : Bool)
  | int (value : Int64)
  | float (value : Binary64)
  | string (value : String)
  | bytes (value : List UInt8)
  | link (value : Link)
  deriving DecidableEq

namespace Scalar

def kind : Scalar → ScalarKind
  | bool _ => .bool
  | int _ => .int
  | float _ => .float
  | string _ => .string
  | bytes _ => .bytes
  | link _ => .link

/-- Equality of content; floats compare as numbers. -/
def same : Scalar → Scalar → Bool
  | float x, float y => x.same y
  | a, b => decide (a = b)

/-- A float that is no number. -/
def isNaN : Scalar → Bool
  | float x => x.isNaN
  | _ => false

theorem same_self {a : Scalar} (h : a.isNaN = false) : a.same a = true := by
  cases a <;> simp_all [same, isNaN, Binary64.same_self]

end Scalar

end DualView
