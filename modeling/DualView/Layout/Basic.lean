/-!
# Layouts

A slot keeps its content in place or behind a pointer.  The choice concerns storage alone: reading,
copying and equality do not see it.
-/

namespace DualView

/-- Where a slot keeps its content. -/
inductive Layout
  /-- In place. -/
  | embedded
  /-- Behind a pointer. -/
  | indirect
  deriving DecidableEq

namespace Layout

def name : Layout → String
  | embedded => "embedded"
  | indirect => "indirect"

def ofName? : String → Option Layout
  | "embedded" => some embedded
  | "indirect" => some indirect
  | _ => none

def isIndirect (l : Layout) : Bool := decide (l = indirect)

end Layout

end DualView
