/-!
# Views

A value is read and built in one of two views: as its type declares it, or as it is represented.
-/

namespace DualView

/-- How a value is seen. -/
inductive View
  /-- Declared names and member names. -/
  | typed
  /-- The shape that representations have. -/
  | representation
  deriving DecidableEq

def View.name : View → String
  | .typed => "typed"
  | .representation => "representation"

end DualView
