/-!
# Kinds

A *kind* is the shape a node has when it is read: null, one of six scalars, a list or a map.  A
*type kind* is the form of a declaration.  Structs, unions and enums are declared apart, but all
read as one of the kinds.
-/

namespace DualView

/-! ## Scalars -/

/-- The six kinds of leaf content. -/
inductive ScalarKind
  | bool
  | int
  | float
  | string
  | bytes
  | link
  deriving DecidableEq

namespace ScalarKind

/-- The scalar kinds in their canonical order. -/
def all : List ScalarKind := [bool, int, float, string, bytes, link]

def name : ScalarKind → String
  | bool => "bool"
  | int => "int"
  | float => "float"
  | string => "string"
  | bytes => "bytes"
  | link => "link"

end ScalarKind

/-! ## Kinds of nodes -/

/-- The shape of a node. -/
inductive Kind
  | null
  | scalar (kind : ScalarKind)
  | list
  | map
  deriving DecidableEq

namespace Kind

/-- All nine kinds: null, the scalars, list and map. -/
def all : List Kind := null :: ScalarKind.all.map scalar ++ [list, map]

/-- Lists and maps have children. -/
def isRecursive : Kind → Bool
  | list | map => true
  | null | scalar _ => false

/-- A leaf other than null. -/
def isScalar : Kind → Bool
  | scalar _ => true
  | null | list | map => false

def name : Kind → String
  | null => "null"
  | scalar k => k.name
  | list => "list"
  | map => "map"

end Kind

/-! ## Kinds of declarations -/

/-- The form of a type declaration. -/
inductive TypeKind
  | scalar (kind : ScalarKind)
  | list
  | map
  | struct
  | union
  | enum
  deriving DecidableEq

namespace TypeKind

/-- The kind of content of a scalar declaration. -/
def scalarKind? : TypeKind → Option ScalarKind
  | scalar k => some k
  | list | map | struct | union | enum => none

def isScalar (k : TypeKind) : Bool := k.scalarKind?.isSome

def name : TypeKind → String
  | scalar k => k.name
  | list => "list"
  | map => "map"
  | struct => "struct"
  | union => "union"
  | enum => "enum"

end TypeKind

end DualView
