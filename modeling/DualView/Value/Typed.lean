import DualView.Node.Tree

/-!
# Values with their types

A finished value, with the model it was built in and its type.
-/

namespace DualView

/-- A value of a type of a model. -/
structure TypedValue where
  model : Model
  type : TypeId
  value : Value

namespace TypedValue

def typeName (v : TypedValue) : String := v.model.schema.nameOf v.type

/-- The value seen through a view. -/
def nodeIn (v : TypedValue) (view : View) : Node := .typed ⟨v.model.schema, v.type, view, v.value⟩

/-- The typed view of the value. -/
def node (v : TypedValue) : Node := v.nodeIn .typed

/-- The representation view of the value. -/
def representation (v : TypedValue) : Node := v.nodeIn .representation

/-- The representation as a data tree. -/
def toRepresentation (v : TypedValue) : Except NodeError Datum :=
  v.representation.toDatum.mapError .access

/-- Equality of the names of the types and of the contents. -/
def same (v w : TypedValue) : Bool := v.typeName == w.typeName && v.value.same w.value

end TypedValue

end DualView
