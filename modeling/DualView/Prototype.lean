import DualView.Assembly.Filling
import DualView.Value.Typed

/-!
# Prototypes

A prototype is a type of a model with the view to build it in.  A name alone asks for the typed
view; the suffix `.Repr` asks for the representation view of the type named before it.
-/

namespace DualView

/-- A type and the view to build it in. -/
structure Prototype where
  model : Model
  type : TypeId
  view : View

namespace Prototype

/-- The suffix of a name that asks for the representation view. -/
def reprSuffix : String := ".Repr"

/-- A name without the suffix, if it has it. -/
def stripSuffix? (name : String) : Option String :=
  let cs := name.toList
  let suffix := reprSuffix.toList
  if suffix.isSuffixOf cs then some (String.ofList (cs.take (cs.length - suffix.length)))
  else none

/-- The prototype of a name. -/
def byName (m : Model) (name : String) : Except NodeError Prototype :=
  match stripSuffix? name with
  | some base => (⟨m, ·, .representation⟩) <$> (m.schema.idOf base).mapError .schema
  | none => (⟨m, ·, .typed⟩) <$> (m.schema.idOf name).mapError .schema

def typeName (p : Prototype) : String := p.model.schema.nameOf p.type

def inView (p : Prototype) (view : View) : Prototype := { p with view := view }

/-- The opening for the whole value. -/
def root (p : Prototype) : Opening := ⟨.value p.type, p.view, false⟩

/-- The value that a piece is. -/
def finish (p : Prototype) : Piece → Except NodeError TypedValue
  | .content (some v) => .ok ⟨p.model, p.type, v⟩
  | _ => .error (.assembly .notFinished)

/-- Build a value from any node. -/
def buildFrom (p : Prototype) (n : Node) : Except NodeError TypedValue := do
  p.finish (← p.root.copy p.model n.tree)

/-- Build a value from a data tree whose keys are given as text. -/
def buildEntries (p : Prototype) (d : Datum) : Except NodeError TypedValue := do
  p.finish (← p.root.fill p.model d)

/-- Decode a representation. -/
def fromRepresentation (p : Prototype) (n : Node) : Except NodeError TypedValue :=
  (p.inView .representation).buildFrom n

end Prototype

/-- The prototype that builds the values of a type in a view. -/
def TypedValue.prototype (v : TypedValue) (view : View) : Prototype := ⟨v.model, v.type, view⟩

end DualView
