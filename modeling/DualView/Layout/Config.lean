import DualView.Layout.Basic
import DualView.Table

/-!
# Layout configuration

Choices that go with one compilation of a schema: layouts by type name, and the symbols under which
types and fields are written out.  A configuration may mention types that are not declared.
-/

namespace DualView

/-- Layouts and symbols chosen for one compilation. -/
structure Config where
  /-- The layout of a slot that may lack a value, by the type of the value. -/
  maybeLayouts : Table Layout
  typeSymbols : Table String
  /-- Symbols of fields, by type and then by field. -/
  fieldSymbols : Table (Table String)
  deriving DecidableEq

namespace Config

def empty : Config := ⟨.empty, .empty, .empty⟩

def setMaybeLayout (c : Config) (type : String) (layout : Layout) : Config :=
  { c with maybeLayouts := c.maybeLayouts.set type layout }

def setTypeSymbol (c : Config) (type symbol : String) : Config :=
  { c with typeSymbols := c.typeSymbols.set type symbol }

def setFieldSymbol (c : Config) (type field symbol : String) : Config :=
  let fields := (c.fieldSymbols.get? type).getD .empty
  { c with fieldSymbols := c.fieldSymbols.set type (fields.set field symbol) }

def maybeLayout? (c : Config) (type : String) : Option Layout := c.maybeLayouts.get? type

def typeSymbol? (c : Config) (type : String) : Option String := c.typeSymbols.get? type

def fieldSymbol? (c : Config) (type field : String) : Option String :=
  (c.fieldSymbols.get? type).bind (·.get? field)

/-- The types that the tables mention, once for each table, in the order of their names. -/
def mentioned (c : Config) : List String :=
  (c.maybeLayouts.keys ++ c.typeSymbols.keys ++ c.fieldSymbols.keys).mergeSort
    fun a b => decide (a ≤ b)

end Config

end DualView
