import DualView.Layout.Config
import DualView.Layout.Containment

/-!
# Compiled models

A model is a schema with the layout of every slot that its values will have.  Slots that may lack
a value follow the configuration, or a default; a field that would close a cycle of containment is
kept behind a pointer, and a configuration that asks otherwise is refused.
-/

namespace DualView

/-! ## Errors -/

/-- Why a schema does not compile, or a question about a model has no answer. -/
inductive LayoutError
  | schema (error : SchemaError)
  | notAStruct (type : String)
  | unknownField (type field : String)
  | embeddedRecursion (owner field type : String)
  deriving DecidableEq

namespace LayoutError

def message : LayoutError → String
  | schema e => e.message
  | notAStruct type => s!"type `{type}` is not a struct"
  | unknownField type field => s!"struct `{type}` has no field `{field}`"
  | embeddedRecursion owner field type =>
    s!"field `{field}` of `{owner}` refers back to `{owner}` by value; " ++
      s!"`Maybe<{type}>` cannot be embedded there"

end LayoutError

/-! ## Layouts of types -/

/-- The layouts decided for one type. -/
structure TypeLayout where
  /-- The layout of a list item or map value of this type that may be null. -/
  maybe : Layout
  /-- The layouts of the fields of a struct. -/
  fields : List Layout
  /-- The type contains itself. -/
  recursive : Bool
  deriving DecidableEq

/-- Scalars and enums are kept in place, all else behind a pointer. -/
def Body.defaultLayout {ρ : Type} : Body ρ → Layout
  | .scalar _ | .enum _ _ => .embedded
  | .list _ _ | .map _ _ _ _ | .struct _ _ | .union _ _ => .indirect

namespace Schema

variable (s : Schema) (c : Config)

/-- The configured or else the default layout of a slot that may lack a value of a type. -/
def maybeLayout (id : TypeId) : Layout :=
  (c.maybeLayout? (s.nameOf id)).getD (s.body id).defaultLayout

/-- The layout of a field of `owner`. -/
def fieldLayout (owner : TypeId) (f : Field TypeId) : Except LayoutError Layout :=
  if s.closesCycle owner f.type then
    if f.isMaybe && c.maybeLayout? (s.nameOf f.type) == some .embedded then
      .error (.embeddedRecursion (s.nameOf owner) f.name (s.nameOf f.type))
    else .ok .indirect
  else .ok (if f.isMaybe then s.maybeLayout c f.type else .embedded)

/-- The layouts of a type. -/
def typeLayout (id : TypeId) : Except LayoutError TypeLayout := do
  let fields ← ((s.body id).fields?.getD []).mapM (s.fieldLayout c id)
  return ⟨s.maybeLayout c id, fields, s.isRecursive id⟩

end Schema

/-! ## Models -/

/-- A schema, the configuration it was compiled with, and the layouts of its types. -/
structure Model where
  schema : Schema
  config : Config
  layouts : List TypeLayout

/-- Decide every layout; the first field that cannot have the configured one is the outcome. -/
def Schema.compile (s : Schema) (c : Config) : Except LayoutError Model := do
  return ⟨s, c, ← (List.range s.size).mapM (s.typeLayout c)⟩

/-! ## Compiling with a classifier -/

/-- What is computed while a classifier is asked. -/
abbrev Asking := StateT Classifier (Except LayoutError)

namespace Schema

variable (s : Schema) (c : Config)

/-- The layouts of slots that may lack a value, by the types of the values. -/
def maybeLayouts : List Layout := (List.range s.size).map (s.maybeLayout c)

/-- The layout of a field of `owner`, by what the classifier says of it. -/
def askFieldLayout (maybes : List Layout) (owner : TypeId) (f : Field TypeId) : Asking Layout := do
  let onCycle ← modifyGet (·.closesCycle owner f.type)
  if f.isMaybe then
    match c.maybeLayout? (s.nameOf f.type), onCycle with
    | some .embedded, true =>
      throw (.embeddedRecursion (s.nameOf owner) f.name (s.nameOf f.type))
    | _, true => return .indirect
    | _, false => return maybes[f.type]?.getD .embedded
  else return if onCycle then .indirect else .embedded

/-- The layouts of a type.  The classifier is asked about the type, and then about each field. -/
def askTypeLayout (maybes : List Layout) (id : TypeId) : Asking TypeLayout := do
  let recursive ← modifyGet (·.isRecursive id)
  let fields ← ((s.body id).fields?.getD []).mapM (s.askFieldLayout c maybes id)
  return ⟨maybes[id]?.getD .embedded, fields, recursive⟩

/-- Decide every layout with one classifier, which remembers its answers throughout. -/
def compileAsking : Except LayoutError Model := do
  let asking := (List.range s.size).mapM (s.askTypeLayout c (s.maybeLayouts c))
  return ⟨s, c, ← asking.run' (.ofSchema s)⟩

end Schema

namespace Model

variable (m : Model)

/-! ### Questions by position -/

/-- The layout of a list item or map value of a type that may be null. -/
def maybeLayout (id : TypeId) : Layout :=
  (m.layouts[id]?.map (·.maybe)).getD .embedded

/-- The layout of a field of a struct by its position; anything else is kept in place. -/
def fieldLayout (id : TypeId) (index : Nat) : Layout :=
  (m.layouts[id]?.bind (·.fields[index]?)).getD .embedded

def isRecursive (id : TypeId) : Bool :=
  (m.layouts[id]?.map (·.recursive)).getD false

/-! ### Questions by name -/

/-- The position of the type of a name. -/
def idOf (name : String) : Except LayoutError TypeId :=
  (m.schema.idOf name).mapError .schema

/-- The declaration of a name, with references by name. -/
def declOf (name : String) : Except LayoutError (Decl String) :=
  m.schema.named <$> m.idOf name

def kindOf (name : String) : Except LayoutError Kind :=
  (·.kind) <$> m.declOf name

def reprKindOf (name : String) : Except LayoutError (Option Kind) :=
  (·.reprKind?) <$> m.declOf name

def strategyOf (name : String) : Except LayoutError Strategy :=
  (·.strategy) <$> m.declOf name

def referencesOf (name : String) : Except LayoutError (List String) :=
  (·.references) <$> m.declOf name

def maybeLayoutOf (name : String) : Except LayoutError Layout :=
  m.maybeLayout <$> m.idOf name

def isRecursiveOf (name : String) : Except LayoutError Bool :=
  m.isRecursive <$> m.idOf name

/-- The position of a field of the struct of a name. -/
def fieldIndexOf (name field : String) : Except LayoutError Nat := do
  let d ← m.declOf name
  match d.body.fields? with
  | none => .error (.notAStruct d.name)
  | some fields =>
    match Field.index? fields field with
    | none => .error (.unknownField d.name field)
    | some index => .ok index

def fieldLayoutOf (name field : String) : Except LayoutError Layout := do
  return m.fieldLayout (← m.idOf name) (← m.fieldIndexOf name field)

/-- The symbol under which a type is written out: its own name unless another is configured. -/
def typeSymbolOf (name : String) : Except LayoutError String := do
  let d ← m.declOf name
  return (m.config.typeSymbol? name).getD d.name

/-- The symbol under which a field is written out. -/
def fieldSymbolOf (name field : String) : Except LayoutError String := do
  let _ ← m.fieldIndexOf name field
  return (m.config.fieldSymbol? name field).getD field

end Model

end DualView
