import DualView.Schema.Decl
import DualView.Schema.Error

/-!
# Schemas

A schema is a frozen list of declarations.  A type is known by its position, and every reference is
such a position.
-/

namespace DualView

/-- The position of a declaration in its schema. -/
abbrev TypeId := Nat

/-- Declarations that refer to each other by position. -/
structure Schema where
  decls : List (Decl TypeId)
  deriving DecidableEq

namespace Schema

/-- What a position outside the schema stands for: an enum without members, which no value fits. -/
def vacant : Decl TypeId := ⟨"", .enum [] (.string .none)⟩

def size (s : Schema) : Nat := s.decls.length

def isEmpty (s : Schema) : Bool := s.decls.isEmpty

/-- The declaration at a position. -/
def decl (s : Schema) (id : TypeId) : Decl TypeId := s.decls[id]?.getD vacant

def body (s : Schema) (id : TypeId) : Body TypeId := (s.decl id).body

def nameOf (s : Schema) (id : TypeId) : String := (s.decl id).name

/-- The references of a declaration, in the order in which they are declared. -/
def references (s : Schema) (id : TypeId) : List TypeId := (s.decl id).references

/-- The position of the declaration of a name. -/
def id? (s : Schema) (name : String) : Option TypeId := s.decls.findIdx? (·.name == name)

/-- The position of the declaration of a name. -/
def idOf (s : Schema) (name : String) : Except SchemaError TypeId :=
  match s.id? name with
  | some id => .ok id
  | none => .error (.notFound name)

/-- The declaration of a name. -/
def resolve (s : Schema) (name : String) : Except SchemaError (Decl TypeId) :=
  s.decl <$> s.idOf name

/-- The declaration at a position, with references by name. -/
def named (s : Schema) (id : TypeId) : Decl String := (s.decl id).mapRefs s.nameOf

/-- The element type of a list. -/
def listElem? (s : Schema) (id : TypeId) : Option TypeId :=
  match s.body id with
  | .list elem _ => some elem
  | _ => none

/-- The key and value types of a map. -/
def mapEntry? (s : Schema) (id : TypeId) : Option (TypeId × TypeId) :=
  match s.body id with
  | .map key value _ _ => some (key, value)
  | _ => none

/-- The member of a kinded union that is represented with a kind: its position and its type. -/
def kindedMember? (s : Schema) (members : List TypeId) (kind : Kind) : Option (Nat × TypeId) :=
  (members.findIdx? fun m => (s.decl m).reprKind? == some kind).bind fun i =>
    members[i]?.map (i, ·)

end Schema

end DualView
