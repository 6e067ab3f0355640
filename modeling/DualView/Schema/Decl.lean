import DualView.Scalar
import DualView.Schema.Representation

/-!
# Type declarations

A declaration names a type and gives its body.  The type `ρ` of its references is a parameter:
names while declarations are collected, positions in the schema once it is frozen.  A declaration
may refer to itself or to one that comes later.
-/

namespace DualView

/-! ## Bodies -/

/-- A field of a struct. -/
structure Field (ρ : Type) where
  name : String
  type : ρ
  /-- The field may be absent. -/
  optional : Bool
  /-- The field may be null. -/
  nullable : Bool
  deriving DecidableEq

/-- The body of a declaration, with references of type `ρ`. -/
inductive Body (ρ : Type)
  | scalar (kind : ScalarKind)
  | list (elem : ρ) (nullable : Bool)
  | map (key value : ρ) (nullable : Bool) (nulls : NullPolicy)
  | struct (fields : List (Field ρ)) (repr : StructRepr)
  | union (members : List ρ) (repr : UnionRepr)
  | enum (members : List String) (repr : EnumRepr)
  deriving DecidableEq

/-- A named type. -/
structure Decl (ρ : Type) where
  name : String
  body : Body ρ
  deriving DecidableEq

namespace Field

variable {ρ σ : Type}

/-- The field may lack a value. -/
def isMaybe (f : Field ρ) : Bool := f.optional || f.nullable

def map (g : ρ → σ) (f : Field ρ) : Field σ := ⟨f.name, g f.type, f.optional, f.nullable⟩

/-- The position of the first field of a name. -/
def index? (fields : List (Field ρ)) (name : String) : Option Nat :=
  fields.findIdx? (·.name == name)

end Field

namespace Body

variable {ρ σ ε : Type}

/-- The references, in the order in which they are declared. -/
def references : Body ρ → List ρ
  | scalar _ | enum _ _ => []
  | list elem _ => [elem]
  | map key value _ _ => [key, value]
  | struct fields _ => fields.map (·.type)
  | union members _ => members

/-- Replace each reference. -/
def mapRefs (g : ρ → σ) : Body ρ → Body σ
  | scalar k => scalar k
  | list elem nullable => list (g elem) nullable
  | map key value nullable nulls => map (g key) (g value) nullable nulls
  | struct fields repr => struct (fields.map (·.map g)) repr
  | union members repr => union (members.map g) repr
  | enum members repr => enum members repr

/-- Replace each reference, in order, by what `g` finds; the first failure is the outcome. -/
def resolve (g : ρ → Except ε σ) : Body ρ → Except ε (Body σ)
  | scalar k => pure (scalar k)
  | list elem nullable => do return list (← g elem) nullable
  | map key value nullable nulls => do return map (← g key) (← g value) nullable nulls
  | struct fields repr => do
    let fields ← fields.mapM fun f => return ⟨f.name, ← g f.type, f.optional, f.nullable⟩
    return struct fields repr
  | union members repr => do return union (← members.mapM g) repr
  | enum members repr => pure (enum members repr)

def typeKind : Body ρ → TypeKind
  | scalar k => .scalar k
  | list _ _ => .list
  | map _ _ _ _ => .map
  | struct _ _ => .struct
  | union _ _ => .union
  | enum _ _ => .enum

/-- The kind of the typed view. -/
def kind : Body ρ → Kind
  | scalar k => .scalar k
  | list _ _ => .list
  | map _ _ _ _ | struct _ _ | union _ _ => .map
  | enum _ _ => .scalar .string

/-- The kind of the representation view.  A kinded union has none of its own: it has the kind of
the member that is present. -/
def reprKind? : Body ρ → Option Kind
  | scalar k => some (.scalar k)
  | list _ _ => some .list
  | map _ _ _ _ => some .map
  | struct _ (.map _) => some .map
  | struct _ .tuple | struct _ (.listpairs _) => some .list
  | struct _ (.stringjoin _) => some (.scalar .string)
  | union _ (.keyed _) => some .map
  | union _ .kinded => none
  | enum _ (.string _) => some (.scalar .string)
  | enum _ (.int _) => some (.scalar .int)

def strategy : Body ρ → Strategy
  | scalar k => .scalar k
  | list _ _ => .list
  | map _ _ _ nulls => .map nulls
  | struct _ repr => .struct repr
  | union _ repr => .union repr
  | enum _ repr => .enum repr

/-- The fields of a struct. -/
def fields? : Body ρ → Option (List (Field ρ))
  | struct fields _ => some fields
  | _ => none

end Body

namespace Decl

variable {ρ σ ε : Type}

def references (d : Decl ρ) : List ρ := d.body.references

def mapRefs (g : ρ → σ) (d : Decl ρ) : Decl σ := ⟨d.name, d.body.mapRefs g⟩

def resolve (g : ρ → Except ε σ) (d : Decl ρ) : Except ε (Decl σ) := do
  return ⟨d.name, ← d.body.resolve g⟩

def kind (d : Decl ρ) : Kind := d.body.kind

def reprKind? (d : Decl ρ) : Option Kind := d.body.reprKind?

def strategy (d : Decl ρ) : Strategy := d.body.strategy

end Decl

/-! ## Members of an enum -/

namespace EnumRepr

/-- The text that stands for the member at a position; an enum of ints has none. -/
def text? (repr : EnumRepr) (members : List String) (index : Nat) : Option String :=
  match repr, members[index]? with
  | string keys, some member => some (keys.keyOf member)
  | _, _ => none

/-- The position of the member that a text stands for. -/
def ofText? (repr : EnumRepr) (members : List String) (text : String) : Option Nat :=
  match repr with
  | string keys => (keys.nameOf? text).bind members.idxOf?
  | int _ => none

/-- The int that stands for the member at a position; an enum of strings has none. -/
def int? (repr : EnumRepr) (members : List String) (index : Nat) : Option Int64 :=
  match repr, members[index]? with
  | int values, some member => values.labelOf? member
  | _, _ => none

/-- The position of the member that an int stands for. -/
def ofInt? (repr : EnumRepr) (members : List String) (value : Int64) : Option Nat :=
  match repr with
  | int values => (values.nameOf? value).bind members.idxOf?
  | string _ => none

/-- What stands for the member at a position. -/
def scalar? (repr : EnumRepr) (members : List String) (index : Nat) : Option Scalar :=
  match repr.text? members index with
  | some text => some (.string text)
  | none => (repr.int? members index).map .int

end EnumRepr

end DualView
