import DualView.Kind
import DualView.Schema.Naming

/-!
# Representation strategies

How the typed shape of a map, a struct, a union or an enum is written in its representation.
-/

namespace DualView

/-- What becomes of a map entry whose value is null. -/
inductive NullPolicy
  /-- It stays, as a null. -/
  | explicit
  /-- It is left out. -/
  | omitNulls
  deriving DecidableEq

/-- The representation of a struct. -/
inductive StructRepr
  /-- A map with one entry for each present field. -/
  | map (keys : Renaming)
  /-- A list of the field values in declaration order. -/
  | tuple
  /-- A list with one list of key and value for each present field. -/
  | listpairs (keys : Renaming)
  /-- The fields, all text, with a separator between them. -/
  | stringjoin (separator : String)
  deriving DecidableEq

/-- The representation of a union. -/
inductive UnionRepr
  /-- A map with one entry, under the discriminant of the member. -/
  | keyed (discriminants : Labels String)
  /-- The representation of the member, which its kind tells from the others. -/
  | kinded
  deriving DecidableEq

/-- The representation of an enum. -/
inductive EnumRepr
  | string (keys : Renaming)
  | int (values : Labels Int64)
  deriving DecidableEq

/-- The representation of any type.  A scalar and a list have but one. -/
inductive Strategy
  | scalar (kind : ScalarKind)
  | list
  | map (nulls : NullPolicy)
  | struct (repr : StructRepr)
  | union (repr : UnionRepr)
  | enum (repr : EnumRepr)
  deriving DecidableEq

namespace StructRepr

/-- The keys of the fields, in the two strategies that write them. -/
def keys? : StructRepr → Option Renaming
  | map keys | listpairs keys => some keys
  | tuple | stringjoin _ => none

def name : StructRepr → String
  | map _ => "map"
  | tuple => "tuple"
  | listpairs _ => "listpairs"
  | stringjoin _ => "stringjoin"

end StructRepr

namespace UnionRepr

def discriminantOf? : UnionRepr → String → Option String
  | keyed ds, member => ds.labelOf? member
  | kinded, _ => none

def memberOf? : UnionRepr → String → Option String
  | keyed ds, discriminant => ds.nameOf? discriminant
  | kinded, _ => none

def name : UnionRepr → String
  | keyed _ => "keyed"
  | kinded => "kinded"

end UnionRepr

namespace EnumRepr

def name : EnumRepr → String
  | string _ => "string"
  | int _ => "int"

end EnumRepr

end DualView
