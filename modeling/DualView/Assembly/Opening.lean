import DualView.Node.Read

/-!
# Openings

An opening is a place that waits for one value: the root of what is built, an item, the value of an
entry, a key, or one pair of a struct that is represented as pairs.  This module says what scalars
an opening takes, and what is wrong with the others.
-/

namespace DualView

/-! ## Kinds that types are assembled as -/

/-- The kind of compound that a type is assembled as in a view, if it is not assembled from one
scalar or, like a kinded union, through its member. -/
def Body.assembledKind? {ρ : Type} (view : View) : Body ρ → Option Kind
  | .list _ _ => some .list
  | .map _ _ _ _ => some .map
  | .struct _ repr =>
    match view, repr with
    | .typed, _ | .representation, .map _ => some .map
    | .representation, .tuple | .representation, .listpairs _ => some .list
    | .representation, .stringjoin _ => none
  | .union _ repr =>
    match view, repr with
    | .typed, _ | .representation, .keyed _ => some .map
    | .representation, .kinded => none
  | .scalar _ | .enum _ _ => none

namespace Schema

variable (s : Schema)

/-- The type that takes content of a kind where a type is expected, with its position if it is a
member of a kinded union.  Only the representation view reaches such members. -/
def target? (view : View) (type : TypeId) (kind : Kind) : Option (Option Nat × TypeId) :=
  match view, s.body type with
  | .representation, .union members .kinded =>
    (s.kindedMember? members kind).map fun (i, member) => (some i, member)
  | _, _ => some (none, type)

/-- A type is given content of another kind. -/
def mismatch (view : View) (type : TypeId) (found : Kind) : NodeError :=
  match view with
  | .typed => .assembly (.kindMismatch (s.nameOf type) (s.body type).kind found)
  | .representation =>
    match (s.body type).reprKind? with
    | some expected => .representation (.mismatch (s.nameOf type) expected found)
    | none => .representation (.noKindedMember (s.nameOf type) found)

/-- A type has nothing of a name. -/
def unrecognized (type : TypeId) (key : String) : NodeError :=
  .representation (.unrecognizedField (s.nameOf type) key)

/-- The member of an enum that a scalar stands for. -/
def enumMember (view : View) (type : TypeId) (members : List String) (repr : EnumRepr)
    (a : Scalar) : Except NodeError Value :=
  let found (index? : Option Nat) (key : String) : Except NodeError Value :=
    match index? with
    | some i => .ok (.enum i)
    | none => .error (s.unrecognized type key)
  match view, repr, a with
  | .typed, _, .string text => found (members.idxOf? text) text
  | .representation, .string _, .string text => found (repr.ofText? members text) text
  | .representation, .int _, .int i => found (repr.ofInt? members i) (toString i.toInt)
  | _, _, _ => .error (s.mismatch view type (.scalar a.kind))

end Schema

/-- A member of a kinded union, or a value of its own. -/
def Value.wrap (member : Option Nat) (v : Value) : Value :=
  match member with
  | some i => .union i v
  | none => v

/-- A null, or a value. -/
def Maybe.given {α : Type} : Option α → Maybe α
  | none => .null
  | some a => .value a

namespace Model

variable (m : Model)

/-- The fields of a struct from their joined text. -/
def joined (type : TypeId) (fields : List (Field TypeId)) (separator text : String) :
    Except NodeError Value :=
  let parts := Text.split separator text
  if parts.length = fields.length then
    .ok (.struct (parts.mapIdx fun i part =>
      ⟨m.fieldLayout type i, .value (.scalar (.string part))⟩))
  else
    .error (.representation
      (.stringjoinArity (m.schema.nameOf type) text fields.length parts.length))

/-- The value of a type that a scalar stands for. -/
def ofScalar (view : View) (type : TypeId) (a : Scalar) : Except NodeError Value :=
  match m.schema.body type with
  | .scalar kind =>
    if a.kind = kind then .ok (.scalar a)
    else .error (m.schema.mismatch view type (.scalar a.kind))
  | .enum members repr => m.schema.enumMember view type members repr a
  | .struct fields (.stringjoin separator) =>
    match view, a with
    | .representation, .string text => m.joined type fields separator text
    | _, _ => .error (m.schema.mismatch view type (.scalar a.kind))
  | _ => .error (m.schema.mismatch view type (.scalar a.kind))

/-- The value that a scalar stands for where a type is expected. -/
def assign (view : View) (type : TypeId) (a : Scalar) : Except NodeError Value :=
  match m.schema.target? view type (.scalar a.kind) with
  | some (member, target) => Value.wrap member <$> m.ofScalar view target a
  | none => .error (m.schema.mismatch view type (.scalar a.kind))

/-- The text that represents a key of a type. -/
def keyText (type : TypeId) (key : Value) : Except NodeError String :=
  (Node.typed ⟨m.schema, type, .representation, key⟩).asString.mapError .access

end Model

/-! ## Openings -/

/-- What an opening waits for. -/
inductive Demand
  /-- A value of a type. -/
  | value (type : TypeId)
  /-- The name of a field or member of a type. -/
  | name (owner : TypeId)
  /-- One pair of a struct, whose fields are filled so far as the slots show. -/
  | pair (owner : TypeId) (keys : Renaming) (fields : List (Field TypeId))
      (slots : List (Slot Value))

/-- A place that waits for one value. -/
structure Opening where
  demand : Demand
  view : View
  nullable : Bool

/-- What fills an opening. -/
inductive Piece
  /-- A value, or a null. -/
  | content (value : Option Value)
  /-- A field of a struct by its position, with a value or a null. -/
  | field (index : Nat) (value : Option Value)

namespace Opening

/-- The type that an opening is about. -/
def type (o : Opening) : TypeId :=
  match o.demand with
  | .value type => type
  | .name owner | .pair owner _ _ _ => owner

/-- An opening is given content of another kind. -/
def mismatch (s : Schema) (o : Opening) (found : Kind) : NodeError :=
  match o.demand with
  | .value type => s.mismatch o.view type found
  | .name owner => .assembly (.kindMismatch (s.nameOf owner) (.scalar .string) found)
  | .pair owner _ _ _ => .representation (.mismatch (s.nameOf owner) .list found)

/-- Fill an opening with null. -/
def null (s : Schema) (o : Opening) : Except NodeError Piece :=
  if o.nullable then .ok (.content none)
  else .error (.optionality (.nullNotAllowed (s.nameOf o.type)))

/-- Fill an opening with a scalar. -/
def scalar (m : Model) (o : Opening) (a : Scalar) : Except NodeError Piece :=
  match o.demand, a with
  | .value type, a => (fun v => .content (some v)) <$> m.assign o.view type a
  | .name _, .string text => .ok (.content (some (.scalar (.string text))))
  | _, a => .error (o.mismatch m.schema (.scalar a.kind))

end Opening

end DualView
