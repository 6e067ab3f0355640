import DualView.Schema.Collection
import DualView.Table

/-!
# Declarations with an index

A `TypeSystem` finds a name by looking at one declaration after the other, and a `Schema` has
positions in the declarations themselves.  An `IndexedTypeSystem` keeps a table of positions beside
the declarations and finds names through it.  Freezing leaves the declarations and the table as they
are, and lists beside each declaration the positions of what it refers to.
-/

namespace DualView

/-! ## Declarations with listed references -/

/-- Put positions, in order, in the places of the references.  There must be one for each. -/
def Body.withRefs? {ρ σ : Type} : Body ρ → List σ → Option (Body σ)
  | .scalar k, [] => some (.scalar k)
  | .list _ nullable, [elem] => some (.list elem nullable)
  | .map _ _ nullable nulls, [key, value] => some (.map key value nullable nulls)
  | .struct fields repr, types =>
    if types.length = fields.length then
      some (.struct
        (fields.zipWith (fun f type => ⟨f.name, type, f.optional, f.nullable⟩) types) repr)
    else none
  | .union members repr, types =>
    if types.length = members.length then some (.union types repr) else none
  | .enum members repr, [] => some (.enum members repr)
  | _, _ => none

/-- A declaration, and the positions of what it refers to. -/
structure SchemaEntry where
  decl : Decl String
  refs : List TypeId
  deriving DecidableEq

/-- The declaration with the positions in place. -/
def SchemaEntry.plain (e : SchemaEntry) : Decl TypeId :=
  ⟨e.decl.name, (e.decl.body.withRefs? e.refs).getD Schema.vacant.body⟩

/-! ## Frozen declarations -/

/-- Frozen declarations, and where each of them stands. -/
structure IndexedSchema where
  entries : List SchemaEntry
  /-- The positions of the declarations, by their names. -/
  index : Table TypeId
  deriving DecidableEq

namespace IndexedSchema

/-- The declarations without the table. -/
def plain (s : IndexedSchema) : Schema := ⟨s.entries.map (·.plain)⟩

def size (s : IndexedSchema) : Nat := s.entries.length

/-- The declaration at a position. -/
def get? (s : IndexedSchema) (id : TypeId) : Option (Decl String) := s.entries[id]?.map (·.decl)

/-- The positions of what the declaration at a position refers to. -/
def refs? (s : IndexedSchema) (id : TypeId) : Option (List TypeId) := s.entries[id]?.map (·.refs)

/-- The position of the declaration of a name. -/
def idOf (s : IndexedSchema) (name : String) : Except SchemaError TypeId :=
  match s.index.get? name with
  | some id => .ok id
  | none => .error (.notFound name)

/-- The declaration of a name.  There is no outcome if the table leads out of the declarations. -/
def resolve (s : IndexedSchema) (name : String) : Option (Except SchemaError (Decl String)) :=
  match s.idOf name with
  | .ok id => (s.get? id).map .ok
  | .error e => some (.error e)

/-- The element type of a list. -/
def listElem? (s : IndexedSchema) (id : TypeId) : Option TypeId :=
  match s.entries[id]? with
  | some ⟨⟨_, .list _ _⟩, [elem]⟩ => some elem
  | _ => none

/-- The key and value types of a map. -/
def mapEntry? (s : IndexedSchema) (id : TypeId) : Option (TypeId × TypeId) :=
  match s.entries[id]? with
  | some ⟨⟨_, .map _ _ _ _⟩, [key, value]⟩ => some (key, value)
  | _ => none

end IndexedSchema

/-! ## Collected declarations -/

/-- Declarations in the order in which they were added, and where each of them stands. -/
structure IndexedTypeSystem where
  decls : List (Decl String)
  /-- The positions of the declarations, by their names. -/
  index : Table TypeId
  deriving DecidableEq

namespace IndexedTypeSystem

def empty : IndexedTypeSystem := ⟨[], .empty⟩

/-- The declarations without the table. -/
def plain (ts : IndexedTypeSystem) : TypeSystem := ⟨ts.decls⟩

def size (ts : IndexedTypeSystem) : Nat := ts.decls.length

def contains (ts : IndexedTypeSystem) (name : String) : Bool := (ts.index.get? name).isSome

/-- Append a declaration and enter its position in the table, whether or not its name is new. -/
def insert (ts : IndexedTypeSystem) (d : Decl String) : IndexedTypeSystem :=
  ⟨ts.decls ++ [d], ts.index.set d.name ts.size⟩

/-- The declarations every schema can start from. -/
def prelude : IndexedTypeSystem := TypeSystem.prelude.decls.foldl insert empty

/-- Add a declaration under a new name; the outcome has its position. -/
def add (ts : IndexedTypeSystem) (d : Decl String) :
    Except SchemaError (TypeId × IndexedTypeSystem) :=
  if ts.contains d.name then .error (.duplicateName d.name) else .ok (ts.size, ts.insert d)

/-- Add declarations in order, with the outcome of each; one that is refused changes nothing. -/
def addEach (ts : IndexedTypeSystem) :
    List (Decl String) → List (Except SchemaError TypeId) × IndexedTypeSystem
  | [] => ([], ts)
  | d :: rest =>
    match ts.add d with
    | .ok (id, ts) =>
      let (outcomes, ts) := ts.addEach rest
      (.ok id :: outcomes, ts)
    | .error e =>
      let (outcomes, ts) := ts.addEach rest
      (.error e :: outcomes, ts)

/-- The declaration of a name.  There is no outcome if the table leads out of the declarations. -/
def resolve (ts : IndexedTypeSystem) (name : String) : Option (Except SchemaError (Decl String)) :=
  match ts.index.get? name with
  | some id => ts.decls[id]?.map .ok
  | none => some (.error (.notFound name))

/-- The position of the declaration that `source` refers to by a name. -/
def reference (ts : IndexedTypeSystem) (source name : String) : Except SchemaError TypeId :=
  match ts.index.get? name with
  | some id => .ok id
  | none => .error (.unresolvedReference source name)

/-- List the positions of what a declaration refers to. -/
def freeze (ts : IndexedTypeSystem) (d : Decl String) : Except SchemaError SchemaEntry := do
  return ⟨d, ← d.references.mapM (ts.reference d.name)⟩

/-- Freeze the declarations, with the table as it is.  Representations are checked once every
reference is resolved. -/
def finalize (ts : IndexedTypeSystem) : Except SchemaError IndexedSchema := do
  let s : IndexedSchema := ⟨← ts.decls.mapM ts.freeze, ts.index⟩
  match s.plain.firstError? with
  | some e => .error e
  | none => .ok s

end IndexedTypeSystem

end DualView
