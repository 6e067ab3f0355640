import DualView.Schema.Validity

/-!
# Collecting declarations

Declarations are added one by one under names that must be new.  Freezing resolves every reference
and checks every representation; until then a reference need not be declared.
-/

namespace DualView

/-- Declarations in the order in which they were added. -/
structure TypeSystem where
  decls : List (Decl String)
  deriving DecidableEq

namespace TypeSystem

def empty : TypeSystem := ⟨[]⟩

/-- The declarations every schema can start from: one for each kind of scalar. -/
def prelude : TypeSystem := ⟨
  [ ⟨"Bool", .scalar .bool⟩, ⟨"Int", .scalar .int⟩, ⟨"Float", .scalar .float⟩,
    ⟨"String", .scalar .string⟩, ⟨"Bytes", .scalar .bytes⟩, ⟨"Link", .scalar .link⟩ ]⟩

def size (ts : TypeSystem) : Nat := ts.decls.length

def isEmpty (ts : TypeSystem) : Bool := ts.decls.isEmpty

def names (ts : TypeSystem) : List String := ts.decls.map (·.name)

def contains (ts : TypeSystem) (name : String) : Bool := ts.decls.any (·.name == name)

/-- Add a declaration under a new name; the outcome has its position. -/
def add (ts : TypeSystem) (d : Decl String) : Except SchemaError (TypeId × TypeSystem) :=
  if ts.contains d.name then .error (.duplicateName d.name)
  else .ok (ts.size, ⟨ts.decls ++ [d]⟩)

/-- Add declarations in order; the first failure is the outcome. -/
def addAll (ts : TypeSystem) (ds : List (Decl String)) : Except SchemaError TypeSystem :=
  ds.foldlM (fun ts d => (·.2) <$> ts.add d) ts

/-- Add declarations in order, with the outcome of each; one that is refused changes nothing. -/
def addEach (ts : TypeSystem) :
    List (Decl String) → List (Except SchemaError TypeId) × TypeSystem
  | [] => ([], ts)
  | d :: rest =>
    match ts.add d with
    | .ok (id, ts) =>
      let (outcomes, ts) := ts.addEach rest
      (.ok id :: outcomes, ts)
    | .error e =>
      let (outcomes, ts) := ts.addEach rest
      (.error e :: outcomes, ts)

/-- The declaration of a name. -/
def resolve (ts : TypeSystem) (name : String) : Except SchemaError (Decl String) :=
  match ts.decls.find? (·.name == name) with
  | some d => .ok d
  | none => .error (.notFound name)

/-- The position of the declaration that `source` refers to by a name. -/
def reference (ts : TypeSystem) (source name : String) : Except SchemaError TypeId :=
  match ts.decls.findIdx? (·.name == name) with
  | some id => .ok id
  | none => .error (.unresolvedReference source name)

/-- Replace every name that a declaration refers to by its position. -/
def close (ts : TypeSystem) (d : Decl String) : Except SchemaError (Decl TypeId) :=
  d.resolve (ts.reference d.name)

/-- Freeze the declarations.  A reference that cannot be resolved, wherever it stands, comes before
any fault of a representation. -/
def finalize (ts : TypeSystem) : Except SchemaError Schema := do
  let s : Schema := ⟨← ts.decls.mapM ts.close⟩
  match s.firstError? with
  | some e => .error e
  | none => .ok s

end TypeSystem

end DualView
