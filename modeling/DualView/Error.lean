import DualView.Layout.Model

/-!
# Errors of reading and building

One type for each class of failure, and `NodeError` for them all.  Each constructor is a cause and
holds what its message says.
-/

namespace DualView

/-- What is represented does not decode into the type. -/
inductive RepresentationError
  | mismatch (type : String) (expected found : Kind)
  | unrecognizedField (type key : String)
  | stringjoinArity (type input : String) (expected found : Nat)
  | noKindedMember (type : String) (found : Kind)
  | tupleArity (type : String) (expected : Nat)
  | pairArity (type : String)
  deriving DecidableEq

/-- A slot is left absent or set to null where its declaration does not allow it. -/
inductive OptionalityError
  | requiredFieldMissing (type field : String)
  | nullNotAllowed (type : String)
  deriving DecidableEq

/-- A call does not fit the state of what is being built. -/
inductive AssemblyError
  | duplicateKey (type key : String)
  | fieldAlreadySet (type field : String)
  | unionMemberAlreadySet (type : String)
  | emptyUnion (type : String)
  | assemblerFinalized (type : String)
  | builderErrored
  | incompleteValue (type : String)
  | kindMismatch (type : String) (expected found : Kind)
  | notFinished
  deriving DecidableEq

/-- A node does not hold what is asked of it. -/
inductive AccessError
  | notExists (key : String)
  | outOfRange (index length : Nat)
  | wrongKind (expected found : Kind)
  deriving DecidableEq

/-- Any failure of reading or building. -/
inductive NodeError
  | schema (error : SchemaError)
  | layout (error : LayoutError)
  | representation (error : RepresentationError)
  | optionality (error : OptionalityError)
  | assembly (error : AssemblyError)
  | access (error : AccessError)
  deriving DecidableEq

/-! ## Messages -/

def RepresentationError.message : RepresentationError → String
  | .mismatch type expected found =>
    s!"`{type}` is represented as {expected.name}, found {found.name}"
  | .unrecognizedField type key => s!"`{type}` has no field, member or value named `{key}`"
  | .stringjoinArity type input expected found =>
    s!"`{type}` joins {expected} fields, `{input}` splits into {found}"
  | .noKindedMember type found => s!"kinded union `{type}` has no member represented as {found.name}"
  | .tupleArity type expected => s!"`{type}` has {expected} fields, tuple has more"
  | .pairArity type => s!"field pair of `{type}` must be a key followed by a value"

def OptionalityError.message : OptionalityError → String
  | .requiredFieldMissing type field => s!"required field `{field}` of `{type}` was never set"
  | .nullNotAllowed type => s!"a `{type}` slot here is not nullable"

def AssemblyError.message : AssemblyError → String
  | .duplicateKey type key => s!"duplicate key `{key}` in `{type}`"
  | .fieldAlreadySet type field => s!"field `{field}` of `{type}` is already set"
  | .unionMemberAlreadySet type => s!"union `{type}` already holds a member"
  | .emptyUnion type => s!"union `{type}` finished without a member"
  | .assemblerFinalized type => s!"assembler for `{type}` is already finished"
  | .builderErrored => "builder is in the errored state"
  | .incompleteValue type => s!"previous entry of `{type}` is not complete"
  | .kindMismatch type expected found =>
    s!"`{type}` is a {expected.name}, cannot assign a {found.name}"
  | .notFinished => "value is not finished"

def AccessError.message : AccessError → String
  | .notExists key => s!"no entry for key `{key}`"
  | .outOfRange index length => s!"index {index} out of range for length {length}"
  | .wrongKind expected found => s!"expected a {expected.name}, found a {found.name}"

def NodeError.message : NodeError → String
  | .schema e => e.message
  | .layout e => e.message
  | .representation e => e.message
  | .optionality e => e.message
  | .assembly e => e.message
  | .access e => e.message

end DualView
