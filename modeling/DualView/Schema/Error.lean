import DualView.Kind

/-!
# Faults of declarations

Why a set of declarations is refused, with the wording of each reason.
-/

namespace DualView

/-- A fault of the labels of a union or an int enum. -/
inductive LabelFault (β : Type)
  /-- A label is given to something that is no member. -/
  | foreign (member : String)
  /-- A member is given a second label. -/
  | second (member : String)
  /-- Two members have one label. -/
  | shared (label : β)
  /-- A member is left without a label. -/
  | incomplete
  deriving DecidableEq

/-- Why a representation does not suit its type. -/
inductive ReprFault
  | mapKey (key : String)
  | repeatedField (field : String)
  | renamedNonField (field : String)
  | sharedKey (key : String)
  | optionalInTuple (field : String)
  | emptySeparator
  | nothingToJoin
  | joinedMaybe (field : String)
  | joinedNonText (field : String)
  | noMembers
  | repeatedMember (member : String)
  | discriminant (fault : LabelFault String)
  | unkindedMember (member : String)
  | sharedKind (kind : Kind)
  | repeatedEnumMember (member : String)
  | renamedNonMember (member : String)
  | sharedText (text : String)
  | value (fault : LabelFault Int64)
  deriving DecidableEq

namespace ReprFault

def message : ReprFault → String
  | mapKey key => s!"map key type `{key}` is not string-representable"
  | repeatedField field => s!"field `{field}` declared twice"
  | renamedNonField field => s!"rename of undeclared field `{field}`"
  | sharedKey key => s!"representation key `{key}` used by more than one field"
  | optionalInTuple field => s!"tuple representation cannot hold optional field `{field}`"
  | emptySeparator => "stringjoin separator is empty"
  | nothingToJoin => "stringjoin struct has no fields"
  | joinedMaybe field => s!"stringjoin field `{field}` must be required and non-nullable"
  | joinedNonText field => s!"stringjoin field `{field}` must be a string"
  | noMembers => "union has no members"
  | repeatedMember member => s!"member `{member}` listed twice"
  | discriminant (.foreign member) => s!"discriminant for non-member `{member}`"
  | discriminant (.second member) => s!"member `{member}` has two discriminants"
  | discriminant (.shared label) => s!"discriminant `{label}` used twice"
  | discriminant .incomplete => "every member needs exactly one discriminant"
  | unkindedMember member => s!"member `{member}` has no fixed representation kind"
  | sharedKind kind => s!"more than one member represents as {kind.name}"
  | repeatedEnumMember member => s!"enum member `{member}` listed twice"
  | renamedNonMember member => s!"rename of undeclared member `{member}`"
  | sharedText text => s!"enum string `{text}` used twice"
  | value (.foreign member) => s!"value for undeclared member `{member}`"
  | value (.second member) => s!"member `{member}` has two int values"
  | value (.shared label) => s!"enum int {label.toInt} used twice"
  | value .incomplete => "every member needs exactly one int value"

end ReprFault

/-- Why declarations are refused, or a name is not found among them. -/
inductive SchemaError
  | duplicateName (name : String)
  | unresolvedReference (source missing : String)
  | notFound (name : String)
  | invalidRepresentation (name : String) (fault : ReprFault)
  deriving DecidableEq

namespace SchemaError

def message : SchemaError → String
  | duplicateName name => s!"type `{name}` is already declared"
  | unresolvedReference source missing =>
    s!"type `{source}` refers to undeclared type `{missing}`"
  | notFound name => s!"type `{name}` not found"
  | invalidRepresentation name fault =>
    s!"invalid representation for `{name}`: {fault.message}"

end SchemaError

end DualView
