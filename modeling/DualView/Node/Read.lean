import DualView.Node.Basic

/-!
# Reading nodes

Questions that a node may refuse: its length, its items or entries, one of them, or the content of
a leaf.  A question for another kind of node fails with both kinds.
-/

namespace DualView

/-! ## Stored values -/

namespace TypedNode

/-- How many items or entries there are.  Absent fields do not count, nor do omitted nulls. -/
def length (n : TypedNode) : Except AccessError Nat :=
  match n.reading with
  | .items _ slots | .tuple _ slots => .ok slots.length
  | .entries _ _ dict omitNulls =>
    .ok (if omitNulls then dict.entries.countP (!·.slot.isNull) else dict.size)
  | .fields _ _ slots | .pairs _ _ slots => .ok (slots.countP (!·.isAbsent))
  | .choice _ _ _ => .ok 1
  | r => .error (.wrongKind .map r.kind)

/-- The value in the entry under a text. -/
def entryAt? (n : TypedNode) (value : TypeId) (dict : Dict Value) (omitNulls : Bool)
    (text : String) : Option Node :=
  (dict.get? text).bind fun e =>
    if omitNulls && e.slot.isNull then none else n.slot? value e.slot

/-- The text under which an entry is stored, given its key as this view writes it.  The typed view
writes the key of an enum as the name of the member. -/
def storedText? (n : TypedNode) (key : TypeId) (text : String) : Option String :=
  match n.view, n.schema.body key with
  | .typed, .enum members repr => (members.idxOf? text).bind (repr.text? members)
  | _, _ => some text

/-- The value in the field of a name. -/
def fieldAt? (n : TypedNode) (fields : List (Field TypeId)) (slots : List (Slot Value))
    (name : String) : Option Node := do
  let i ← Field.index? fields name
  n.slot? (← fields[i]?).type (← slots[i]?)

/-- The value in the entry of a key. -/
def lookup (n : TypedNode) (key : String) : Except AccessError Node :=
  let found (node? : Option Node) : Except AccessError Node :=
    match node? with
    | some node => .ok node
    | none => .error (.notExists key)
  match n.reading with
  | .entries keyType value dict omitNulls =>
    found ((n.storedText? keyType key).bind (n.entryAt? value dict omitNulls))
  | .fields keys fields slots => found ((keys.nameOf? key).bind (n.fieldAt? fields slots))
  | .choice present member value =>
    found (if present = key then some (.typed (n.sub member value)) else none)
  | r => .error (.wrongKind .map r.kind)

/-- The value in the entry whose key is represented by a text. -/
def lookupText (n : TypedNode) (text : String) : Except AccessError Node :=
  match n.reading with
  | .entries _ value dict omitNulls =>
    match n.entryAt? value dict omitNulls text with
    | some node => .ok node
    | none => .error (.notExists text)
  | _ => n.lookup text

/-- The item at a position. -/
def lookupIndex (n : TypedNode) (index : Nat) : Except AccessError Node :=
  match n.reading with
  | .items elem slots =>
    match slots[index]? with
    | some slot => .ok (n.slot elem slot)
    | none => .error (.outOfRange index slots.length)
  | .tuple fields slots =>
    match fields[index]?, slots[index]? with
    | some f, some slot => .ok (n.slot f.type slot)
    | _, _ => .error (.outOfRange index slots.length)
  | .pairs keys fields slots =>
    match ((fields.zip slots).filterMap fun (f, slot) => n.pair? keys f slot)[index]? with
    | some node => .ok node
    | none => .error (.outOfRange index (slots.countP (!·.isAbsent)))
  | r => .error (.wrongKind .list r.kind)

end TypedNode

/-! ## All nodes -/

namespace Node

def length : Node → Except AccessError Nat
  | typed n => n.length
  | pair _ _ => .ok 2
  | basic (.list items) => .ok items.length
  | basic (.map entries) => .ok entries.length
  | n => .error (.wrongKind .map n.kind)

/-- The items of a list. -/
def values (n : Node) : Except AccessError (List Node) :=
  match n.items? with
  | some items => .ok items
  | none => .error (.wrongKind .list n.kind)

/-- The entries of a map. -/
def entries (n : Node) : Except AccessError (List (Node × Node)) :=
  match n.entries? with
  | some entries => .ok entries
  | none => .error (.wrongKind .map n.kind)

/-- The value in the entry of a key. -/
def lookup (n : Node) (key : String) : Except AccessError Node :=
  match n with
  | typed n => n.lookup key
  | basic (.map entries) =>
    match entries.lookup key with
    | some d => .ok (basic d)
    | none => .error (.notExists key)
  | n => .error (.wrongKind .map n.kind)

/-- The item at a position. -/
def lookupIndex (n : Node) (index : Nat) : Except AccessError Node :=
  match n with
  | typed n => n.lookupIndex index
  | pair text value =>
    match index with
    | 0 => .ok (key text)
    | 1 => .ok (ofOption value)
    | _ => .error (.outOfRange index 2)
  | basic (.list items) =>
    match items[index]? with
    | some d => .ok (basic d)
    | none => .error (.outOfRange index items.length)
  | n => .error (.wrongKind .list n.kind)

/-! ### Leaves -/

def asBool (n : Node) : Except AccessError Bool :=
  match n.scalar? with
  | some (.bool b) => .ok b
  | _ => .error (.wrongKind (.scalar .bool) n.kind)

def asInt (n : Node) : Except AccessError Int64 :=
  match n.scalar? with
  | some (.int i) => .ok i
  | _ => .error (.wrongKind (.scalar .int) n.kind)

def asFloat (n : Node) : Except AccessError Binary64 :=
  match n.scalar? with
  | some (.float x) => .ok x
  | _ => .error (.wrongKind (.scalar .float) n.kind)

def asString (n : Node) : Except AccessError String :=
  match n.scalar? with
  | some (.string text) => .ok text
  | _ => .error (.wrongKind (.scalar .string) n.kind)

def asBytes (n : Node) : Except AccessError (List UInt8) :=
  match n.scalar? with
  | some (.bytes bytes) => .ok bytes
  | _ => .error (.wrongKind (.scalar .bytes) n.kind)

def asLink (n : Node) : Except AccessError Link :=
  match n.scalar? with
  | some (.link link) => .ok link
  | _ => .error (.wrongKind (.scalar .link) n.kind)

/-- The content of a leaf, read as a kind of scalar. -/
def asScalar (n : Node) : ScalarKind → Except AccessError Scalar
  | .bool => .bool <$> n.asBool
  | .int => .int <$> n.asInt
  | .float => .float <$> n.asFloat
  | .string => .string <$> n.asString
  | .bytes => .bytes <$> n.asBytes
  | .link => .link <$> n.asLink

/-! ### Keys that are nodes -/

/-- The text that represents a key. -/
def keyText (n : Node) : Except AccessError String := n.representation.asString

/-- The value in the entry of a key, which is given as a node. -/
def lookupNode (n key : Node) : Except AccessError Node := do
  let text ← key.keyText
  match n with
  | typed n => n.lookupText text
  | n => n.lookup text

end Node

end DualView
