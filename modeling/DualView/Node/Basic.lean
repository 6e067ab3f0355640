import DualView.Datum
import DualView.Error
import DualView.Text.Split
import DualView.Value.Basic
import DualView.View

/-!
# Nodes

A node is anything that can be read: a stored value seen through a view of its type, the text of a
key, a null, a pair of key and value, or a data tree.

`Schema.read` says what one level of a stored value looks like in a view.  Every question about a
node is answered from it:

| type | typed view | representation view |
|------|------------|---------------------|
| struct | map of field names | map or pairs of keys, list of values, or joined text |
| union | map with the name of the member | map with its discriminant, or the member itself |
| enum | name of the member | string or int that stands for it |
| map | typed keys | texts of the keys, without nulls if they are omitted |

Content that does not fit its type reads as null.
-/

namespace DualView

/-! ## One level of a value -/

/-- One level of a stored value, as a view of its type shows it. -/
inductive Reading
  | scalar (content : Scalar)
  /-- The items of a list. -/
  | items (elem : TypeId) (slots : List (Slot Value))
  /-- The fields of a struct, by position. -/
  | tuple (fields : List (Field TypeId)) (slots : List (Slot Value))
  /-- The fields of a struct, as a list of pairs. -/
  | pairs (keys : Renaming) (fields : List (Field TypeId)) (slots : List (Slot Value))
  /-- The entries of a map. -/
  | entries (key value : TypeId) (dict : Dict Value) (omitNulls : Bool)
  /-- The fields of a struct, under their keys. -/
  | fields (keys : Renaming) (fields : List (Field TypeId)) (slots : List (Slot Value))
  /-- The member of a union, under its key. -/
  | choice (key : String) (member : TypeId) (value : Value)
  /-- The content does not fit the type. -/
  | misfit

namespace Reading

def kind : Reading → Kind
  | scalar a => .scalar a.kind
  | items _ _ | tuple _ _ | pairs _ _ _ => .list
  | entries _ _ _ _ | fields _ _ _ | choice _ _ _ => .map
  | misfit => .null

end Reading

/-- The text in a slot, if it holds one. -/
def Slot.text? (slot : Slot Value) : Option String :=
  match slot.content with
  | .value (.scalar (.string text)) => some text
  | _ => none

namespace Schema

/-- The fields of a struct as a view shows them. -/
def readStruct (view : View) (fields : List (Field TypeId)) (repr : StructRepr)
    (slots : List (Slot Value)) : Reading :=
  match view, repr with
  | .typed, _ => .fields .none fields slots
  | .representation, .map keys => .fields keys fields slots
  | .representation, .tuple => .tuple fields slots
  | .representation, .listpairs keys => .pairs keys fields slots
  | .representation, .stringjoin separator =>
    .scalar (.string (Text.join separator (slots.filterMap Slot.text?)))

/-- The member of an enum as a view shows it. -/
def readEnum (view : View) (members : List String) (repr : EnumRepr) (index : Nat) : Reading :=
  match view with
  | .typed => (members[index]?.map fun m => .scalar (.string m)).getD .misfit
  | .representation => ((repr.scalar? members index).map .scalar).getD .misfit

/-- One level of a value of a type.  The representation of a kinded union is that of its member. -/
def read (s : Schema) (view : View) (type : TypeId) : Value → Reading
  | .scalar a =>
    match s.body type with
    | .scalar kind => if a.kind = kind then .scalar a else .misfit
    | _ => .misfit
  | .list slots =>
    match s.body type with
    | .list elem _ => .items elem slots
    | _ => .misfit
  | .map dict =>
    match s.body type with
    | .map key value _ nulls =>
      .entries key value dict (decide (view = .representation ∧ nulls = .omitNulls))
    | _ => .misfit
  | .struct slots =>
    match s.body type with
    | .struct fields repr => readStruct view fields repr slots
    | _ => .misfit
  | .union index value =>
    match s.body type with
    | .union members repr =>
      match members[index]? with
      | none => .misfit
      | some member =>
        match view, repr with
        | .typed, _ => .choice (s.nameOf member) member value
        | .representation, .kinded => s.read .representation member value
        | .representation, .keyed discriminants =>
          match discriminants.labelOf? (s.nameOf member) with
          | some key => .choice key member value
          | none => .misfit
    | _ => .misfit
  | .enum index =>
    match s.body type with
    | .enum members repr => readEnum view members repr index
    | _ => .misfit

end Schema

/-! ## Nodes -/

/-- A stored value seen through a view of its type. -/
structure TypedNode where
  schema : Schema
  type : TypeId
  view : View
  value : Value

/-- Anything that can be read. -/
inductive Node
  | typed (node : TypedNode)
  | null
  /-- The text of a key. -/
  | key (text : String)
  /-- A field as a list of key and value; the value may be null. -/
  | pair (key : String) (value : Option TypedNode)
  | basic (tree : Datum)

namespace TypedNode

def reading (n : TypedNode) : Reading := n.schema.read n.view n.type n.value

/-- A value of another type inside this one, seen through the same view. -/
def sub (n : TypedNode) (type : TypeId) (value : Value) : TypedNode :=
  { n with type := type, value := value }

/-- The content of a slot inside this value; an absent one is no node. -/
def slot? (n : TypedNode) (type : TypeId) (slot : Slot Value) : Option Node :=
  match slot.content with
  | .absent => none
  | .null => some .null
  | .value v => some (.typed (n.sub type v))

/-- The content of a slot inside this value; an absent one reads as null. -/
def slot (n : TypedNode) (type : TypeId) (slot : Slot Value) : Node :=
  (n.slot? type slot).getD .null

/-- A present field as a pair. -/
def pair? (n : TypedNode) (keys : Renaming) (f : Field TypeId) (slot : Slot Value) :
    Option Node :=
  match slot.content with
  | .absent => none
  | .null => some (.pair (keys.keyOf f.name) none)
  | .value v => some (.pair (keys.keyOf f.name) (some (n.sub f.type v)))

/-- An entry of a map.  In the representation view its key is text. -/
def entry? (n : TypedNode) (key value : TypeId) (omitNulls : Bool) (e : Entry Value) :
    Option (Node × Node) :=
  if omitNulls && e.slot.isNull then none
  else
    let keyNode := match n.view with
      | .typed => Node.typed (n.sub key e.key)
      | .representation => Node.key e.text
    (n.slot? value e.slot).map (keyNode, ·)

/-- A present field as an entry. -/
def field? (n : TypedNode) (keys : Renaming) (f : Field TypeId) (slot : Slot Value) :
    Option (Node × Node) :=
  (n.slot? f.type slot).map (.key (keys.keyOf f.name), ·)

/-- The items of a list. -/
def items? (n : TypedNode) : Option (List Node) :=
  match n.reading with
  | .items elem slots => some (slots.map (n.slot elem))
  | .tuple fields slots => some ((fields.zip slots).map fun (f, slot) => n.slot f.type slot)
  | .pairs keys fields slots =>
    some ((fields.zip slots).filterMap fun (f, slot) => n.pair? keys f slot)
  | _ => none

/-- The entries of a map. -/
def entries? (n : TypedNode) : Option (List (Node × Node)) :=
  match n.reading with
  | .entries key value dict omitNulls =>
    some (dict.entries.filterMap (n.entry? key value omitNulls))
  | .fields keys fields slots =>
    some ((fields.zip slots).filterMap fun (f, slot) => n.field? keys f slot)
  | .choice key member value => some [(.key key, .typed (n.sub member value))]
  | _ => none

end TypedNode

namespace Node

def kind : Node → Kind
  | typed n => n.reading.kind
  | null => .null
  | key _ => .scalar .string
  | pair _ _ => .list
  | basic d => d.kind

def isNull (n : Node) : Bool := decide (n.kind = .null)

/-- The stored value behind a node, with its type and view. -/
def typed? : Node → Option TypedNode
  | typed n => some n
  | _ => none

/-- The same node in another view.  Only stored values have views. -/
def inView (view : View) : Node → Node
  | typed n => typed { n with view := view }
  | n => n

/-- The representation of a node. -/
def representation (n : Node) : Node := n.inView .representation

/-- The value of a pair. -/
def ofOption (n? : Option TypedNode) : Node := (n?.map typed).getD null

/-- The content of a leaf. -/
def scalar? : Node → Option Scalar
  | typed n => match n.reading with
    | .scalar a => some a
    | _ => none
  | key text => some (.string text)
  | basic (.scalar a) => some a
  | _ => none

/-- The items of a list. -/
def items? : Node → Option (List Node)
  | typed n => n.items?
  | pair text value => some [key text, ofOption value]
  | basic (.list items) => some (items.map basic)
  | _ => none

/-- The entries of a map. -/
def entries? : Node → Option (List (Node × Node))
  | typed n => n.entries?
  | basic (.map entries) => some (entries.map fun (text, d) => (key text, basic d))
  | _ => none

end Node

end DualView
