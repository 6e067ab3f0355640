import DualView.Assembly.Opening

/-!
# Compounds part way through

A frame is a map or a list that is being assembled.  It gives out one opening at a time, and a
piece fills that opening before the next is given.  Maps, structs by field and unions are assembled
as maps; lists, structs by position or by pairs, and the pairs themselves are assembled as lists.
Slots get their layouts from the model when they come into being.
-/

namespace DualView

/-! ## Maps -/

/-- What is assembled as a map. -/
inductive MapContent
  /-- The entries of a map. -/
  | entries (key value : TypeId) (nullable : Bool) (layout : Layout) (dict : Dict Value)
  /-- The fields of a struct. -/
  | fields (fields : List (Field TypeId)) (repr : StructRepr) (slots : List (Slot Value))
  /-- The member of a union. -/
  | choice (members : List TypeId) (repr : UnionRepr) (present : Option (Nat × Value))

/-- How far the entry at hand has come. -/
inductive MapPhase
  /-- No entry is at hand. -/
  | idle
  /-- Its key is open. -/
  | key
  /-- Its key is known. -/
  | keyed (key : Value)
  /-- The value of an entry of a map is open. -/
  | entry (key : Value) (text : String)
  /-- The value of a field or member is open. -/
  | slot (index : Nat)

/-- A map part way through. -/
structure MapFrame where
  type : TypeId
  view : View
  /-- The member of a kinded union that the value is. -/
  member : Option Nat
  content : MapContent
  phase : MapPhase

/-- No field is filled. -/
def Model.absentSlots (m : Model) (type : TypeId) (fields : List (Field TypeId)) :
    List (Slot Value) :=
  fields.mapIdx fun i _ => ⟨m.fieldLayout type i, .absent⟩

/-- The layout of the items or entry values of a type. -/
def Model.elementLayout (m : Model) (type : TypeId) (nullable : Bool) : Layout :=
  if nullable then m.maybeLayout type else .embedded

/-- What is assembled as a map for a type, with nothing in it yet. -/
def Model.mapContent? (m : Model) (view : View) (type : TypeId) : Option MapContent :=
  match m.schema.body type with
  | .map key value nullable _ =>
    some (.entries key value nullable (m.elementLayout value nullable) .empty)
  | .struct fields repr =>
    match view, repr with
    | .typed, _ | .representation, .map _ =>
      some (.fields fields repr (m.absentSlots type fields))
    | .representation, _ => none
  | .union members repr =>
    match view, repr with
    | .typed, _ | .representation, .keyed _ => some (.choice members repr none)
    | .representation, .kinded => none
  | _ => none

/-- Begin a map. -/
def Opening.openMap (m : Model) (o : Opening) : Except NodeError MapFrame :=
  match o.demand with
  | .value type =>
    match m.schema.target? o.view type .map with
    | some (member, target) =>
      match m.mapContent? o.view target with
      | some content => .ok ⟨target, o.view, member, content, .idle⟩
      | none => .error (m.schema.mismatch o.view target .map)
    | none => .error (o.mismatch m.schema .map)
  | _ => .error (o.mismatch m.schema .map)

/-- Fill a slot. -/
def fillSlot (slots : List (Slot Value)) (index : Nat) (value : Option Value) :
    List (Slot Value) :=
  slots.modify index fun slot => { slot with content := .given value }

/-- The first field that must be present and is not. -/
def missing? (fields : List (Field TypeId)) (slots : List (Slot Value)) :
    Option (Field TypeId) :=
  ((fields.zip slots).find? fun (f, slot) => !f.optional && slot.isAbsent).map (·.1)

/-- The opening for the field of a struct that a key stands for, with its position. -/
def Schema.openField (s : Schema) (type : TypeId) (view : View) (keys : Renaming)
    (fields : List (Field TypeId)) (slots : List (Slot Value)) (key : String) :
    Except NodeError (Nat × Opening) :=
  match (keys.nameOf? key).bind (Field.index? fields) with
  | none => .error (s.unrecognized type key)
  | some i =>
    match fields[i]?, slots[i]? with
    | some f, some slot =>
      if slot.isAbsent then .ok (i, ⟨.value f.type, view, f.nullable⟩)
      else .error (.assembly (.fieldAlreadySet (s.nameOf type) f.name))
    | _, _ => .error (s.unrecognized type key)

/-- The opening for the member of a union that a key stands for, with its position. -/
def Schema.openMember (s : Schema) (type : TypeId) (view : View) (members : List TypeId)
    (repr : UnionRepr) (present : Option (Nat × Value)) (key : String) :
    Except NodeError (Nat × Opening) :=
  let name? := match view with
    | .typed => some key
    | .representation => repr.memberOf? key
  match name?.bind fun name => members.findIdx? (s.nameOf · == name) with
  | none => .error (s.unrecognized type key)
  | some i =>
    match members[i]?, present with
    | some member, none => .ok (i, ⟨.value member, view, false⟩)
    | some _, some _ => .error (.assembly (.unionMemberAlreadySet (s.nameOf type)))
    | none, _ => .error (s.unrecognized type key)

namespace MapFrame

variable (m : Model) (f : MapFrame)

/-- The entry at hand is not complete. -/
def incomplete : NodeError := .assembly (.incompleteValue (m.schema.nameOf f.type))

/-- No entry may be at hand. -/
def settled : Except NodeError Unit :=
  match f.phase with
  | .idle => .ok ()
  | _ => .error (f.incomplete m)

/-- Open the value of an entry of a map, whose key is new. -/
def openEntry (keyType valueType : TypeId) (nullable : Bool) (dict : Dict Value) (key : Value) :
    Except NodeError (MapFrame × Opening) := do
  let text ← m.keyText keyType key
  if dict.contains text then
    .error (.assembly (.duplicateKey (m.schema.nameOf f.type) text))
  else
    .ok ({ f with phase := .entry key text }, ⟨.value valueType, f.view, nullable⟩)

/-- Open the value of the field or member that a key stands for. -/
def openNamed (key : String) : Except NodeError (MapFrame × Opening) := do
  let (i, o) ← match f.content with
    | .entries _ _ _ _ _ => .error (m.schema.unrecognized f.type key)
    | .fields fields repr slots =>
      let keys := match f.view with
        | .typed => Renaming.none
        | .representation => repr.keys?.getD .none
      m.schema.openField f.type f.view keys fields slots key
    | .choice members repr present =>
      m.schema.openMember f.type f.view members repr present key
  return ({ f with phase := .slot i }, o)

/-- Open an entry by the text of its key.  Keys that no view reads as text, which are structs in
the typed view, are given by their representation. -/
def entry (key : String) : Except NodeError (MapFrame × Opening) := do
  f.settled m
  match f.content with
  | .entries keyType valueType nullable _ dict =>
    let view := if (m.schema.body keyType).kind = .scalar .string then f.view
      else .representation
    f.openEntry m keyType valueType nullable dict (← m.assign view keyType (.string key))
  | _ => f.openNamed m key

/-- Open the key of an entry. -/
def key : Except NodeError (MapFrame × Opening) := do
  f.settled m
  let demand := match f.content with
    | .entries keyType _ _ _ _ => Demand.value keyType
    | _ => .name f.type
  return ({ f with phase := .key }, ⟨demand, f.view, false⟩)

/-- Open the value of the entry whose key is known. -/
def value : Except NodeError (MapFrame × Opening) :=
  match f.phase with
  | .keyed key =>
    match f.content, key with
    | .entries keyType valueType nullable _ dict, key =>
      f.openEntry m keyType valueType nullable dict key
    | _, .scalar (.string name) => f.openNamed m name
    | _, _ => .error (f.incomplete m)
  | _ => .error (f.incomplete m)

/-- Fill the opening at hand. -/
def place (piece : Piece) : MapFrame :=
  match f.phase, f.content, piece with
  | .key, _, .content (some key) => { f with phase := .keyed key }
  | .entry key text, .entries kt vt nullable layout dict, .content value =>
    { f with
      content := .entries kt vt nullable layout (dict.insert ⟨key, text, ⟨layout, .given value⟩⟩)
      phase := .idle }
  | .slot i, .fields fields repr slots, .content value =>
    { f with content := .fields fields repr (fillSlot slots i value), phase := .idle }
  | .slot i, .choice members repr _, .content (some value) =>
    { f with content := .choice members repr (some (i, value)), phase := .idle }
  | _, _, _ => f

/-- The finished value: every field that must be present is, and a union has a member. -/
def finished : Except NodeError Value :=
  match f.content with
  | .entries _ _ _ _ dict => .ok (.map dict)
  | .fields fields _ slots =>
    match missing? fields slots with
    | some field =>
      .error (.optionality (.requiredFieldMissing (m.schema.nameOf f.type) field.name))
    | none => .ok (.struct slots)
  | .choice _ _ (some (i, value)) => .ok (.union i value)
  | .choice _ _ none => .error (.assembly (.emptyUnion (m.schema.nameOf f.type)))

/-- Finish the map. -/
def close : Except NodeError Piece := do
  f.settled m
  return .content (some ((← f.finished m).wrap f.member))

/-- Go on in another view, in which the value must be a map too. -/
def inView (view : View) : Except NodeError MapFrame :=
  let kind? := (m.schema.body f.type).assembledKind? view
  if kind? = some .map then .ok { f with view := view }
  else .error (.assembly (.kindMismatch (m.schema.nameOf f.type) .map (kind?.getD .null)))

end MapFrame

/-! ## Lists -/

/-- How far a pair has come. -/
inductive PairStage
  | empty
  /-- The key is open. -/
  | key
  /-- The key is known. -/
  | keyed (key : String)
  /-- The value of a field is open. -/
  | value (index : Nat)
  /-- The value of a field is known. -/
  | full (index : Nat) (value : Option Value)

/-- What is assembled as a list. -/
inductive ListContent
  /-- The items of a list. -/
  | items (elem : TypeId) (nullable : Bool) (layout : Layout) (slots : List (Slot Value))
  /-- The fields of a struct in order, the first `next` of them filled. -/
  | tuple (fields : List (Field TypeId)) (slots : List (Slot Value)) (next : Nat)
  /-- The fields of a struct as pairs. -/
  | pairs (keys : Renaming) (fields : List (Field TypeId)) (slots : List (Slot Value))
  /-- One pair for a struct whose fields are filled as the slots show. -/
  | pair (keys : Renaming) (fields : List (Field TypeId)) (slots : List (Slot Value))
      (stage : PairStage)

/-- A list part way through. -/
structure ListFrame where
  type : TypeId
  view : View
  /-- The member of a kinded union that the value is. -/
  member : Option Nat
  content : ListContent
  /-- An item is open. -/
  busy : Bool

/-- What is assembled as a list for a type, with nothing in it yet. -/
def Model.listContent? (m : Model) (view : View) (type : TypeId) : Option ListContent :=
  match m.schema.body type with
  | .list elem nullable => some (.items elem nullable (m.elementLayout elem nullable) [])
  | .struct fields repr =>
    match view, repr with
    | .representation, .tuple => some (.tuple fields (m.absentSlots type fields) 0)
    | .representation, .listpairs keys => some (.pairs keys fields (m.absentSlots type fields))
    | _, _ => none
  | _ => none

/-- Begin a list. -/
def Opening.openList (m : Model) (o : Opening) : Except NodeError ListFrame :=
  match o.demand with
  | .value type =>
    match m.schema.target? o.view type .list with
    | some (member, target) =>
      match m.listContent? o.view target with
      | some content => .ok ⟨target, o.view, member, content, false⟩
      | none => .error (m.schema.mismatch o.view target .list)
    | none => .error (o.mismatch m.schema .list)
  | .pair owner keys fields slots =>
    .ok ⟨owner, o.view, none, .pair keys fields slots .empty, false⟩
  | .name _ => .error (o.mismatch m.schema .list)

namespace ListFrame

variable (m : Model) (f : ListFrame)

/-- The item at hand is not complete. -/
def incomplete : NodeError := .assembly (.incompleteValue (m.schema.nameOf f.type))

/-- No item may be open. -/
def settled : Except NodeError Unit :=
  if f.busy then .error (f.incomplete m) else .ok ()

/-- A pair has other than two items. -/
def pairArity : NodeError := .representation (.pairArity (m.schema.nameOf f.type))

/-- Open the next item. -/
def item : Except NodeError (ListFrame × Opening) :=
  match f.content with
  | .items elem nullable _ _ => do
    f.settled m
    return ({ f with busy := true }, ⟨.value elem, f.view, nullable⟩)
  | .tuple fields _ next => do
    f.settled m
    match fields[next]? with
    | some field => return ({ f with busy := true }, ⟨.value field.type, f.view, field.nullable⟩)
    | none => .error (.representation (.tupleArity (m.schema.nameOf f.type) fields.length))
  | .pairs keys fields slots => do
    f.settled m
    return ({ f with busy := true }, ⟨.pair f.type keys fields slots, f.view, false⟩)
  | .pair keys fields slots stage =>
    match stage with
    | .empty =>
      .ok ({ f with content := .pair keys fields slots .key }, ⟨.name f.type, f.view, false⟩)
    | .key => .error (f.incomplete m)
    | .keyed key => do
      let (i, o) ← m.schema.openField f.type f.view keys fields slots key
      return ({ f with content := .pair keys fields slots (.value i) }, o)
    | .value _ | .full _ _ => .error (f.pairArity m)

/-- Fill the opening at hand. -/
def place (piece : Piece) : ListFrame :=
  match f.content, piece with
  | .items elem nullable layout slots, .content value =>
    { f with
      content := .items elem nullable layout (slots ++ [⟨layout, .given value⟩])
      busy := false }
  | .tuple fields slots next, .content value =>
    { f with content := .tuple fields (fillSlot slots next value) (next + 1), busy := false }
  | .pairs keys fields slots, .field i value =>
    { f with content := .pairs keys fields (fillSlot slots i value), busy := false }
  | .pair keys fields slots .key, .content (some (.scalar (.string key))) =>
    { f with content := .pair keys fields slots (.keyed key) }
  | .pair keys fields slots (.value i), .content value =>
    { f with content := .pair keys fields slots (.full i value) }
  | _, _ => f

/-- The finished struct: every field that must be present is. -/
def struct (fields : List (Field TypeId)) (slots : List (Slot Value)) : Except NodeError Piece :=
  match missing? fields slots with
  | some field =>
    .error (.optionality (.requiredFieldMissing (m.schema.nameOf f.type) field.name))
  | none => .ok (.content (some ((Value.struct slots).wrap f.member)))

/-- Finish the list. -/
def close : Except NodeError Piece :=
  match f.content with
  | .items _ _ _ slots => do
    f.settled m
    return .content (some ((Value.list slots).wrap f.member))
  | .tuple fields slots _ | .pairs _ fields slots => do
    f.settled m
    f.struct m fields slots
  | .pair _ _ _ stage =>
    match stage with
    | .empty | .key | .keyed _ => .error (f.pairArity m)
    | .value _ => .error (f.incomplete m)
    | .full i value => .ok (.field i value)

/-- Go on in another view, in which the value must be a list too.  Pairs have no typed view. -/
def inView (view : View) : Except NodeError ListFrame :=
  let kind? := match f.content, view with
    | .pair _ _ _ _, .typed => none
    | .pair _ _ _ _, .representation => some Kind.list
    | _, _ => (m.schema.body f.type).assembledKind? view
  if kind? = some .list then .ok { f with view := view }
  else .error (.assembly (.kindMismatch (m.schema.nameOf f.type) .list (kind?.getD .null)))

end ListFrame

end DualView
