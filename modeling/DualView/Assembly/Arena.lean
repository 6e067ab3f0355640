import DualView.Assembly.Builder

/-!
# Arenas

The compounds of a value under construction, side by side in one list of cells.  The slots of a cell
hold drafts, and the draft of a compound is the position of its cell.  Whoever assembles a compound
holds that position too, so a compound can be filled through either view.  A draft is placed when
its compound is begun, and is complete once its cell is finished.

A value is frozen out of its cells: each cell is emptied and its drafts are frozen in turn.  That
happens to the root at the end, and to the key of an entry when the value of the entry is asked for.
The arena notes which cells were emptied.

Lists are read through `Arena.need` alone.  A step that reads out of range, or that does not end,
has no next state.
-/

namespace DualView

/-! ## Drafts and cells -/

/-- The position of a cell in its arena. -/
abbrev CellId := Nat

/-- What has been given for a slot so far. -/
inductive Draft
  | absent
  | null
  | ready (value : Value)
  /-- What is assembled in a cell. -/
  | cell (id : CellId)
  /-- A member of a kinded union, by its position. -/
  | member (index : Nat) (inner : Draft)

namespace Draft

def isAbsent : Draft → Bool
  | absent => true
  | null | ready _ | cell _ | member _ _ => false

/-- The text that a draft is. -/
def text? : Draft → Option String
  | ready (.scalar (.string text)) => some text
  | _ => none

/-- The cell that a draft refers to. -/
def cell? : Draft → Option CellId
  | cell id => some id
  | member _ inner => inner.cell?
  | absent | null | ready _ => none

/-- A member of a kinded union, or a draft of its own. -/
def wrap (member? : Option Nat) (d : Draft) : Draft :=
  match member? with
  | some i => member i d
  | none => d

end Draft

/-- What a cell is filled as. -/
inductive CellShape
  | list (elem : TypeId) (nullable : Bool)
  | map (key value : TypeId) (nullable : Bool)
  | struct
  | union
  /-- One pair for the struct in another cell. -/
  | pair (owner : CellId)

/-- How far the entry or item at hand has come. -/
inductive CellPhase
  /-- No entry is at hand. -/
  | settled
  /-- A key is open or known. -/
  | key
  /-- A slot was opened. -/
  | slot (index : Nat)
  /-- A pair was opened, as the pending key. -/
  | pair
  /-- A pair has opened a slot of its owner. -/
  | pairSlot (owner : CellId) (index : Nat)

/-- A compound part way through. -/
structure Cell where
  type : TypeId
  shape : CellShape
  /-- Items, entry values, fields or members. -/
  slots : List Draft
  /-- The keys of a map with their texts, one for each slot. -/
  keys : List (Value × String)
  /-- The position of each text among the keys. -/
  index : Table Nat
  pendingKey : Draft
  phase : CellPhase
  /-- How many items of a tuple or of a pair were opened. -/
  next : Nat
  finished : Bool

/-- What a type is filled as, if it is assembled in a cell. -/
def Body.cellShape? : Body TypeId → Option CellShape
  | .list elem nullable => some (.list elem nullable)
  | .map key value nullable _ => some (.map key value nullable)
  | .struct _ _ => some .struct
  | .union _ _ => some .union
  | .scalar _ | .enum _ _ => none

/-- The keys of the fields of a struct in a view. -/
def StructRepr.keysIn (view : View) (repr : StructRepr) : Renaming :=
  match view with
  | .typed => .none
  | .representation => repr.keys?.getD .none

/-- The name of the member of a union that a key stands for in a view. -/
def UnionRepr.memberIn? (view : View) (repr : UnionRepr) (key : String) : Option String :=
  match view with
  | .typed => some key
  | .representation => repr.memberOf? key

/-- A draft of a cell: its pending key, or a slot. -/
inductive Spot
  | key
  | slot (index : Nat)
  deriving DecidableEq

namespace Cell

/-- A cell in which nothing is given yet. -/
def begin (m : Model) (type : TypeId) (shape : CellShape) : Cell :=
  let slots := match shape with
    | .struct | .union => List.replicate (m.schema.references type).length .absent
    | .list _ _ | .map _ _ _ | .pair _ => []
  ⟨type, shape, slots, [], .empty, .absent, .settled, 0, false⟩

def draftAt? (c : Cell) : Spot → Option Draft
  | .key => some c.pendingKey
  | .slot i => c.slots[i]?

def put (c : Cell) (d : Draft) : Spot → Cell
  | .key => { c with pendingKey := d }
  | .slot i => { c with slots := c.slots.set i d }

/-- A list with one item more, which is open. -/
def withItem (c : Cell) : Cell :=
  { c with slots := c.slots ++ [.absent], phase := .slot c.slots.length }

/-- A map with one entry more, whose value is open. -/
def withEntry (c : Cell) (key : Value) (text : String) : Cell :=
  { c.withItem with
    keys := c.keys ++ [(key, text)]
    index := c.index.set text c.slots.length }

/-- The type of what a slot holds. -/
def slotType? (m : Model) (c : Cell) (i : Nat) : Option TypeId :=
  match c.shape with
  | .list elem _ => some elem
  | .map _ value _ => some value
  | .struct | .union => (m.schema.references c.type)[i]?
  | .pair _ => none

/-- The drafts that make up the value of a compound, with their positions.  Of a union that is the
one member that is given. -/
def parts (c : Cell) : List (Draft × Nat) :=
  match c.shape with
  | .list _ _ | .map _ _ _ | .struct => c.slots.zipIdx
  | .union => (c.slots.zipIdx.find? fun (d, _) => !d.isAbsent).toList
  | .pair _ => []

/-- The value that has the given contents at the given positions. -/
def value? (m : Model) (c : Cell) (contents : List (Nat × Maybe Value)) : Option Value :=
  match c.shape with
  | .list elem nullable =>
    some (.list (contents.map fun (_, content) => ⟨m.elementLayout elem nullable, content⟩))
  | .map _ value nullable =>
    let entry : Value × String → Nat × Maybe Value → Entry Value := fun (key, text) (_, content) =>
      ⟨key, text, ⟨m.elementLayout value nullable, content⟩⟩
    some (.map (Dict.ofList (List.zipWith entry c.keys contents)))
  | .struct =>
    some (.struct (contents.map fun (i, content) => ⟨m.fieldLayout c.type i, content⟩))
  | .union =>
    match contents with
    | [(i, .value v)] => some (.union i v)
    | _ => none
  | .pair _ => none

/-- The kind that a compound reads as in a view.  Pairs have no typed view. -/
def kindIn? (m : Model) (c : Cell) (view : View) : Option Kind :=
  match c.shape, view with
  | .pair _, .typed => none
  | .pair _, .representation => some .list
  | _, _ => (m.schema.body c.type).assembledKind? view

/-- What is left of a cell when its drafts are taken. -/
def emptied (c : Cell) : Cell := { c with slots := [], keys := [] }

/-- Nothing is lacking that must be there to finish. -/
def checkFilled (m : Model) (c : Cell) : Except NodeError Unit :=
  match m.schema.body c.type with
  | .struct fields _ =>
    match (fields.zip c.slots).find? fun (f, d) => !f.optional && d.isAbsent with
    | some (f, _) => .error (.optionality (.requiredFieldMissing (m.schema.nameOf c.type) f.name))
    | none => .ok ()
  | .union _ _ =>
    if c.slots.all Draft.isAbsent then .error (.assembly (.emptyUnion (m.schema.nameOf c.type)))
    else .ok ()
  | _ => .ok ()

end Cell

/-! ## Places -/

/-- Where a draft stands. -/
inductive Place
  | root
  | inside (cell : CellId) (spot : Spot)
  deriving DecidableEq

/-- What a place waits for. -/
inductive PlaceDemand
  /-- A value of a type. -/
  | value (type : TypeId)
  /-- The name of a field or member of a type. -/
  | name (owner : TypeId)
  /-- One pair of the struct in a cell. -/
  | pair (owner : CellId)

/-- How a place is filled. -/
structure PlaceSpec where
  demand : PlaceDemand
  view : View
  nullable : Bool

/-! ## Arenas -/

/-- How far a builder has come. -/
inductive Stage
  | initial
  | building
  | finished
  | errored
  deriving DecidableEq

def Progress.stage : Progress → Stage
  | initial => .initial
  | building => .building
  | finished _ => .finished
  | errored => .errored

/-- The cells of one construction, with the draft of the whole. -/
structure Arena where
  cells : List Cell
  root : Draft
  stage : Stage
  /-- The cells that were emptied, the last one first. -/
  frozen : List CellId

namespace Arena

def empty : Arena := ⟨[], .absent, .initial, []⟩

def draftAt? (a : Arena) : Place → Option Draft
  | .root => some a.root
  | .inside id spot => a.cells[id]?.bind (·.draftAt? spot)

/-- Put a cell in the place of another. -/
def store (a : Arena) (id : CellId) (c : Cell) : Arena := { a with cells := a.cells.set id c }

/-- A draft that is there and, if it is assembled in a cell, finished.  There is no answer if it
refers to a cell that does not exist. -/
def complete? (a : Arena) : Draft → Option Bool
  | .absent => some false
  | .null | .ready _ => some true
  | .cell id => a.cells[id]?.map (·.finished)
  | .member _ inner => a.complete? inner

/-- The entry at hand is complete. -/
def settles? (a : Arena) (c : Cell) : Option Bool :=
  match c.phase with
  | .settled => some true
  | .key => some false
  | .slot i => c.slots[i]?.bind a.complete?
  | .pair => a.complete? c.pendingKey
  | .pairSlot owner i => (a.draftAt? (.inside owner (.slot i))).bind a.complete?

/-- A step over an arena.  It may fail, and what it did before remains. -/
abbrev Step (α : Type) : Type := ExceptT NodeError (StateT Arena Option) α

variable {α : Type}

/-- What an access finds.  Out of range there is no next state. -/
def need (found : Option α) : Step α := fun a => found.map fun r => (.ok r, a)

/-- An outcome that has nothing to do with the arena. -/
def give (outcome : Except NodeError α) : Step α := fun a => some (outcome, a)

def cell (id : CellId) : Step Cell := do need (← get).cells[id]?

/-- Change a cell. -/
def update (id : CellId) (change : Cell → Cell) : Step Unit := do
  let c ← cell id
  modify (·.store id (change c))

/-! ### Freezing -/

/-- Take a cell to freeze it.  It is left empty, and the arena notes that. -/
def takeCell (id : CellId) : Step Cell := do
  let c ← cell id
  update id Cell.emptied
  modify fun a => { a with frozen := id :: a.frozen }
  return c

end Arena

namespace Draft

open Arena

/-- Freeze a draft where a type is expected: a compound out of its cell, whose drafts are frozen in
turn. -/
def freeze (m : Model) (type : TypeId) : Draft → Arena.Step (Maybe Value)
  | .absent => pure .absent
  | .null => pure .null
  | .ready v => pure (.value v)
  | .cell id => do
    let c ← takeCell id
    let contents ← c.parts.mapM fun (d, i) => do
      let type ← need (c.slotType? m i)
      return (i, ← d |>.freeze m type)
    match c.value? m contents with
    | some v => return .value v
    | none => throw (.assembly .notFinished)
  | .member i inner => do
    let target ← need (m.schema.references type)[i]?
    match ← inner |>.freeze m target with
    | .value v => return .value (.union i v)
    | .absent | .null => throw (.assembly .notFinished)
partial_fixpoint

end Draft

namespace Arena

variable {α : Type}

/-- Freeze a draft that must be a value. -/
def freezeValue (m : Model) (type : TypeId) (d : Draft) : Step Value := do
  match ← d.freeze m type with
  | .value v => return v
  | .absent | .null => throw (.assembly .notFinished)

/-! ### Filling places -/

/-- The whole may be finished by now. -/
def refresh : Step Unit := do
  let a ← get
  if a.stage = .building then
    if ← need (a.complete? a.root) then set { a with stage := .finished }

/-- Put a draft into a place. -/
def place (d : Draft) : Place → Step Unit
  | .root => do
    modify fun a => { a with root := d, stage := .building }
    refresh
  | .inside id spot => do
    let c ← cell id
    let _ ← need (c.draftAt? spot)
    update id (·.put d spot)

section Filling

variable (m : Model)

/-- The type that a place is about. -/
def typeOf (spec : PlaceSpec) : Step TypeId :=
  match spec.demand with
  | .value type | .name type => pure type
  | .pair owner => do return (← cell owner).type

/-- A place is given content of another kind. -/
def mismatch (spec : PlaceSpec) (found : Kind) : Step α :=
  match spec.demand with
  | .value type => throw (m.schema.mismatch spec.view type found)
  | .name owner => throw (.assembly (.kindMismatch (m.schema.nameOf owner) (.scalar .string) found))
  | .pair owner => do
    let c ← cell owner
    throw (.representation (.mismatch (m.schema.nameOf c.type) .list found))

/-- Fill a place with null. -/
def assignNull (p : Place) (spec : PlaceSpec) : Step Unit := do
  if spec.nullable then
    place .null p
  else
    throw (.optionality (.nullNotAllowed (m.schema.nameOf (← typeOf spec))))

/-- The draft that a scalar makes for a place. -/
def scalarDraft (spec : PlaceSpec) (s : Scalar) : Step Draft :=
  match spec.demand, s with
  | .value type, s =>
    match m.schema.target? spec.view type (.scalar s.kind) with
    | some (member, target) => do
      return (Draft.ready (← give (m.ofScalar spec.view target s))).wrap member
    | none => mismatch m spec (.scalar s.kind)
  | .name _, .string text => pure (.ready (.scalar (.string text)))
  | _, s => mismatch m spec (.scalar s.kind)

/-- Fill a place with a scalar. -/
def assign (p : Place) (spec : PlaceSpec) (s : Scalar) : Step Unit := do
  place (← scalarDraft m spec s) p

/-- A cell of its own for a compound. -/
def allocate (type : TypeId) (shape : CellShape) : Step CellId := do
  let id := (← get).cells.length
  modify fun a => { a with cells := a.cells ++ [Cell.begin m type shape] }
  return id

/-- The draft of a compound of some kind, and its cell. -/
def cellDraft (spec : PlaceSpec) (want : Kind) : Step (Draft × CellId) :=
  match spec.demand with
  | .value type =>
    match m.schema.target? spec.view type want with
    | some (member, target) =>
      match (m.schema.body target).cellShape? with
      | some shape => do
        if (m.schema.body target).assembledKind? spec.view = some want then
          let id ← allocate m target shape
          return ((Draft.cell id).wrap member, id)
        else
          throw (m.schema.mismatch spec.view target want)
      | none => throw (m.schema.mismatch spec.view target want)
    | none => mismatch m spec want
  | .pair owner => do
    if want = .list then
      let id ← allocate m (← cell owner).type (.pair owner)
      return (.cell id, id)
    else
      mismatch m spec want
  | .name _ => mismatch m spec want

/-- Begin a compound of some kind in a place. -/
def enter (p : Place) (spec : PlaceSpec) (want : Kind) : Step CellId := do
  let (d, id) ← cellDraft m spec want
  place d p
  return id

end Filling

/-! ### Compounds -/

section Compounds

variable (m : Model) (id : CellId)

/-- A finished compound takes nothing more. -/
def checkOpen : Step Unit := do
  let c ← cell id
  if c.finished then throw (.assembly (.assemblerFinalized (m.schema.nameOf c.type)))

/-- The entry at hand must be complete.  Then none is. -/
def settle : Step Unit := do
  let c ← cell id
  if ← need ((← get).settles? c) then
    update id ({ · with phase := .settled })
  else
    throw (.assembly (.incompleteValue (m.schema.nameOf c.type)))

/-- What is filled as one kind of compound is called as the other. -/
def misused (expected found : Kind) : Step α := do
  let c ← cell id
  throw (.assembly (.kindMismatch (m.schema.nameOf c.type) expected found))

/-- Open the value of an entry of a map, whose key is new. -/
def openEntry (key : Value) (view : View) : Step (Place × PlaceSpec) := do
  let c ← cell id
  match c.shape with
  | .map keyType valueType nullable =>
    let text ← give (m.keyText keyType key)
    if (c.index.get? text).isSome then
      throw (.assembly (.duplicateKey (m.schema.nameOf c.type) text))
    else
      update id (·.withEntry key text)
      return (.inside id (.slot c.slots.length), ⟨.value valueType, view, nullable⟩)
  | _ => misused m id .map .list

/-- Open the field or member that a key stands for. -/
def openNamed (key : String) (view : View) : Step (Place × PlaceSpec) := do
  let c ← cell id
  match m.schema.body c.type with
  | .struct fields repr =>
    match ((repr.keysIn view).nameOf? key).bind (Field.index? fields) with
    | none => throw (m.schema.unrecognized c.type key)
    | some i =>
      let f ← need fields[i]?
      let d ← need c.slots[i]?
      if d.isAbsent then
        let type ← need (m.schema.references c.type)[i]?
        update id ({ · with phase := .slot i })
        return (.inside id (.slot i), ⟨.value type, view, f.nullable⟩)
      else
        throw (.assembly (.fieldAlreadySet (m.schema.nameOf c.type) f.name))
  | .union members repr =>
    let index? := (repr.memberIn? view key).bind fun name =>
      members.findIdx? (m.schema.nameOf · == name)
    match index? with
    | none => throw (m.schema.unrecognized c.type key)
    | some i =>
      if c.slots.all Draft.isAbsent then
        let type ← need (m.schema.references c.type)[i]?
        update id ({ · with phase := .slot i })
        return (.inside id (.slot i), ⟨.value type, view, false⟩)
      else
        throw (.assembly (.unionMemberAlreadySet (m.schema.nameOf c.type)))
  | _ => throw (m.schema.unrecognized c.type key)

/-- Open the value of an entry under a key given as text. -/
def beginEntry (key : String) (view : View) : Step (Place × PlaceSpec) := do
  checkOpen m id
  settle m id
  let c ← cell id
  match c.shape with
  | .map keyType _ _ =>
    let view' := if (m.schema.body keyType).kind = .scalar .string then view else .representation
    let d ← scalarDraft m ⟨.value keyType, view', false⟩ (.string key)
    openEntry m id (← freezeValue m keyType d) view
  | .struct | .union => openNamed m id key view
  | .list _ _ | .pair _ => misused m id .list .map

/-- Open the key of an entry. -/
def beginKey (view : View) : Step (Place × PlaceSpec) := do
  checkOpen m id
  settle m id
  let c ← cell id
  let opened (demand : PlaceDemand) : Step (Place × PlaceSpec) := do
    update id ({ · with pendingKey := .absent, phase := .key })
    return (.inside id .key, ⟨demand, view, false⟩)
  match c.shape with
  | .map keyType _ _ => opened (.value keyType)
  | .struct | .union => opened (.name c.type)
  | .list _ _ | .pair _ => misused m id .list .map

/-- Open the value of the entry whose key is pending. -/
def beginValue (view : View) : Step (Place × PlaceSpec) := do
  checkOpen m id
  let c ← cell id
  let known ← match c.phase with
    | .key => need ((← get).complete? c.pendingKey)
    | _ => pure false
  if known then
    update id ({ · with pendingKey := .absent, phase := .settled })
    match c.shape with
    | .map keyType _ _ => openEntry m id (← freezeValue m keyType c.pendingKey) view
    | _ =>
      match c.pendingKey.text? with
      | some name => openNamed m id name view
      | none => throw (.assembly (.incompleteValue (m.schema.nameOf c.type)))
  else
    throw (.assembly (.incompleteValue (m.schema.nameOf c.type)))

/-- Open the next item of a pair: first a key, and then the field of the owner that it stands
for. -/
def beginPairItem (owner : CellId) (view : View) : Step (Place × PlaceSpec) := do
  let type := (← cell owner).type
  let c ← cell id
  match c.next with
  | 0 =>
    update id ({ · with next := 1, pendingKey := .absent, phase := .key })
    return (.inside id .key, ⟨.name type, view, false⟩)
  | 1 =>
    update id ({ · with next := 2, pendingKey := .absent })
    match c.pendingKey.text? with
    | none => throw (.assembly (.incompleteValue (m.schema.nameOf type)))
    | some key =>
      let (p, spec) ← openNamed m owner key view
      update owner ({ · with phase := .pair })
      match p with
      | .inside _ (.slot i) => update id ({ · with phase := .pairSlot owner i })
      | _ => pure ()
      return (p, spec)
  | _ => throw (.representation (.pairArity (m.schema.nameOf type)))

/-- Open the next item. -/
def beginItem (view : View) : Step (Place × PlaceSpec) := do
  checkOpen m id
  match (← cell id).shape with
  | .pair owner => beginPairItem m id owner view
  | .list elem nullable =>
    settle m id
    let c ← cell id
    update id Cell.withItem
    return (.inside id (.slot c.slots.length), ⟨.value elem, view, nullable⟩)
  | .struct =>
    settle m id
    let c ← cell id
    match m.schema.body c.type with
    | .struct _ (.listpairs _) =>
      update id ({ · with pendingKey := .absent, phase := .pair })
      return (.inside id .key, ⟨.pair id, view, false⟩)
    | body =>
      let fields := body.fields?.getD []
      match fields[c.next]? with
      | none => throw (.representation (.tupleArity (m.schema.nameOf c.type) fields.length))
      | some f =>
        let type ← need (m.schema.references c.type)[c.next]?
        update id ({ · with next := c.next + 1, phase := .slot c.next })
        return (.inside id (.slot c.next), ⟨.value type, view, f.nullable⟩)
  | .map _ _ _ | .union =>
    settle m id
    misused m id .map .list

/-- Finish a compound. -/
def finish : Step Unit := do
  checkOpen m id
  let c ← cell id
  match c.shape with
  | .pair _ =>
    if c.next ≠ 2 then throw (.representation (.pairArity (m.schema.nameOf c.type)))
    settle m id
  | _ =>
    settle m id
    give (c.checkFilled m)
  update id ({ · with finished := true })
  refresh

/-- A compound reads as a kind in a view. -/
def checkView (view : View) (want : Kind) : Step Unit := do
  let c ← cell id
  if c.kindIn? m view = some want then pure ()
  else
    throw (.assembly (.kindMismatch (m.schema.nameOf c.type) want ((c.kindIn? m view).getD .null)))

end Compounds

end Arena

end DualView
