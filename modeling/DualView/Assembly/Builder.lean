import DualView.Prototype

/-!
# Builders

A builder assembles one value call by call.  It keeps the compounds that are open, innermost first,
each with the question whether it has been finished; or the opening that waits for a value.  A call
goes to the innermost of these.

A failing call leaves the builder errored for good, unless it is finished.  Dropping an opening that
is not filled, or a compound that is not finished, leaves the entry around it incomplete for good.
-/

namespace DualView

/-! ## State -/

/-- How far a builder has come. -/
inductive Progress
  | initial
  | building
  | finished (value : Value)
  | errored

/-- A compound part way through. -/
inductive Frame
  | map (frame : MapFrame)
  | list (frame : ListFrame)

namespace Frame

def type : Frame → TypeId
  | map f => f.type
  | list f => f.type

def view : Frame → View
  | map f => f.view
  | list f => f.view

/-- Fill the opening at hand. -/
def place (piece : Piece) : Frame → Frame
  | map f => map (f.place piece)
  | list f => list (f.place piece)

/-- The finished compound. -/
def close (m : Model) : Frame → Except NodeError Piece
  | map f => f.close m
  | list f => f.close m

/-- Go on in another view. -/
def inView (m : Model) (view : View) : Frame → Except NodeError Frame
  | map f => map <$> f.inView m view
  | list f => list <$> f.inView m view

end Frame

/-- A compound that can still be called. -/
structure Handle where
  frame : Frame
  finished : Bool

/-- A value under construction. -/
structure Builder where
  prototype : Prototype
  progress : Progress
  /-- The compounds that can be called, innermost first. -/
  handles : List Handle
  /-- The opening that waits for a value. -/
  opening : Option Opening

/-! ## Calls -/

/-- A call to a builder, or to the innermost of what it has open. -/
inductive Call
  /-- Open the root. -/
  | root
  /-- Ask how far the builder has come. -/
  | state
  /-- Open the value of an entry under a key given as text. -/
  | entry (key : String)
  /-- Open the key of an entry. -/
  | key
  /-- Open the value of an entry, or the next item. -/
  | value
  /-- Finish the compound. -/
  | finish
  /-- Go on with the compound in another view. -/
  | view (view : View)
  /-- Leave the compound or the opening. -/
  | drop
  /-- Fill the opening. -/
  | null
  | scalar (content : Scalar)
  | map
  | list
  | copy (tree : Datum)
  | fill (tree : Datum)

/-- The answer to a call. -/
inductive Reply
  /-- What is called has no such call. -/
  | notApplicable
  | done
  | state (progress : Progress)
  | opened (view : View) (nullable : Bool)
  | map (view : View)
  | list (view : View)
  | failed (error : NodeError)

namespace Builder

def ofPrototype (p : Prototype) : Builder := ⟨p, .initial, [], none⟩

def model (b : Builder) : Model := b.prototype.model

def typeName (b : Builder) : String := b.prototype.typeName

/-- The outcome of a call.  Where it fails, the builder is as `b` has it, but errored. -/
def settle (b : Builder) (outcome : Except NodeError (Builder × Reply)) : Builder × Reply :=
  match b.progress, outcome with
  | .errored, _ => (b, .failed (.assembly .builderErrored))
  | _, .ok r => r
  | .finished _, .error e => (b, .failed e)
  | _, .error e => ({ b with progress := .errored }, .failed e)

/-- Give a piece to what waits for it: the innermost compound, or else the root. -/
def deliver (b : Builder) (piece : Piece) : List Handle → Builder
  | [] =>
    match piece with
    | .content (some v) => { b with progress := .finished v, handles := [] }
    | _ => { b with handles := [] }
  | h :: outer => { b with handles := { h with frame := h.frame.place piece } :: outer }

/-- Wait for a value in an opening of the innermost compound. -/
def await (b : Builder) (frame : Frame) (outer : List Handle) (o : Opening) : Builder × Reply :=
  ({ b with handles := ⟨frame, false⟩ :: outer, opening := some o }, .opened o.view o.nullable)

/-- A finished compound takes no more calls. -/
def checkOpen (b : Builder) (h : Handle) : Except NodeError Unit :=
  if h.finished then .error (.assembly (.assemblerFinalized (b.model.schema.nameOf h.frame.type)))
  else .ok ()

/-! ### Calls to the builder itself -/

/-- Open the root, before anything is assigned. -/
def openRoot (b : Builder) : Except NodeError (Builder × Reply) :=
  match b.progress with
  | .initial =>
    let o := b.prototype.root
    .ok ({ b with opening := some o }, .opened o.view o.nullable)
  | _ => .error (.assembly (.assemblerFinalized b.typeName))

/-! ### Calls to an opening -/

/-- Fill the opening with what makes a piece of it. -/
def fillOpening (b : Builder) (piece : Except NodeError Piece) :
    Except NodeError (Builder × Reply) := do
  return ({ b with opening := none }.deliver (← piece) b.handles, .done)

/-- Begin a compound in the opening. -/
def enter (b : Builder) (frame : Except NodeError Frame) (reply : Reply) :
    Except NodeError (Builder × Reply) := do
  let progress := match b.progress with
    | .initial => .building
    | p => p
  return ({ b with
    progress := progress
    handles := ⟨← frame, false⟩ :: b.handles
    opening := none }, reply)

/-- A call to an opening, which uses it up. -/
def callOpening (b : Builder) (o : Opening) (c : Call) : Builder × Reply :=
  let m := b.model
  let left := { b with opening := none }
  match c with
  | .drop => (left, .done)
  | .null => left.settle (b.fillOpening (o.null m.schema))
  | .scalar a => left.settle (b.fillOpening (o.scalar m a))
  | .copy d => left.settle (b.fillOpening (o.copy m (Node.basic d).tree))
  | .fill d => left.settle (b.fillOpening (o.fill m d))
  | .map => left.settle (b.enter (.map <$> o.openMap m) (.map o.view))
  | .list => left.settle (b.enter (.list <$> o.openList m) (.list o.view))
  | _ => (b, .notApplicable)

/-! ### Calls to a compound -/

/-- Finish the innermost compound, which then can only be left. -/
def finishCompound (b : Builder) (h : Handle) (outer : List Handle) :
    Except NodeError (Builder × Reply) := do
  b.checkOpen h
  let b := b.deliver (← h.frame.close b.model) outer
  return ({ b with handles := { h with finished := true } :: b.handles }, .done)

/-- A call that both maps and lists have. -/
def callCompound (b : Builder) (h : Handle) (outer : List Handle) (c : Call) :
    Builder × Reply :=
  match c with
  | .drop => ({ b with handles := outer }, .done)
  | .finish => b.settle (b.finishCompound h outer)
  | .view view =>
    { b with handles := outer }.settle do
      let frame ← h.frame.inView b.model view
      return ({ b with handles := { h with frame := frame } :: outer },
        match frame with
        | .map _ => .map view
        | .list _ => .list view)
  | _ => (b, .notApplicable)

/-- A call that opens something in a map. -/
def callMap (b : Builder) (h : Handle) (outer : List Handle)
    (step : Except NodeError (MapFrame × Opening)) : Builder × Reply :=
  b.settle do
    b.checkOpen h
    let (f, o) ← step
    return b.await (.map f) outer o

/-- A call that opens something in a list. -/
def callList (b : Builder) (h : Handle) (outer : List Handle)
    (step : Except NodeError (ListFrame × Opening)) : Builder × Reply :=
  b.settle do
    b.checkOpen h
    let (f, o) ← step
    return b.await (.list f) outer o

/-- A call to the innermost compound. -/
def callHandle (b : Builder) (h : Handle) (outer : List Handle) (c : Call) : Builder × Reply :=
  match h.frame, c with
  | .map f, .entry key => b.callMap h outer (f.entry b.model key)
  | .map f, .key => b.callMap h outer (f.key b.model)
  | .map f, .value => b.callMap h outer (f.value b.model)
  | .list f, .value => b.callList h outer (f.item b.model)
  | _, c => b.callCompound h outer c

/-! ### All calls -/

/-- One call. -/
def call (b : Builder) (c : Call) : Builder × Reply :=
  match b.opening, b.handles with
  | some o, _ => b.callOpening o c
  | none, h :: outer => b.callHandle h outer c
  | none, [] =>
    match c with
    | .root => b.settle b.openRoot
    | .state => (b, .state b.progress)
    | _ => (b, .notApplicable)

/-- Calls in order, with their answers. -/
def run (b : Builder) : List Call → Builder × List Reply
  | [] => (b, [])
  | c :: rest =>
    let (b, reply) := b.call c
    let (b, replies) := b.run rest
    (b, reply :: replies)

/-- The finished value. -/
def build (b : Builder) : Except NodeError TypedValue :=
  match b.progress with
  | .finished v => .ok ⟨b.model, b.prototype.type, v⟩
  | .errored => .error (.assembly .builderErrored)
  | .initial | .building => .error (.assembly .notFinished)

end Builder

end DualView
