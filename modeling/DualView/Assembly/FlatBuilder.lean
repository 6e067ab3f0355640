import DualView.Assembly.Arena

/-!
# Builders over an arena

A flat builder keeps the compounds that can be called as grips, each on a cell of an arena, and the
opening that waits for a value as a place of the arena.  It takes the calls that a `Builder` takes.
A tree that is copied or filled in is a sequence of single calls, up to the first that is not taken.

Where a call makes the arena read out of range there is no next builder.
-/

namespace DualView

/-! ## Calls for whole trees -/

namespace Datum

mutual

/-- The calls that assemble a tree in an opening, where `enter` opens the value of an entry. -/
def calls (enter : String → List Call) : Datum → List Call
  | null => [.null]
  | scalar a => [.scalar a]
  | list items => .list :: itemCalls enter items
  | map entries => .map :: entryCalls enter entries

/-- The calls that add items to a list, and finish it. -/
def itemCalls (enter : String → List Call) : List Datum → List Call
  | [] => [.finish, .drop]
  | d :: rest => .value :: (d.calls enter ++ itemCalls enter rest)

/-- The calls that add entries to a map, and finish it. -/
def entryCalls (enter : String → List Call) : List (String × Datum) → List Call
  | [] => [.finish, .drop]
  | (key, d) :: rest => enter key ++ (d.calls enter ++ entryCalls enter rest)

end

/-- The calls that copy a tree: each key in an opening of its own. -/
def copyCalls (d : Datum) : List Call := d.calls fun key => [.key, .scalar (.string key), .value]

/-- The calls that fill in a tree: each key as text. -/
def fillCalls (d : Datum) : List Call := d.calls fun key => [.entry key]

end Datum

/-! ## Builders -/

/-- A compound that can still be called. -/
structure Grip where
  cell : CellId
  view : View
  /-- What it is called as: a map or a list. -/
  kind : Kind

/-- A value under construction in an arena. -/
structure FlatBuilder where
  prototype : Prototype
  arena : Arena
  /-- The compounds that can be called, innermost first. -/
  grips : List Grip
  /-- The place that waits for a value. -/
  opening : Option (Place × PlaceSpec)

/-- The answer to a call.  Of the state it says no more than how far the builder has come. -/
inductive Answer
  | reply (reply : Reply)
  | state (stage : Stage)

/-- What a reply says without the finished value. -/
def Reply.answer : Reply → Answer
  | .state progress => .state progress.stage
  | reply => .reply reply

/-- The call was taken. -/
def Answer.accepted : Answer → Bool
  | .reply .notApplicable | .reply (.failed _) => false
  | _ => true

namespace FlatBuilder

def ofPrototype (p : Prototype) : FlatBuilder := ⟨p, .empty, [], none⟩

def model (f : FlatBuilder) : Model := f.prototype.model

/-- What a step makes of the arena.  A step that fails leaves it errored, unless it is finished. -/
def guarded {α : Type} (a : Arena) (step : Arena.Step α) : Option (Except NodeError α × Arena) :=
  match a.stage with
  | .errored => some (.error (.assembly .builderErrored), a)
  | .finished => step a
  | .initial | .building =>
    (step a).map fun
      | (.error e, a) => (.error e, { a with stage := .errored })
      | done => done

/-- Take a step; where it succeeds, go on with what it gives. -/
def take {α : Type} (f : FlatBuilder) (step : Arena.Step α)
    (next : FlatBuilder → α → FlatBuilder × Reply) : Option (FlatBuilder × Answer) :=
  (guarded f.arena step).map fun
    | (.ok r, a) =>
      let (f, reply) := next { f with arena := a } r
      (f, .reply reply)
    | (.error e, a) => ({ f with arena := a }, .reply (.failed e))

/-- A call that the builder does not have. -/
def ignore (f : FlatBuilder) : Option (FlatBuilder × Answer) := some (f, .reply .notApplicable)

/-- Wait for a value in a place. -/
def await (f : FlatBuilder) (o : Place × PlaceSpec) : FlatBuilder × Reply :=
  ({ f with opening := some o }, .opened o.2.view o.2.nullable)

/-- Open the root, before anything is assigned. -/
def openRoot (p : Prototype) : Arena.Step (Place × PlaceSpec) := do
  if (← get).stage = .initial then
    return (.root, ⟨.value p.type, p.view, false⟩)
  else
    throw (.assembly (.assemblerFinalized p.typeName))

/-- A call to an opening, which uses it up. -/
def callOpening (f : FlatBuilder) (p : Place) (spec : PlaceSpec) (c : Call) :
    Option (FlatBuilder × Answer) :=
  let m := f.model
  let left := { f with opening := none }
  let filled (f : FlatBuilder) (_ : Unit) : FlatBuilder × Reply := (f, .done)
  match c with
  | .drop => some (left, .reply .done)
  | .null => left.take (Arena.assignNull m p spec) filled
  | .scalar a => left.take (Arena.assign m p spec a) filled
  | .map => left.take (Arena.enter m p spec .map) fun f id =>
    ({ f with grips := ⟨id, spec.view, .map⟩ :: f.grips }, .map spec.view)
  | .list => left.take (Arena.enter m p spec .list) fun f id =>
    ({ f with grips := ⟨id, spec.view, .list⟩ :: f.grips }, .list spec.view)
  | _ => f.ignore

/-- A call that both maps and lists have. -/
def callCompound (f : FlatBuilder) (g : Grip) (outer : List Grip) (c : Call) :
    Option (FlatBuilder × Answer) :=
  match c with
  | .drop => some ({ f with grips := outer }, .reply .done)
  | .finish => f.take (Arena.finish f.model g.cell) fun f _ => (f, .done)
  | .view view =>
    { f with grips := outer }.take (Arena.checkView f.model g.cell view g.kind) fun f _ =>
      ({ f with grips := { g with view := view } :: outer },
        match g.kind with
        | .map => .map view
        | _ => .list view)
  | _ => f.ignore

/-- A call to the innermost compound. -/
def callGrip (f : FlatBuilder) (g : Grip) (outer : List Grip) (c : Call) :
    Option (FlatBuilder × Answer) :=
  match g.kind, c with
  | .map, .entry key => f.take (Arena.beginEntry f.model g.cell key g.view) await
  | .map, .key => f.take (Arena.beginKey f.model g.cell g.view) await
  | .map, .value => f.take (Arena.beginValue f.model g.cell g.view) await
  | .list, .value => f.take (Arena.beginItem f.model g.cell g.view) await
  | _, c => f.callCompound g outer c

/-- One single call. -/
def callOnce (f : FlatBuilder) (c : Call) : Option (FlatBuilder × Answer) :=
  match f.opening, f.grips with
  | some (p, spec), _ => f.callOpening p spec c
  | none, g :: outer => f.callGrip g outer c
  | none, [] =>
    match c with
    | .root => f.take (openRoot f.prototype) await
    | .state => some (f, .state f.arena.stage)
    | _ => f.ignore

/-- Single calls in order, up to the first that is not taken. -/
def perform (f : FlatBuilder) : List Call → Option (FlatBuilder × Answer)
  | [] => some (f, .reply .done)
  | c :: rest => do
    let (f, answer) ← f.callOnce c
    if answer.accepted then f.perform rest else some (f, answer)

/-- Assemble a tree in the opening, and leave what that opened. -/
def assemble (f : FlatBuilder) (calls : List Call) : Option (FlatBuilder × Answer) :=
  match f.opening with
  | some _ => (f.perform calls).map fun (f', answer) =>
    ({ f' with grips := f.grips, opening := none }, answer)
  | none => f.ignore

/-- One call. -/
def call (f : FlatBuilder) (c : Call) : Option (FlatBuilder × Answer) :=
  match c with
  | .copy d => f.assemble d.copyCalls
  | .fill d => f.assemble d.fillCalls
  | c => f.callOnce c

/-- Calls in order, with their answers. -/
def run (f : FlatBuilder) : List Call → Option (FlatBuilder × List Answer)
  | [] => some (f, [])
  | c :: rest => do
    let (f, answer) ← f.call c
    let (f, answers) ← f.run rest
    return (f, answer :: answers)

/-- Freeze the whole. -/
def freezeRoot (p : Prototype) : Arena.Step TypedValue := do
  let a ← get
  match a.stage with
  | .finished =>
    set { a with root := .absent }
    return ⟨p.model, p.type, ← Arena.freezeValue p.model p.type a.root⟩
  | .errored => throw (.assembly .builderErrored)
  | .initial | .building => throw (.assembly .notFinished)

/-- The finished value, and what remains of the arena. -/
def build (f : FlatBuilder) : Option (Except NodeError TypedValue × Arena) :=
  freezeRoot f.prototype f.arena

end FlatBuilder

end DualView
