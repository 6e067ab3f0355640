import DualView.Assembly.Builder

/-!
# Copying call by call

`Builder.copyNode` copies a node into what a builder has open, with the calls that anyone can make:
it asks the node for its kind, reads it as that kind, and calls for what it reads.  The keys of a
map are copied like its values, each into an opening of its own.  The first read or call that fails
ends the copy.
-/

namespace DualView

/-! ## Calls in turn -/

/-- The call was taken. -/
def Reply.accepted : Reply → Bool
  | .notApplicable | .failed _ => false
  | _ => true

namespace Builder

/-- Go on after a call that was taken. -/
def andThen (r : Builder × Reply) (next : Builder → Builder × Reply) : Builder × Reply :=
  if r.2.accepted then next r.1 else r

/-- Go on with what is read. -/
def reading {α : Type} (b : Builder) (read : Except AccessError α)
    (next : (a : α) → read = .ok a → Builder × Reply) : Builder × Reply :=
  match read, next with
  | .ok a, next => next a rfl
  | .error e, _ => (b, .failed (.access e))

/-- Call for one element after the other. -/
def forEach {α : Type} (step : Builder → α → Builder × Reply) (b : Builder) :
    List α → Builder × Reply
  | [] => (b, .done)
  | a :: rest => andThen (step b a) fun b => forEach step b rest

/-- Finish the innermost compound and leave it. -/
def finishAndLeave (b : Builder) : Builder × Reply := andThen (b.call .finish) (·.call .drop)

/-- Copy a node into what is open. -/
def copyNode (b : Builder) (n : Node) : Builder × Reply :=
  match n.kind with
  | .null => b.call .null
  | .scalar kind => b.reading (n.asScalar kind) fun a _ => b.call (.scalar a)
  | .list =>
    b.reading n.length fun _ _ => andThen (b.call .list) fun b =>
      b.reading n.values fun items _h =>
        andThen (b.forEach (fun b ⟨c, _⟩ => andThen (b.call .value) (copyNode · c)) items.attach)
          finishAndLeave
  | .map =>
    b.reading n.length fun _ _ => andThen (b.call .map) fun b =>
      b.reading n.entries fun pairs _h =>
        andThen (b.forEach (fun b ⟨c, _⟩ =>
            andThen (andThen (b.call .key) (copyNode · c.1)) fun b =>
              andThen (b.call .value) (copyNode · c.2)) pairs.attach)
          finishAndLeave
termination_by n.weight
decreasing_by
  · exact Node.weight_lt_of_mem_values _h ‹_›
  · exact (Node.weight_lt_of_mem_pairs _h ‹_›).1
  · exact (Node.weight_lt_of_mem_pairs _h ‹_›).2

end Builder

/-- Copy a node into the root of a new builder. -/
def Prototype.copyRoot (p : Prototype) (n : Node) : Builder × Reply :=
  Builder.andThen ((Builder.ofPrototype p).call .root) (·.copyNode n)

end DualView
