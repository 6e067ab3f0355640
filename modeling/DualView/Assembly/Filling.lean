import DualView.Assembly.Frame
import DualView.Node.Tree

/-!
# Filling openings

An opening is filled with a whole tree by filling the openings that its frames give out.  Two ways
of giving the keys of maps lead to the same frames: `Opening.copy` takes the tree of a node and
assembles each key in an opening of its own, `Opening.fill` takes a data tree and gives each key
as text.  The first failure is the outcome.
-/

namespace DualView

namespace Opening

mutual

/-- Fill an opening with the tree of a node, keys in openings of their own. -/
def copy (m : Model) (o : Opening) : Tree → Except NodeError Piece
  | .null => o.null m.schema
  | .scalar a => o.scalar m a
  | .list items => do
    let f ← copyItems m (← o.openList m) items
    f.close m
  | .map entries => do
    let f ← copyEntries m (← o.openMap m) entries
    f.close m

/-- Add items to a list. -/
def copyItems (m : Model) (f : ListFrame) : List Tree → Except NodeError ListFrame
  | [] => .ok f
  | t :: rest => do
    let (f, o) ← f.item m
    copyItems m (f.place (← copy m o t)) rest

/-- Add entries to a map. -/
def copyEntries (m : Model) (f : MapFrame) : List (Tree × Tree) → Except NodeError MapFrame
  | [] => .ok f
  | (k, t) :: rest => do
    let (f, ok) ← f.key m
    let f := f.place (← copy m ok k)
    let (f, o) ← f.value m
    copyEntries m (f.place (← copy m o t)) rest

end

mutual

/-- Fill an opening with a data tree, keys as text. -/
def fill (m : Model) (o : Opening) : Datum → Except NodeError Piece
  | .null => o.null m.schema
  | .scalar a => o.scalar m a
  | .list items => do
    let f ← fillItems m (← o.openList m) items
    f.close m
  | .map entries => do
    let f ← fillEntries m (← o.openMap m) entries
    f.close m

/-- Add items to a list. -/
def fillItems (m : Model) (f : ListFrame) : List Datum → Except NodeError ListFrame
  | [] => .ok f
  | d :: rest => do
    let (f, o) ← f.item m
    fillItems m (f.place (← fill m o d)) rest

/-- Add entries to a map. -/
def fillEntries (m : Model) (f : MapFrame) : List (String × Datum) → Except NodeError MapFrame
  | [] => .ok f
  | (key, d) :: rest => do
    let (f, o) ← f.entry m key
    fillEntries m (f.place (← fill m o d)) rest

end

end Opening

end DualView
