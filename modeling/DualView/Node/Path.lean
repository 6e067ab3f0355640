import DualView.Node.Read

/-!
# Paths

A path leads from a node to another in steps, each of which reads a node.
-/

namespace DualView

/-- One step from a node to another. -/
inductive Step
  /-- The value under a key. -/
  | key (text : String)
  /-- The item at a position. -/
  | index (position : Nat)
  /-- The value whose key is a data tree. -/
  | datumKey (tree : Datum)
  /-- The value whose key is the text of a key node. -/
  | textKey (text : String)
  /-- The value whose key is the null node. -/
  | nullKey
  /-- The value whose key is the node at a path from the root. -/
  | nodeKey (path : List Step)
  /-- The key of the entry at a position. -/
  | entryKey (position : Nat)
  /-- The value of the entry at a position. -/
  | entryValue (position : Nat)
  /-- The item at a position among all items. -/
  | item (position : Nat)
  /-- The representation view. -/
  | representation
  /-- The typed view. -/
  | typed

/-- Why a path leads nowhere. -/
inductive PathError
  | access (error : AccessError)
  /-- There is nothing at the position of an entry or item. -/
  | noItem
  deriving DecidableEq

namespace Node

/-- The element at a position of a list that may be refused. -/
def pick {α : Type} (elements : Except AccessError (List α)) (position : Nat) :
    Except PathError α := do
  match (← elements.mapError .access)[position]? with
  | some a => .ok a
  | none => .error .noItem

mutual

/-- The node that one step leads to, in a tree with a given root. -/
def take (root : Node) : Step → Node → Except PathError Node
  | .key text => fun n => (n.lookup text).mapError .access
  | .index position => fun n => (n.lookupIndex position).mapError .access
  | .datumKey d => fun n => (n.lookupNode (.basic d)).mapError .access
  | .textKey text => fun n => (n.lookupNode (.key text)).mapError .access
  | .nullKey => fun n => (n.lookupNode .null).mapError .access
  | .nodeKey path => fun n => do
    let key ← follow root path root
    (n.lookupNode key).mapError .access
  | .entryKey position => fun n => (·.1) <$> pick n.entries position
  | .entryValue position => fun n => (·.2) <$> pick n.entries position
  | .item position => fun n => pick n.values position
  | .representation => fun n => .ok n.representation
  | .typed => fun n => .ok (n.inView .typed)

/-- The node that steps lead to, in a tree with a given root. -/
def follow (root : Node) : List Step → Node → Except PathError Node
  | [] => fun n => .ok n
  | step :: rest => fun n => do follow root rest (← take root step n)

end

/-- The node at the end of a path. -/
def at? (root : Node) (path : List Step) : Except PathError Node := follow root path root

end Node

end DualView
