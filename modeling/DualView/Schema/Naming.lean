/-!
# Names on the outside

How declared names show in a representation.  A `Renaming` gives some names another key and leaves
the rest as they are.  `Labels` give each name a label of its own.  Both keep the pairs in the order
they were declared, and the first pair that matches decides.
-/

namespace DualView

/-! ## Renamings -/

/-- Pairs of a declared name and the key that stands for it; other names are their own keys. -/
structure Renaming where
  pairs : List (String × String)
  deriving DecidableEq

namespace Renaming

/-- No name is renamed. -/
def none : Renaming := ⟨[]⟩

/-- The key of a declared name. -/
def keyOf (r : Renaming) (name : String) : String := (r.pairs.lookup name).getD name

/-- The name behind a key.  The own name of a renamed thing is no key. -/
def nameOf? (r : Renaming) (key : String) : Option String :=
  match r.pairs.find? (·.2 == key) with
  | some (name, _) => some name
  | .none => if r.pairs.any (·.1 == key) then .none else some key

@[simp] theorem keyOf_none (name : String) : none.keyOf name = name := rfl

@[simp] theorem nameOf?_none (key : String) : none.nameOf? key = some key := rfl

end Renaming

/-! ## Labels -/

/-- Pairs of a declared name and its label. -/
structure Labels (β : Type) where
  pairs : List (String × β)
  deriving DecidableEq

namespace Labels

variable {β : Type} [DecidableEq β]

def labelOf? (l : Labels β) (name : String) : Option β := l.pairs.lookup name

def nameOf? (l : Labels β) (label : β) : Option String :=
  (l.pairs.find? fun p => decide (p.2 = label)).map (·.1)

end Labels

end DualView
