import DualView.Layout.Basic

/-!
# Slots and keyed entries

A slot holds a value, a null, or nothing, together with the layout chosen for it.  A `Dict` keeps
entries in the order in which they were inserted, each under a text that no other entry has.
-/

namespace DualView

/-! ## Slots -/

/-- A value that may be lacking: never given, or given as null. -/
inductive Maybe (α : Type)
  | absent
  | null
  | value (a : α)
  deriving DecidableEq

namespace Maybe

variable {α : Type}

def isAbsent : Maybe α → Bool
  | absent => true
  | null | value _ => false

def isNull : Maybe α → Bool
  | null => true
  | absent | value _ => false

def value? : Maybe α → Option α
  | value a => some a
  | absent | null => none

end Maybe

/-- The content of a slot and where it is kept. -/
structure Slot (α : Type) where
  layout : Layout
  content : Maybe α
  deriving DecidableEq

namespace Slot

variable {α : Type}

/-- A value kept in place. -/
def ofValue (a : α) : Slot α := ⟨.embedded, .value a⟩

def isAbsent (s : Slot α) : Bool := s.content.isAbsent

def isNull (s : Slot α) : Bool := s.content.isNull

end Slot

/-! ## Entries -/

/-- An entry of a map: its key, the text that represents the key, and its value. -/
structure Entry (α : Type) where
  key : α
  text : String
  slot : Slot α
  deriving DecidableEq

/-- Entries in insertion order. -/
structure Dict (α : Type) where
  entries : List (Entry α)
  deriving DecidableEq

namespace Dict

variable {α : Type}

def empty : Dict α := ⟨[]⟩

def size (d : Dict α) : Nat := d.entries.length

def isEmpty (d : Dict α) : Bool := d.entries.isEmpty

/-- The entry under a text. -/
def get? (d : Dict α) (text : String) : Option (Entry α) := d.entries.find? (·.text == text)

def contains (d : Dict α) (text : String) : Bool := d.entries.any (·.text == text)

/-- Append an entry, unless its text is taken. -/
def insert? (d : Dict α) (e : Entry α) : Option (Dict α) :=
  if d.contains e.text then none else some ⟨d.entries ++ [e]⟩

/-- Append an entry; one whose text is taken leaves the entries as they are. -/
def insert (d : Dict α) (e : Entry α) : Dict α := (d.insert? e).getD d

/-- Insert entries in order. -/
def ofList (es : List (Entry α)) : Dict α := es.foldl insert empty

end Dict

end DualView
