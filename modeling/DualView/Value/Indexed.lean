import DualView.Table
import DualView.Value.Basic

/-!
# Entries with an index

A `Dict` finds an entry by looking at one after the other.  An `IndexedDict` keeps a table of their
positions beside the entries, and finds an entry through it.
-/

namespace DualView

/-- Entries in insertion order, and where each of them stands. -/
structure IndexedDict (α : Type) where
  entries : List (Entry α)
  /-- The positions of the entries, by their texts. -/
  index : Table Nat

namespace IndexedDict

variable {α : Type}

def empty : IndexedDict α := ⟨[], .empty⟩

/-- The entries without the table. -/
def dict (d : IndexedDict α) : Dict α := ⟨d.entries⟩

def size (d : IndexedDict α) : Nat := d.entries.length

/-- The entry under a text. -/
def get? (d : IndexedDict α) (text : String) : Option (Entry α) :=
  (d.index.get? text).bind fun i => d.entries[i]?

/-- Append an entry, unless its text is taken, and say whether it was appended. -/
def insert (d : IndexedDict α) (e : Entry α) : IndexedDict α × Bool :=
  match d.index.get? e.text with
  | some _ => (d, false)
  | none => (⟨d.entries ++ [e], d.index.set e.text d.entries.length⟩, true)

/-- Insert entries in order, with what is said of each. -/
def insertEach (d : IndexedDict α) : List (Entry α) → IndexedDict α × List Bool
  | [] => (d, [])
  | e :: rest =>
    let (d, inserted) := d.insert e
    let (d, answers) := d.insertEach rest
    (d, inserted :: answers)

/-- Equality of keys, texts and contents, in order.  The tables are not compared. -/
def same (d d' : IndexedDict Value) : Bool := d.dict.same d'.dict

end IndexedDict

end DualView
