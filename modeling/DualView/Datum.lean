import DualView.Scalar

/-!
# Data trees

A data tree is content without a schema: what representations are decoded from and encoded to.
-/

namespace DualView

/-- A tree of lists and maps over scalars and nulls.  The keys of a map are text, in order. -/
inductive Datum
  | null
  | scalar (content : Scalar)
  | list (items : List Datum)
  | map (entries : List (String × Datum))

instance : Inhabited Datum := ⟨.null⟩

namespace Datum

def kind : Datum → Kind
  | null => .null
  | scalar a => .scalar a.kind
  | list _ => .list
  | map _ => .map

/-- The text of a string leaf. -/
def text? : Datum → Option String
  | scalar (.string text) => some text
  | _ => none

/-! ## Equality -/

mutual

/-- Equality of content: maps compare in order, floats as numbers. -/
def same : Datum → Datum → Bool
  | null => fun e => match e with
    | null => true
    | _ => false
  | scalar a => fun e => match e with
    | scalar b => a.same b
    | _ => false
  | list items => fun e => match e with
    | list others => sameItems items others
    | _ => false
  | map entries => fun e => match e with
    | map others => sameEntries entries others
    | _ => false

def sameItems : List Datum → List Datum → Bool
  | [] => fun others => others.isEmpty
  | d :: rest => fun others => match others with
    | [] => false
    | e :: others => d.same e && sameItems rest others

def sameEntries : List (String × Datum) → List (String × Datum) → Bool
  | [] => fun others => others.isEmpty
  | (key, d) :: rest => fun others => match others with
    | [] => false
    | (key', e) :: others => key == key' && d.same e && sameEntries rest others

end

end Datum

end DualView
