import DualView.Scalar
import DualView.Value.Slot

/-!
# Stored values

A value is content without its type: members of unions and enums are positions, and the fields of a
struct stand in declaration order.  Equality sees neither layouts nor the signs of zeros.
-/

namespace DualView

/-- Stored content. -/
inductive Value
  | scalar (content : Scalar)
  | list (items : List (Slot Value))
  | map (entries : Dict Value)
  | struct (fields : List (Slot Value))
  /-- The position of the member that is present, and its value. -/
  | union (member : Nat) (value : Value)
  /-- The position of the member. -/
  | enum (member : Nat)

instance : Inhabited Value := ⟨.enum 0⟩

namespace Value

mutual

/-- Equality of content. -/
def same : Value → Value → Bool
  | scalar a => fun w => match w with
    | scalar b => a.same b
    | _ => false
  | list items => fun w => match w with
    | list others => sameSlots items others
    | _ => false
  | map ⟨entries⟩ => fun w => match w with
    | map ⟨others⟩ => sameEntries entries others
    | _ => false
  | struct fields => fun w => match w with
    | struct others => sameSlots fields others
    | _ => false
  | union member v => fun w => match w with
    | union other w => member == other && v.same w
    | _ => false
  | enum member => fun w => match w with
    | enum other => member == other
    | _ => false

def sameMaybe : Maybe Value → Maybe Value → Bool
  | .absent => fun other => match other with
    | .absent => true
    | _ => false
  | .null => fun other => match other with
    | .null => true
    | _ => false
  | .value v => fun other => match other with
    | .value w => v.same w
    | _ => false

def sameSlots : List (Slot Value) → List (Slot Value) → Bool
  | [] => fun others => others.isEmpty
  | ⟨_, content⟩ :: rest => fun others => match others with
    | [] => false
    | ⟨_, other⟩ :: others => sameMaybe content other && sameSlots rest others

def sameEntries : List (Entry Value) → List (Entry Value) → Bool
  | [] => fun others => others.isEmpty
  | ⟨key, text, ⟨_, content⟩⟩ :: rest => fun others => match others with
    | [] => false
    | ⟨key', text', ⟨_, other⟩⟩ :: others =>
      key.same key' && text == text' && sameMaybe content other && sameEntries rest others

end

end Value

/-- Equality of the contents of two slots. -/
def Slot.same (a b : Slot Value) : Bool := Value.sameMaybe a.content b.content

/-- Equality of keys, texts and contents, in order. -/
def Dict.same (a b : Dict Value) : Bool := Value.sameEntries a.entries b.entries

end DualView
