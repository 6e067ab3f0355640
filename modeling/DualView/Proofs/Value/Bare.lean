import DualView.Value.Basic
import Mathlib.Data.List.Basic

/-!
# Values without their layouts

The layout of a slot says where its content is kept, and nothing else of a value depends on it.
`Value.bare` keeps every slot in place: two values differ in layouts alone if they have one bare
value.

* `Value.same_bare`: equality does not see layouts.
* `Value.same_of_bare_eq`: values that differ in layouts alone are equal, unless they hold a NaN.
-/

namespace DualView

def Maybe.map {α β : Type} (g : α → β) : Maybe α → Maybe β
  | absent => absent
  | null => null
  | value a => value (g a)

section Maybe

variable {α β : Type} (g : α → β)

@[simp] theorem Maybe.isAbsent_map (content : Maybe α) :
    (content.map g).isAbsent = content.isAbsent := by
  cases content <;> rfl

@[simp] theorem Maybe.isNull_map (content : Maybe α) : (content.map g).isNull = content.isNull := by
  cases content <;> rfl

end Maybe

/-! ## Bare values -/

namespace Value

mutual

/-- The value with every slot kept in place. -/
def bare : Value → Value
  | scalar a => scalar a
  | list items => list (bareSlots items)
  | map ⟨entries⟩ => map ⟨bareEntries entries⟩
  | struct fields => struct (bareSlots fields)
  | union member v => union member v.bare
  | enum member => enum member

def bareMaybe : Maybe Value → Maybe Value
  | .absent => .absent
  | .null => .null
  | .value v => .value v.bare

def bareSlots : List (Slot Value) → List (Slot Value)
  | [] => []
  | ⟨_, content⟩ :: rest => ⟨.embedded, bareMaybe content⟩ :: bareSlots rest

def bareEntries : List (Entry Value) → List (Entry Value)
  | [] => []
  | ⟨key, text, ⟨_, content⟩⟩ :: rest =>
    ⟨key.bare, text, ⟨.embedded, bareMaybe content⟩⟩ :: bareEntries rest

end

theorem bareMaybe_eq_map (content : Maybe Value) : bareMaybe content = content.map bare := by
  cases content <;> rw [bareMaybe, Maybe.map]

end Value

/-- The slot kept in place, and all that is in it. -/
def Slot.bare (slot : Slot Value) : Slot Value := ⟨.embedded, slot.content.map Value.bare⟩

/-- The entry with its key bare and its slot kept in place. -/
def Entry.bare (e : Entry Value) : Entry Value := ⟨e.key.bare, e.text, e.slot.bare⟩

def Dict.bare (d : Dict Value) : Dict Value := ⟨d.entries.map Entry.bare⟩

namespace Value

theorem bareSlots_eq_map (slots : List (Slot Value)) : bareSlots slots = slots.map Slot.bare := by
  induction slots with
  | nil => rw [bareSlots, List.map_nil]
  | cons slot rest ih => rw [bareSlots, List.map_cons, ih, bareMaybe_eq_map, Slot.bare]

theorem bareEntries_eq_map (entries : List (Entry Value)) :
    bareEntries entries = entries.map Entry.bare := by
  induction entries with
  | nil => rw [bareEntries, List.map_nil]
  | cons e rest ih => rw [bareEntries, List.map_cons, ih, bareMaybe_eq_map, Entry.bare, Slot.bare]

@[simp] theorem bare_scalar (a : Scalar) : (scalar a).bare = scalar a := by rw [bare]

@[simp] theorem bare_list (slots : List (Slot Value)) :
    (list slots).bare = list (slots.map Slot.bare) := by
  rw [bare, bareSlots_eq_map]

@[simp] theorem bare_map (d : Dict Value) : (map d).bare = map d.bare := by
  rw [bare, bareEntries_eq_map, Dict.bare]

@[simp] theorem bare_struct (slots : List (Slot Value)) :
    (struct slots).bare = struct (slots.map Slot.bare) := by
  rw [bare, bareSlots_eq_map]

@[simp] theorem bare_union (i : Nat) (v : Value) : (union i v).bare = union i v.bare := by rw [bare]

@[simp] theorem bare_enum (i : Nat) : (enum i).bare = enum i := by rw [bare]

end Value

@[simp] theorem Slot.bare_content (slot : Slot Value) :
    slot.bare.content = slot.content.map Value.bare := rfl

theorem Slot.bare_eq_of_content {a b : Slot Value}
    (h : a.content.map Value.bare = b.content.map Value.bare) : a.bare = b.bare :=
  congrArg (Slot.mk .embedded) h

@[simp] theorem Slot.isAbsent_bare (slot : Slot Value) : slot.bare.isAbsent = slot.isAbsent :=
  Maybe.isAbsent_map ..

@[simp] theorem Slot.isNull_bare (slot : Slot Value) : slot.bare.isNull = slot.isNull :=
  Maybe.isNull_map ..

@[simp] theorem Entry.slot_bare (e : Entry Value) : e.bare.slot = e.slot.bare := rfl

@[simp] theorem Entry.text_bare (e : Entry Value) : e.bare.text = e.text := rfl

@[simp] theorem Dict.entries_bare (d : Dict Value) : d.bare.entries = d.entries.map Entry.bare := rfl

@[simp] theorem Dict.get?_bare (d : Dict Value) (text : String) :
    d.bare.get? text = (d.get? text).map Entry.bare := by
  rw [Dict.get?, Dict.get?, Dict.entries_bare, List.find?_map]
  rfl

@[simp] theorem Dict.contains_bare (d : Dict Value) (text : String) :
    d.bare.contains text = d.contains text := by
  rw [Dict.contains, Dict.contains, Dict.entries_bare, List.any_map]
  rfl

@[simp] theorem Dict.insert_bare (d : Dict Value) (e : Entry Value) :
    d.bare.insert e.bare = (d.insert e).bare := by
  rw [Dict.insert, Dict.insert, Dict.insert?, Dict.insert?, Entry.text_bare, Dict.contains_bare]
  by_cases taken : d.contains e.text = true
  · rw [if_pos taken, if_pos taken]
    rfl
  · rw [if_neg taken, if_neg taken]
    simp [Dict.bare]

/-! ## Equality -/

namespace Value

mutual

/-- **Equality does not see layouts.** -/
theorem same_bare : (v w : Value) → v.bare.same w.bare = v.same w
  | scalar _, w => by cases w <;> simp [same]
  | list items, w => by
    cases w with
    | list others => simpa [same, bare] using sameSlots_bare items others
    | _ => simp [same]
  | map ⟨entries⟩, w => by
    cases w with
    | map others =>
      obtain ⟨others⟩ := others
      simpa [same, bare] using sameEntries_bare entries others
    | _ => simp [same, bare]
  | struct fields, w => by
    cases w with
    | struct others => simpa [same, bare] using sameSlots_bare fields others
    | _ => simp [same]
  | union _ v, w => by
    cases w with
    | union _ w => simp [same, same_bare v w]
    | _ => simp [same]
  | enum _, w => by cases w <;> simp [same]

theorem sameMaybe_bare : (content other : Maybe Value) →
    sameMaybe (bareMaybe content) (bareMaybe other) = sameMaybe content other
  | .absent, other => by cases other <;> simp [sameMaybe, bareMaybe]
  | .null, other => by cases other <;> simp [sameMaybe, bareMaybe]
  | .value v, other => by
    cases other with
    | value w => simpa [sameMaybe, bareMaybe] using same_bare v w
    | _ => simp [sameMaybe, bareMaybe]

theorem sameSlots_bare : (slots others : List (Slot Value)) →
    sameSlots (bareSlots slots) (bareSlots others) = sameSlots slots others
  | [], others => by cases others <;> simp [sameSlots, bareSlots]
  | ⟨_, content⟩ :: rest, others => by
    cases others with
    | nil => simp [sameSlots, bareSlots]
    | cons other others =>
      simp [sameSlots, bareSlots, sameMaybe_bare content other.content, sameSlots_bare rest others]

theorem sameEntries_bare : (entries others : List (Entry Value)) →
    sameEntries (bareEntries entries) (bareEntries others) = sameEntries entries others
  | [], others => by cases others <;> simp [sameEntries, bareEntries]
  | ⟨key, text, ⟨_, content⟩⟩ :: rest, others => by
    cases others with
    | nil => simp [sameEntries, bareEntries]
    | cons other others =>
      simp [sameEntries, bareEntries, same_bare key other.key,
        sameMaybe_bare content other.slot.content, sameEntries_bare rest others]

end

/-! ## Values that equal themselves -/

mutual

/-- The content of all leaves, those of keys too. -/
def leaves : Value → List Scalar
  | scalar a => [a]
  | list items => slotLeaves items
  | map ⟨entries⟩ => entryLeaves entries
  | struct fields => slotLeaves fields
  | union _ v => v.leaves
  | enum _ => []

def maybeLeaves : Maybe Value → List Scalar
  | .absent | .null => []
  | .value v => v.leaves

def slotLeaves : List (Slot Value) → List Scalar
  | [] => []
  | ⟨_, content⟩ :: rest => maybeLeaves content ++ slotLeaves rest

def entryLeaves : List (Entry Value) → List Scalar
  | [] => []
  | ⟨key, _, ⟨_, content⟩⟩ :: rest => key.leaves ++ maybeLeaves content ++ entryLeaves rest

end

section Leaves

variable {a : Scalar}

theorem mem_maybeLeaves {content : Maybe Value} :
    a ∈ maybeLeaves content ↔ ∃ v, content = .value v ∧ a ∈ v.leaves := by
  cases content <;> simp [maybeLeaves]

theorem mem_slotLeaves {slots : List (Slot Value)} :
    a ∈ slotLeaves slots ↔ ∃ slot ∈ slots, ∃ v, slot.content = .value v ∧ a ∈ v.leaves := by
  induction slots with
  | nil => simp [slotLeaves]
  | cons slot rest ih =>
    rw [slotLeaves, List.mem_append, mem_maybeLeaves, ih, List.exists_mem_cons_iff]

theorem mem_entryLeaves {entries : List (Entry Value)} :
    a ∈ entryLeaves entries ↔
      ∃ e ∈ entries, a ∈ e.key.leaves ∨ ∃ v, e.slot.content = .value v ∧ a ∈ v.leaves := by
  induction entries with
  | nil => simp [entryLeaves]
  | cons e rest ih =>
    rw [entryLeaves, List.mem_append, List.mem_append, mem_maybeLeaves, ih,
      List.exists_mem_cons_iff]

end Leaves

/-- Every float in the value is a number. -/
def NaNFree (v : Value) : Prop := ∀ a ∈ v.leaves, a.isNaN = false

mutual

/-- A value equals itself, unless it holds a NaN. -/
theorem same_self : (v : Value) → v.NaNFree → v.same v = true
  | scalar a, h => by
    rw [same]
    exact Scalar.same_self (h a (by simp [leaves]))
  | list items, h => by
    rw [same]
    exact sameSlots_self items (by simpa [NaNFree, leaves] using h)
  | map ⟨entries⟩, h => by
    rw [same]
    exact sameEntries_self entries (by simpa [NaNFree, leaves] using h)
  | struct fields, h => by
    rw [same]
    exact sameSlots_self fields (by simpa [NaNFree, leaves] using h)
  | union _ v, h => by
    simp [same, same_self v (by simpa [NaNFree, leaves] using h)]
  | enum _, _ => by simp [same]

theorem sameMaybe_self : (content : Maybe Value) → (∀ a ∈ maybeLeaves content, a.isNaN = false) →
    sameMaybe content content = true
  | .absent, _ => by rw [sameMaybe]
  | .null, _ => by rw [sameMaybe]
  | .value v, h => by
    rw [sameMaybe]
    exact same_self v (by simpa [NaNFree, maybeLeaves] using h)

theorem sameSlots_self : (slots : List (Slot Value)) →
    (∀ a ∈ slotLeaves slots, a.isNaN = false) → sameSlots slots slots = true
  | [], _ => by simp [sameSlots]
  | ⟨_, content⟩ :: rest, h => by
    rw [slotLeaves, List.forall_mem_append] at h
    simp [sameSlots, sameMaybe_self content h.1, sameSlots_self rest h.2]

theorem sameEntries_self : (entries : List (Entry Value)) →
    (∀ a ∈ entryLeaves entries, a.isNaN = false) → sameEntries entries entries = true
  | [], _ => by simp [sameEntries]
  | ⟨key, _, ⟨_, content⟩⟩ :: rest, h => by
    rw [entryLeaves, List.forall_mem_append, List.forall_mem_append] at h
    simp [sameEntries, same_self key h.1.1, sameMaybe_self content h.1.2, sameEntries_self rest h.2]

end

/-- Values that differ in layouts alone equal the same values, on either side. -/
theorem same_congr {v w : Value} (eq : v.bare = w.bare) (x : Value) :
    v.same x = w.same x ∧ x.same v = x.same w := by
  constructor
  · rw [← same_bare v, eq, same_bare]
  · rw [← same_bare x, eq, same_bare]

/-- **Values that differ in layouts alone are equal**, unless they hold a NaN. -/
theorem same_of_bare_eq {v w : Value} (eq : v.bare = w.bare) (numbers : v.NaNFree) :
    v.same w = true :=
  (same_congr eq v).2.symm.trans (same_self v numbers)

end Value

end DualView
