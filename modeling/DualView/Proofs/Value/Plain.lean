import DualView.Proofs.Schema.Resemblance
import DualView.Proofs.Value.Bare

/-!
# Values without layouts and texts

What is stored shows how it is represented in one place only: each entry of a map is kept under the
text of its key.  `Value.plain` drops these texts, and with them the layouts of slots.  Two values
with one plain value hold the same, under schemas that differ in representation alone.

* `Schema.Twins.get?_rel`: a key finds counterparts in maps with one plain value, whatever its
  texts.
-/

namespace DualView

/-! ## Plain values -/

namespace Value

mutual

/-- The value with every slot kept in place, and without the texts of keys. -/
def plain : Value → Value
  | scalar a => scalar a
  | list items => list (plainSlots items)
  | map ⟨entries⟩ => map ⟨plainEntries entries⟩
  | struct fields => struct (plainSlots fields)
  | union member v => union member v.plain
  | enum member => enum member

def plainMaybe : Maybe Value → Maybe Value
  | .absent => .absent
  | .null => .null
  | .value v => .value v.plain

def plainSlots : List (Slot Value) → List (Slot Value)
  | [] => []
  | ⟨_, content⟩ :: rest => ⟨.embedded, plainMaybe content⟩ :: plainSlots rest

def plainEntries : List (Entry Value) → List (Entry Value)
  | [] => []
  | ⟨key, _, ⟨_, content⟩⟩ :: rest =>
    ⟨key.plain, "", ⟨.embedded, plainMaybe content⟩⟩ :: plainEntries rest

end

theorem plainMaybe_eq_map (content : Maybe Value) : plainMaybe content = content.map plain := by
  cases content <;> rw [plainMaybe, Maybe.map]

end Value

/-- The slot kept in place, and what is in it plain. -/
def Slot.plain (slot : Slot Value) : Slot Value := ⟨.embedded, slot.content.map Value.plain⟩

/-- The entry without its text, its key and its slot plain. -/
def Entry.plain (e : Entry Value) : Entry Value := ⟨e.key.plain, "", e.slot.plain⟩

def Dict.plain (d : Dict Value) : Dict Value := ⟨d.entries.map Entry.plain⟩

namespace Value

theorem plainSlots_eq_map (slots : List (Slot Value)) :
    plainSlots slots = slots.map Slot.plain := by
  induction slots with
  | nil => rw [plainSlots, List.map_nil]
  | cons slot rest ih => rw [plainSlots, List.map_cons, ih, plainMaybe_eq_map, Slot.plain]

theorem plainEntries_eq_map (entries : List (Entry Value)) :
    plainEntries entries = entries.map Entry.plain := by
  induction entries with
  | nil => rw [plainEntries, List.map_nil]
  | cons e rest ih =>
    rw [plainEntries, List.map_cons, ih, plainMaybe_eq_map, Entry.plain, Slot.plain]

@[simp] theorem plain_scalar (a : Scalar) : (scalar a).plain = scalar a := by rw [plain]

@[simp] theorem plain_list (slots : List (Slot Value)) :
    (list slots).plain = list (slots.map Slot.plain) := by
  rw [plain, plainSlots_eq_map]

@[simp] theorem plain_map (d : Dict Value) : (map d).plain = map d.plain := by
  rw [plain, plainEntries_eq_map, Dict.plain]

@[simp] theorem plain_struct (slots : List (Slot Value)) :
    (struct slots).plain = struct (slots.map Slot.plain) := by
  rw [plain, plainSlots_eq_map]

@[simp] theorem plain_union (i : Nat) (v : Value) : (union i v).plain = union i v.plain := by
  rw [plain]

@[simp] theorem plain_enum (i : Nat) : (enum i).plain = enum i := by rw [plain]

end Value

@[simp] theorem Slot.isAbsent_plain (slot : Slot Value) : slot.plain.isAbsent = slot.isAbsent :=
  Maybe.isAbsent_map ..

theorem Value.eq_scalar_of_plain_eq {v : Value} {a : Scalar} (h : v.plain = .scalar a) :
    v = .scalar a := by
  cases v <;> simp at h
  rw [h]

/-! ## Entries under their keys -/

theorem find?_rel_of_forall₂ {α β : Type} {R : α → β → Prop} {l : List α} {r : List β}
    {p : α → Bool} {q : β → Bool} (all : List.Forall₂ R l r) (same : ∀ a b, R a b → p a = q b) :
    Option.Rel R (l.find? p) (r.find? q) := by
  induction all with
  | nil => exact .none
  | @cons a b _ _ hab _ ih =>
    rw [List.find?_cons, List.find?_cons, same a b hab]
    cases q b with
    | true => exact .some hab
    | false => exact ih

theorem Dict.contains_eq_isSome {α : Type} (d : Dict α) (text : String) :
    d.contains text = (d.get? text).isSome := by
  rw [Bool.eq_iff_iff, contains, get?, List.any_eq_true, List.find?_isSome]

namespace Schema

variable {s s' : Schema} {key value : TypeId} {nullable : Bool} {k : Value}

theorem TextKey.plain_eq (h : s.TextKey key) (fits : s.Fits key k) : k.plain = k := by
  cases h with
  | string body =>
    obtain ⟨content, rfl⟩ := fits_text body fits
    exact Value.plain_scalar _
  | enum body =>
    obtain ⟨i, rfl, -⟩ := fits_enum body fits
    exact Value.plain_enum i

/-- Entries of maps that hold the same, each under the text that its schema gives the key. -/
structure SameEntry (s s' : Schema) (key value : TypeId) (nullable : Bool) (e e' : Entry Value) :
    Prop where
  fits : s.FitsEntry key value nullable e
  fits' : s'.FitsEntry key value nullable e'
  plain_eq : e.plain = e'.plain

/-- Maps that fit and hold the same have the same entries. -/
theorem sameEntries_of_plain_eq {type : TypeId} {nulls nulls' : NullPolicy} {d d' : Dict Value}
    (body : s.body type = .map key value nullable nulls)
    (body' : s'.body type = .map key value nullable nulls') (fits : s.Fits type (.map d))
    (fits' : s'.Fits type (.map d')) (plain : d.plain = d'.plain) :
    List.Forall₂ (s.SameEntry s' key value nullable) d.entries d'.entries :=
  forall₂_of_map_eq (congrArg Dict.entries plain) fun e he e' he' same =>
    ⟨((fits_map_iff body).mp fits).1 e he, ((fits_map_iff body').mp fits').1 e' he', same⟩

namespace Twins

variable (twins : s.Twins s') {type : TypeId} {nulls nulls' : NullPolicy} {d d' : Dict Value}
  (body : s.body type = .map key value nullable nulls)
  (body' : s'.body type = .map key value nullable nulls')
include twins body body'

theorem key_eq {k k' : Value} (fits : s.Fits key k) (fits' : s'.Fits key k')
    (same : k.plain = k'.plain) : k = k' := by
  rwa [(twins.textKey body).plain_eq fits, (twins.symm.textKey body').plain_eq fits'] at same

variable (fits : s.Fits key k) (fits' : s'.Fits key k) {text text' : String}
  (ht : s.Text key k text) (ht' : s'.Text key k text')
include fits fits' ht ht'

/-- **A key finds the same entries, under the text that each schema gives it.** -/
theorem get?_rel (all : List.Forall₂ (s.SameEntry s' key value nullable) d.entries d'.entries) :
    Option.Rel (s.SameEntry s' key value nullable) (d.get? text) (d'.get? text') := by
  refine find?_rel_of_forall₂ all fun e e' h => ?_
  have found := (twins.textKey body).text_eq_iff twins.valid h.fits.key_fits fits
    h.fits.text_eq ht
  have found' := (twins.symm.textKey body').text_eq_iff twins.valid'
    h.fits'.key_fits fits' h.fits'.text_eq ht'
  rw [Bool.eq_iff_iff, beq_iff_eq, beq_iff_eq, found, found', twins.key_eq body body'
    h.fits.key_fits h.fits'.key_fits (congrArg Entry.key h.plain_eq)]

theorem contains_eq (all : List.Forall₂ (s.SameEntry s' key value nullable) d.entries d'.entries) :
    d.contains text = d'.contains text' := by
  rw [Dict.contains_eq_isSome, Dict.contains_eq_isSome]
  have found := twins.get?_rel body body' fits fits' ht ht' all
  obtain ⟨e, e', he, he', -⟩ | ⟨he, he'⟩ := rel_iff.mp found <;> rw [he, he']
  rfl

end Twins

end Schema

end DualView
