import DualView.Assembly.Opening
import DualView.Proofs.Schema.Naming

/-!
# Values that fit their types

`Schema.Fits` says when a stored value is one of a type; it reads the declarations and knows nothing
of how values come to be.  A struct has one slot for each field, a slot lacks a value only where its
declaration allows it, and each entry of a map stands under the text that represents its key.

* `Schema.fits_list_iff`, `Schema.fits_map_iff`, `Schema.fits_struct_iff`: what it takes to fit a
  declaration with slots, the slots taken together as `Schema.Admits`.
* `Dict.get?_text`: an entry is found under its own text.
* `Schema.parts`: a value and all that is inside it, each part with its type; with the value, all
  of them fit (`Schema.Fits.of_mem_parts`).
-/

namespace DualView

/-! ## Slots and entries -/

def Maybe.Allowed {α : Type} (optional nullable : Bool) : Maybe α → Prop
  | absent => optional = true
  | null => nullable = true
  | value _ => True

theorem Maybe.Allowed.present {α : Type} {nullable : Bool} {content : Maybe α}
    (h : content.Allowed false nullable) :
    content.isAbsent = false ∧ (content = null → nullable = true) := by
  cases content with
  | absent => contradiction
  | null => exact ⟨rfl, fun _ => h⟩
  | value v => exact ⟨rfl, nofun⟩

/-- An entry is found under its own text. -/
theorem Dict.get?_text {α : Type} {d : Dict α} (apart : (d.entries.map (·.text)).Nodup)
    {e : Entry α} (h : e ∈ d.entries) : d.get? e.text = some e :=
  find?_eq_some_of_nodup Entry.text apart h

namespace Schema

def Text (s : Schema) (type : TypeId) (v : Value) (text : String) : Prop :=
  (Node.typed ⟨s, type, .representation, v⟩).asString = .ok text

/-! ## Fitting -/

/-- A stored value is a value of a type. -/
inductive Fits (s : Schema) : TypeId → Value → Prop
  | scalar {type : TypeId} {a : Scalar} (body : s.body type = .scalar a.kind) :
      Fits s type (.scalar a)
  | list {type elem : TypeId} {nullable : Bool} {slots : List (Slot Value)}
      (body : s.body type = .list elem nullable)
      (states : ∀ slot ∈ slots, slot.content.Allowed false nullable)
      (values : ∀ slot ∈ slots, ∀ v, slot.content = .value v → Fits s elem v) :
      Fits s type (.list slots)
  | map {type key value : TypeId} {nullable : Bool} {nulls : NullPolicy} {dict : Dict Value}
      (body : s.body type = .map key value nullable nulls)
      (keys : ∀ e ∈ dict.entries, Fits s key e.key)
      (texts : ∀ e ∈ dict.entries, s.Text key e.key e.text)
      (apart : (dict.entries.map (·.text)).Nodup)
      (states : ∀ e ∈ dict.entries, e.slot.content.Allowed false nullable)
      (values : ∀ e ∈ dict.entries, ∀ v, e.slot.content = .value v → Fits s value v) :
      Fits s type (.map dict)
  | struct {type : TypeId} {fields : List (Field TypeId)} {repr : StructRepr}
      {slots : List (Slot Value)} (body : s.body type = .struct fields repr)
      (length : slots.length = fields.length)
      (states : ∀ p ∈ fields.zip slots, p.2.content.Allowed p.1.optional p.1.nullable)
      (values : ∀ p ∈ fields.zip slots, ∀ v, p.2.content = .value v → Fits s p.1.type v) :
      Fits s type (.struct slots)
  | union {type member : TypeId} {members : List TypeId} {repr : UnionRepr} {i : Nat} {v : Value}
      (body : s.body type = .union members repr) (at_member : members[i]? = some member)
      (value : Fits s member v) : Fits s type (.union i v)
  | enum {type : TypeId} {members : List String} {repr : EnumRepr} {i : Nat}
      (body : s.body type = .enum members repr) (bound : i < members.length) :
      Fits s type (.enum i)

/-- A slot of a type may have this content. -/
def Admits (s : Schema) (type : TypeId) (optional nullable : Bool) : Maybe Value → Prop
  | .absent => optional = true
  | .null => nullable = true
  | .value v => s.Fits type v

section Forms

variable {s : Schema} {type : TypeId}

theorem admits_iff {optional nullable : Bool} {content : Maybe Value} :
    s.Admits type optional nullable content ↔
      content.Allowed optional nullable ∧ ∀ v, content = .value v → s.Fits type v := by
  cases content <;> simp [Admits, Maybe.Allowed]

theorem fits_list_iff {elem : TypeId} {nullable : Bool} (body : s.body type = .list elem nullable)
    {slots : List (Slot Value)} :
    s.Fits type (.list slots) ↔ ∀ slot ∈ slots, s.Admits elem false nullable slot.content := by
  constructor
  · intro h
    cases h with
    | list body' states values =>
      cases body.symm.trans body'
      intro slot hs
      exact admits_iff.mpr ⟨states slot hs, values slot hs⟩
  · intro h
    exact .list body (fun slot hs => (admits_iff.mp (h slot hs)).1)
      fun slot hs => (admits_iff.mp (h slot hs)).2

/-- An entry of a map has a key that fits, stands under the text of its key, and has a slot of the
value type. -/
structure FitsEntry (s : Schema) (key value : TypeId) (nullable : Bool) (e : Entry Value) :
    Prop where
  key_fits : s.Fits key e.key
  text_eq : s.Text key e.key e.text
  slot_admits : s.Admits value false nullable e.slot.content

theorem FitsEntry.present {key value : TypeId} {nullable : Bool} {e : Entry Value}
    (h : s.FitsEntry key value nullable e) : e.slot.isAbsent = false :=
  (admits_iff.mp h.slot_admits).1.present.1

theorem fits_map_iff {key value : TypeId} {nullable : Bool} {nulls : NullPolicy}
    (body : s.body type = .map key value nullable nulls) {dict : Dict Value} :
    s.Fits type (.map dict) ↔
      (∀ e ∈ dict.entries, s.FitsEntry key value nullable e) ∧
        (dict.entries.map (·.text)).Nodup := by
  constructor
  · intro h
    cases h with
    | map body' keys texts apart states values =>
      cases body.symm.trans body'
      exact ⟨fun e he => ⟨keys e he, texts e he, admits_iff.mpr ⟨states e he, values e he⟩⟩, apart⟩
  · rintro ⟨h, apart⟩
    exact .map body (fun e he => (h e he).key_fits) (fun e he => (h e he).text_eq) apart
      (fun e he => (admits_iff.mp (h e he).slot_admits).1)
      fun e he => (admits_iff.mp (h e he).slot_admits).2

theorem fits_struct_iff {fields : List (Field TypeId)} {repr : StructRepr}
    (body : s.body type = .struct fields repr) {slots : List (Slot Value)} :
    s.Fits type (.struct slots) ↔
      slots.length = fields.length ∧
        ∀ p ∈ fields.zip slots, s.Admits p.1.type p.1.optional p.1.nullable p.2.content := by
  constructor
  · intro h
    cases h with
    | struct body' length states values =>
      cases body.symm.trans body'
      exact ⟨length, fun p hp => admits_iff.mpr ⟨states p hp, values p hp⟩⟩
  · rintro ⟨length, h⟩
    exact .struct body length (fun p hp => (admits_iff.mp (h p hp)).1)
      fun p hp => (admits_iff.mp (h p hp)).2

theorem fits_text (body : s.body type = .scalar .string) {v : Value} (h : s.Fits type v) :
    ∃ text, v = .scalar (.string text) := by
  cases h with
  | @scalar _ a body' =>
    cases a with
    | string text => exact ⟨text, rfl⟩
    | _ => simp [body, Scalar.kind] at body'
  | list body' states values => simp [body] at body'
  | map body' keys texts apart states values => simp [body] at body'
  | struct body' length states values => simp [body] at body'
  | union body' at_member value => simp [body] at body'
  | enum body' bound => simp [body] at body'

theorem fits_slots {fields : List (Field TypeId)} {repr : StructRepr}
    (body : s.body type = .struct fields repr) {v : Value} (h : s.Fits type v) :
    ∃ slots, v = .struct slots := by
  cases h with
  | struct body' length states values => exact ⟨_, rfl⟩
  | scalar body' => simp [body] at body'
  | list body' states values => simp [body] at body'
  | map body' keys texts apart states values => simp [body] at body'
  | union body' at_member value => simp [body] at body'
  | enum body' bound => simp [body] at body'

end Forms

/-! ## Parts -/

mutual

/-- A value of a type and all that is inside it, keys of maps included, each with its type. -/
def parts (s : Schema) (type : TypeId) : Value → List (TypeId × Value)
  | .scalar a => [(type, .scalar a)]
  | .list slots =>
    (type, .list slots) ::
      match s.body type with
      | .list elem _ => itemParts s elem slots
      | _ => []
  | .map ⟨entries⟩ =>
    (type, .map ⟨entries⟩) ::
      match s.body type with
      | .map key value _ _ => entryParts s key value entries
      | _ => []
  | .struct slots =>
    (type, .struct slots) ::
      match s.body type with
      | .struct fields _ => fieldParts s fields slots
      | _ => []
  | .union i v =>
    (type, .union i v) ::
      match s.body type with
      | .union members _ => match members[i]? with
        | some member => parts s member v
        | none => []
      | _ => []
  | .enum i => [(type, .enum i)]

def contentParts (s : Schema) (type : TypeId) : Maybe Value → List (TypeId × Value)
  | .value v => parts s type v
  | .absent | .null => []

def itemParts (s : Schema) (elem : TypeId) : List (Slot Value) → List (TypeId × Value)
  | [] => []
  | ⟨_, content⟩ :: rest => contentParts s elem content ++ itemParts s elem rest

def entryParts (s : Schema) (key value : TypeId) : List (Entry Value) → List (TypeId × Value)
  | [] => []
  | ⟨k, _, ⟨_, content⟩⟩ :: rest =>
    parts s key k ++ contentParts s value content ++ entryParts s key value rest

def fieldParts (s : Schema) (fields : List (Field TypeId)) :
    List (Slot Value) → List (TypeId × Value)
  | [] => []
  | ⟨_, content⟩ :: rest =>
    match fields with
    | [] => []
    | f :: fields => contentParts s f.type content ++ fieldParts s fields rest

end

section Parts

variable {s : Schema} {type : TypeId}

theorem mem_parts_self (v : Value) : (type, v) ∈ s.parts type v := by
  cases v with
  | map dict => cases dict; simp [parts]
  | _ => simp [parts]

theorem mem_contentParts {content : Maybe Value} {q : TypeId × Value} :
    q ∈ s.contentParts type content ↔ ∃ v, content = .value v ∧ q ∈ s.parts type v := by
  cases content <;> simp [contentParts]

theorem mem_itemParts {elem : TypeId} {slots : List (Slot Value)} {q : TypeId × Value} :
    q ∈ s.itemParts elem slots ↔
      ∃ slot ∈ slots, ∃ v, slot.content = .value v ∧ q ∈ s.parts elem v := by
  induction slots with
  | nil => simp [itemParts]
  | cons slot rest ih =>
    rw [itemParts, List.mem_append, mem_contentParts, ih, List.exists_mem_cons_iff]

theorem mem_entryParts {key value : TypeId} {entries : List (Entry Value)} {q : TypeId × Value} :
    q ∈ s.entryParts key value entries ↔
      ∃ e ∈ entries, q ∈ s.parts key e.key ∨
        ∃ v, e.slot.content = .value v ∧ q ∈ s.parts value v := by
  induction entries with
  | nil => simp [entryParts]
  | cons e rest ih =>
    rw [entryParts, List.mem_append, List.mem_append, mem_contentParts, ih,
      List.exists_mem_cons_iff]

theorem mem_fieldParts {fields : List (Field TypeId)} {slots : List (Slot Value)}
    {q : TypeId × Value} :
    q ∈ s.fieldParts fields slots ↔
      ∃ p ∈ fields.zip slots, ∃ v, p.2.content = .value v ∧ q ∈ s.parts p.1.type v := by
  induction slots generalizing fields with
  | nil => simp [fieldParts]
  | cons slot rest ih =>
    cases fields with
    | nil => simp [fieldParts]
    | cons f fields =>
      rw [fieldParts, List.mem_append, mem_contentParts, ih, List.zip_cons_cons,
        List.exists_mem_cons_iff]

theorem parts_item {elem : TypeId} {nullable : Bool} (body : s.body type = .list elem nullable)
    {slots : List (Slot Value)} {slot : Slot Value} (h : slot ∈ slots) {v : Value}
    (hv : slot.content = .value v) : s.parts elem v ⊆ s.parts type (.list slots) := by
  rw [parts, body]
  intro q hq
  exact List.mem_cons_of_mem _ (mem_itemParts.mpr ⟨slot, h, v, hv, hq⟩)

theorem parts_entry {key value : TypeId} {nullable : Bool} {nulls : NullPolicy}
    (body : s.body type = .map key value nullable nulls) {dict : Dict Value} {e : Entry Value}
    (h : e ∈ dict.entries) :
    s.parts key e.key ⊆ s.parts type (.map dict) ∧
      ∀ v, e.slot.content = .value v → s.parts value v ⊆ s.parts type (.map dict) := by
  obtain ⟨entries⟩ := dict
  rw [parts, body]
  refine ⟨fun q hq => ?_, fun v hv q hq => ?_⟩
  · exact List.mem_cons_of_mem _ (mem_entryParts.mpr ⟨e, h, .inl hq⟩)
  · exact List.mem_cons_of_mem _ (mem_entryParts.mpr ⟨e, h, .inr ⟨v, hv, hq⟩⟩)

theorem parts_field {fields : List (Field TypeId)} {repr : StructRepr}
    (body : s.body type = .struct fields repr) {slots : List (Slot Value)}
    {p : Field TypeId × Slot Value} (h : p ∈ fields.zip slots) {v : Value}
    (hv : p.2.content = .value v) : s.parts p.1.type v ⊆ s.parts type (.struct slots) := by
  rw [parts, body]
  intro q hq
  exact List.mem_cons_of_mem _ (mem_fieldParts.mpr ⟨p, h, v, hv, hq⟩)

theorem parts_member {members : List TypeId} {repr : UnionRepr}
    (body : s.body type = .union members repr) {i : Nat} {member : TypeId}
    (h : members[i]? = some member) (v : Value) :
    s.parts member v ⊆ s.parts type (.union i v) := by
  rw [parts, body]
  simp only [h]
  exact List.subset_cons_self _ _

/-- All parts of a value that fits fit the types they have in it. -/
theorem Fits.of_mem_parts {v : Value} (h : s.Fits type v) {q : TypeId × Value}
    (hq : q ∈ s.parts type v) : s.Fits q.1 q.2 := by
  induction h with
  | scalar body =>
    obtain rfl := List.mem_singleton.mp hq
    exact .scalar body
  | enum body bound =>
    obtain rfl := List.mem_singleton.mp hq
    exact .enum body bound
  | list body states values ih =>
    rw [parts, body] at hq
    rcases List.mem_cons.mp hq with rfl | hq
    · exact .list body states values
    · obtain ⟨slot, hs, v, hv, hq⟩ := mem_itemParts.mp hq
      exact ih slot hs v hv hq
  | @map _ _ _ _ _ dict body keys texts apart states values ihk ihv =>
    obtain ⟨entries⟩ := dict
    rw [parts, body] at hq
    rcases List.mem_cons.mp hq with rfl | hq
    · exact .map body keys texts apart states values
    · obtain ⟨e, he, hq | ⟨v, hv, hq⟩⟩ := mem_entryParts.mp hq
      · exact ihk e he hq
      · exact ihv e he v hv hq
  | struct body length states values ih =>
    rw [parts, body] at hq
    rcases List.mem_cons.mp hq with rfl | hq
    · exact .struct body length states values
    · obtain ⟨p, hp, v, hv, hq⟩ := mem_fieldParts.mp hq
      exact ih p hp v hv hq
  | union body at_member value ih =>
    rw [parts, body] at hq
    rcases List.mem_cons.mp hq with rfl | hq
    · exact .union body at_member value
    · simp only [at_member] at hq
      exact ih hq

end Parts

end Schema

end DualView
