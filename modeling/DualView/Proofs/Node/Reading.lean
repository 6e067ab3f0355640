import DualView.Proofs.Codec.Keys
import DualView.Proofs.Node.Tree

/-!
# Levels of values that fit

What one level of a value looks like when the value fits its type: `Reading.Fits` says it once, for
all strategies and both views.  Fields have one slot each, keys tell them apart, nothing stands in a
map twice, and nothing reads as a misfit.  All that lies below fits in turn, so every question about
a node can be answered from its reading alone.

* `Schema.Fits.read`: a value that fits its type shows a level that fits.
* `Node.Fits.items`, `Node.Fits.entries`: what lies below a node that fits, fits.
-/

namespace DualView

/-! ## One level -/

structure Schema.FitsFields (s : Schema) (fields : List (Field TypeId)) (slots : List (Slot Value)) :
    Prop where
  length : slots.length = fields.length
  admits : ∀ p ∈ fields.zip slots, s.Admits p.1.type p.1.optional p.1.nullable p.2.content

/-- A level of a value that fits. -/
inductive Reading.Fits (s : Schema) : Reading → Prop
  | scalar (a : Scalar) : Fits s (.scalar a)
  | items {elem : TypeId} {nullable : Bool} {slots : List (Slot Value)}
      (admits : ∀ slot ∈ slots, s.Admits elem false nullable slot.content) :
      Fits s (.items elem slots)
  | tuple {fields : List (Field TypeId)} {slots : List (Slot Value)}
      (fits : s.FitsFields fields slots) (required : ∀ f ∈ fields, f.optional = false) :
      Fits s (.tuple fields slots)
  | pairs {keys : Renaming} {fields : List (Field TypeId)} {slots : List (Slot Value)}
      (tells : keys.Tells fields) (fits : s.FitsFields fields slots) :
      Fits s (.pairs keys fields slots)
  | entries {key value : TypeId} {nullable : Bool} {dict : Dict Value} {omitNulls : Bool}
      (fits : ∀ e ∈ dict.entries, s.FitsEntry key value nullable e)
      (apart : (dict.entries.map (·.text)).Nodup) : Fits s (.entries key value dict omitNulls)
  | fields {keys : Renaming} {fields : List (Field TypeId)} {slots : List (Slot Value)}
      (tells : keys.Tells fields) (fits : s.FitsFields fields slots) :
      Fits s (.fields keys fields slots)
  | choice {key : String} {member : TypeId} {value : Value} (fits : s.Fits member value) :
      Fits s (.choice key member value)

namespace Schema

variable {s : Schema} {view : View} {type : TypeId}

theorem Valid.readStruct_fits (valid : s.Valid) (once : view = .representation → s.RenamesOnce)
    {fields : List (Field TypeId)} {repr : StructRepr} {slots : List (Slot Value)}
    (body : s.body type = .struct fields repr) (fits : s.FitsFields fields slots) :
    (readStruct view fields repr slots).Fits s := by
  cases view with
  | typed => exact .fields (valid.tells_entries once body rfl) fits
  | representation =>
    cases repr with
    | map keys => exact .fields (valid.tells_entries once body rfl) fits
    | tuple => exact .tuple fits fun f hf => valid.tuple body hf
    | listpairs keys => exact .pairs (valid.tells_pairs (once rfl) body) fits
    | stringjoin separator => exact .scalar _

theorem Valid.readEnum_fits (valid : s.Valid) {members : List String} {repr : EnumRepr} {i : Nat}
    (body : s.body type = .enum members repr) (bound : i < members.length) :
    ∃ a, readEnum view members repr i = .scalar a := by
  have hi := List.getElem?_eq_getElem bound
  cases view with
  | typed => exact ⟨.string members[i], by simp [readEnum, hi]⟩
  | representation =>
    cases repr with
    | string keys =>
      exact ⟨.string (keys.keyOf members[i]), by simp [readEnum, EnumRepr.scalar?, EnumRepr.text?, hi]⟩
    | int values =>
      obtain ⟨x, hx⟩ := (valid.enum_values body).exists_label (List.getElem_mem bound)
      exact ⟨.int x, by simp [readEnum, EnumRepr.scalar?, EnumRepr.text?, EnumRepr.int?, hi, hx]⟩

/-- **A value that fits its type shows a level that fits**, in either view. -/
theorem Fits.read (valid : s.Valid) (once : view = .representation → s.RenamesOnce) {v : Value}
    (h : s.Fits type v) : (s.read view type v).Fits s := by
  induction h with
  | @scalar type a body =>
    rw [Schema.read, body]
    simp only [if_true]
    exact .scalar a
  | list body states values =>
    simp only [Schema.read, body]
    exact .items ((fits_list_iff body).mp (.list body states values))
  | map body keys texts apart states values =>
    obtain ⟨fits, -⟩ := (fits_map_iff body).mp (.map body keys texts apart states values)
    simp only [Schema.read, body]
    exact .entries fits apart
  | struct body length states values =>
    obtain ⟨-, admits⟩ := (fits_struct_iff body).mp (.struct body length states values)
    simp only [Schema.read, body]
    exact valid.readStruct_fits once body ⟨length, admits⟩
  | @union type member members repr i v body at_member value ih =>
    simp only [Schema.read, body, at_member]
    cases view with
    | typed => exact .choice value
    | representation =>
      cases repr with
      | kinded => exact ih
      | keyed ds =>
        have mem := List.mem_map_of_mem (f := s.nameOf) (List.mem_of_getElem? at_member)
        obtain ⟨key, hl⟩ := (valid.discriminants body).exists_label mem
        simp only [hl]
        exact .choice value
  | enum body bound =>
    simp only [Schema.read, body]
    obtain ⟨a, ha⟩ : ∃ a, readEnum view _ _ _ = .scalar a := valid.readEnum_fits body bound
    rw [ha]
    exact .scalar a

end Schema

/-! ## Nodes -/

/-- A node of a value that fits its type, in a valid schema that renames nothing twice. -/
structure TypedNode.Fits (n : TypedNode) : Prop where
  valid : n.schema.Valid
  once : n.schema.RenamesOnce
  value : n.schema.Fits n.type n.value

/-- The stored values behind a node fit their types. -/
def Node.Fits : Node → Prop
  | typed n | pair _ (some n) => n.Fits
  | null | key _ | pair _ none | basic _ => True

namespace TypedNode.Fits

variable {n : TypedNode}

theorem reading (h : n.Fits) : n.reading.Fits n.schema :=
  h.value.read h.valid fun _ => h.once

theorem sub (h : n.Fits) {type : TypeId} {v : Value} (fits : n.schema.Fits type v) :
    (n.sub type v).Fits :=
  ⟨h.valid, h.once, fits⟩

theorem slot? (h : n.Fits) {type : TypeId} {optional nullable : Bool} {slot : Slot Value}
    (admits : n.schema.Admits type optional nullable slot.content) {c : Node}
    (hc : n.slot? type slot = some c) : c.Fits := by
  obtain ⟨layout, content⟩ := slot
  cases content with
  | absent => contradiction
  | null =>
    cases hc
    trivial
  | value v =>
    cases hc
    exact h.sub admits

theorem slot (h : n.Fits) {type : TypeId} {optional nullable : Bool} {slot : Slot Value}
    (admits : n.schema.Admits type optional nullable slot.content) : (n.slot type slot).Fits := by
  rw [TypedNode.slot]
  cases hs : n.slot? type slot with
  | none => trivial
  | some c => exact h.slot? admits hs

theorem pair? (h : n.Fits) {keys : Renaming} {f : Field TypeId} {slot : Slot Value}
    (admits : n.schema.Admits f.type f.optional f.nullable slot.content) {c : Node}
    (hc : n.pair? keys f slot = some c) : c.Fits := by
  obtain ⟨layout, content⟩ := slot
  cases content with
  | absent => contradiction
  | null =>
    cases hc
    trivial
  | value v =>
    cases hc
    exact h.sub admits

/-- The items of a stored value that fits, fit. -/
theorem items (h : n.Fits) {items : List Node} (hi : n.items? = some items) {c : Node}
    (hc : c ∈ items) : c.Fits := by
  have hr := h.reading
  rw [TypedNode.items?] at hi
  cases hr' : n.reading with
  | items elem slots =>
    simp only [hr', Option.some.injEq] at hi hr
    cases hr with
    | items admits =>
      obtain ⟨slot, hs, rfl⟩ := List.mem_map.mp (hi ▸ hc)
      exact h.slot (admits slot hs)
  | tuple fields slots =>
    simp only [hr', Option.some.injEq] at hi hr
    cases hr with
    | tuple fits required =>
      obtain ⟨p, hp, rfl⟩ := List.mem_map.mp (hi ▸ hc)
      exact h.slot (fits.admits p hp)
  | pairs keys fields slots =>
    simp only [hr', Option.some.injEq] at hi hr
    cases hr with
    | pairs tells fits =>
      obtain ⟨p, hp, hpair⟩ := List.mem_filterMap.mp (hi ▸ hc)
      exact h.pair? (fits.admits p hp) hpair
  | _ => simp [hr'] at hi

/-- The keys and values of a stored value that fits, fit. -/
theorem entries (h : n.Fits) {entries : List (Node × Node)} (he : n.entries? = some entries)
    {c : Node × Node} (hc : c ∈ entries) : c.1.Fits ∧ c.2.Fits := by
  have hr := h.reading
  rw [TypedNode.entries?] at he
  cases hr' : n.reading with
  | entries key value dict omitNulls =>
    simp only [hr', Option.some.injEq] at he hr
    cases hr with
    | entries fits apart =>
      obtain ⟨e, hm, hentry⟩ := List.mem_filterMap.mp (he ▸ hc)
      rw [TypedNode.entry?] at hentry
      split at hentry
      · contradiction
      · obtain ⟨child, hs, rfl⟩ := Option.map_eq_some_iff.mp hentry
        refine ⟨?_, h.slot? (fits e hm).slot_admits hs⟩
        cases n.view with
        | typed => exact h.sub (fits e hm).key_fits
        | representation => trivial
  | fields keys fields slots =>
    simp only [hr', Option.some.injEq] at he hr
    cases hr with
    | fields tells fits =>
      obtain ⟨p, hp, hfield⟩ := List.mem_filterMap.mp (he ▸ hc)
      obtain ⟨child, hs, rfl⟩ := Option.map_eq_some_iff.mp hfield
      exact ⟨trivial, h.slot? (fits.admits p hp) hs⟩
  | choice key member value =>
    simp only [hr', Option.some.injEq] at he hr
    cases hr with
    | choice fits =>
      obtain rfl := List.mem_singleton.mp (he ▸ hc)
      exact ⟨trivial, h.sub fits⟩
  | _ => simp [hr'] at he

end TypedNode.Fits

namespace Node.Fits

variable {n : Node}

/-- **The items of a node that fits, fit.** -/
theorem items (h : n.Fits) {items : List Node} (hi : n.items? = some items) {c : Node}
    (hc : c ∈ items) : c.Fits := by
  cases n with
  | typed n => exact TypedNode.Fits.items h hi hc
  | null => contradiction
  | key text => contradiction
  | pair text value =>
    cases hi
    rcases List.mem_pair.mp hc with rfl | rfl
    · trivial
    · cases value with
      | none => trivial
      | some n => exact h
  | basic d =>
    cases d with
    | list items =>
      cases hi
      obtain ⟨d, -, rfl⟩ := List.mem_map.mp hc
      trivial
    | _ => contradiction

/-- **The keys and values of a node that fits, fit.** -/
theorem entries (h : n.Fits) {entries : List (Node × Node)} (he : n.entries? = some entries)
    {c : Node × Node} (hc : c ∈ entries) : c.1.Fits ∧ c.2.Fits := by
  cases n with
  | typed n => exact TypedNode.Fits.entries h he hc
  | basic d =>
    cases d with
    | map entries =>
      cases he
      obtain ⟨p, -, rfl⟩ := List.mem_map.mp hc
      exact ⟨trivial, trivial⟩
    | _ => contradiction
  | null => contradiction
  | key text => contradiction
  | pair text value => contradiction

end Node.Fits

end DualView
