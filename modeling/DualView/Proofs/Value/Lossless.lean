import DualView.Proofs.Value.Bare
import DualView.Proofs.Value.Fits

/-!
# What is lost of a value

What a representation cannot keep apart is ruled out by `Schema.Lossless`: a float that is no number
equals nothing, an omitted null is gone, and a joined text may split elsewhere.

* `Schema.Lossless`, `Schema.lossless_iff`: nothing in a value is lost in its representation, as a
  check of each part; its floats, if it fits its type, are all numbers (`Schema.Lossless.naNFree`).
-/

namespace DualView

namespace Schema

/-- Nothing in a value of a type is lost in its representation. -/
structure Lossless (s : Schema) (type : TypeId) (v : Value) : Prop where
  /-- All floats are numbers. -/
  numbers : ∀ type' a, (type', .scalar a) ∈ s.parts type v → a.isNaN = false
  /-- A map that omits nulls holds none. -/
  nulls : ∀ type' key value nullable dict, (type', .map dict) ∈ s.parts type v →
    s.body type' = .map key value nullable .omitNulls → ∀ e ∈ dict.entries, e.slot.isNull = false
  /-- A joined text splits into the texts that were joined. -/
  texts : ∀ type' fields separator slots, (type', .struct slots) ∈ s.parts type v →
    s.body type' = .struct fields (.stringjoin separator) →
      Text.split separator (Text.join separator (slots.filterMap Slot.text?)) =
        slots.filterMap Slot.text?

/-- What holds of a value holds of its parts. -/
theorem Lossless.of_subset {s : Schema} {type type' : TypeId} {v w : Value} (h : s.Lossless type v)
    (parts : s.parts type' w ⊆ s.parts type v) : s.Lossless type' w where
  numbers type' a ha := h.numbers type' a (parts ha)
  nulls type' key value nullable dict hd := h.nulls type' key value nullable dict (parts hd)
  texts type' fields separator slots hs := h.texts type' fields separator slots (parts hs)

theorem Fits.leaf_mem_parts {s : Schema} {type : TypeId} {v : Value} (h : s.Fits type v) {a : Scalar}
    (ha : a ∈ v.leaves) : ∃ type', (type', .scalar a) ∈ s.parts type v := by
  induction h with
  | @scalar type b body =>
    obtain rfl : a = b := by simpa [Value.leaves] using ha
    exact ⟨type, mem_parts_self _⟩
  | list body states values ih =>
    rw [Value.leaves] at ha
    obtain ⟨slot, hs, v, hv, ha⟩ := Value.mem_slotLeaves.mp ha
    obtain ⟨type', hp⟩ := ih slot hs v hv ha
    exact ⟨type', parts_item body hs hv hp⟩
  | map body keys texts apart states values ihk ihv =>
    rw [Value.leaves] at ha
    obtain ⟨e, he, ha | ⟨v, hv, ha⟩⟩ := Value.mem_entryLeaves.mp ha
    · obtain ⟨type', hp⟩ := ihk e he ha
      exact ⟨type', (parts_entry body he).1 hp⟩
    · obtain ⟨type', hp⟩ := ihv e he v hv ha
      exact ⟨type', (parts_entry body he).2 v hv hp⟩
  | @struct type fields repr slots body length states values ih =>
    rw [Value.leaves] at ha
    obtain ⟨slot, hs, v, hv, ha⟩ := Value.mem_slotLeaves.mp ha
    obtain ⟨i, hi⟩ := List.mem_iff_getElem?.mp hs
    have hlt : i < fields.length := length ▸ (List.getElem?_eq_some_iff.mp hi).1
    have hp : (fields[i], slot) ∈ fields.zip slots :=
      List.mem_of_getElem? (List.getElem?_zip_eq_some.mpr ⟨List.getElem?_eq_getElem hlt, hi⟩)
    obtain ⟨type', hq⟩ := ih _ hp v hv ha
    exact ⟨type', parts_field body hp hv hq⟩
  | @union type member members repr i v body at_member value ih =>
    rw [Value.leaves] at ha
    obtain ⟨type', hp⟩ := ih ha
    exact ⟨type', parts_member body at_member v hp⟩
  | enum body bound => simp [Value.leaves] at ha

/-- What loses nothing holds no NaN. -/
theorem Lossless.naNFree {s : Schema} {type : TypeId} {v : Value} (h : s.Lossless type v)
    (fits : s.Fits type v) : v.NaNFree := by
  intro a ha
  obtain ⟨type', hp⟩ := fits.leaf_mem_parts ha
  exact h.numbers type' a hp

def losslessAt (s : Schema) (part : TypeId × Value) : Bool :=
  match part.2, s.body part.1 with
  | .scalar a, _ => !a.isNaN
  | .map dict, .map _ _ _ .omitNulls => dict.entries.all (!·.slot.isNull)
  | .struct slots, .struct _ (.stringjoin separator) =>
    Text.split separator (Text.join separator (slots.filterMap Slot.text?)) =
      slots.filterMap Slot.text?
  | _, _ => true

theorem lossless_iff {s : Schema} {type : TypeId} {v : Value} :
    s.Lossless type v ↔ ∀ part ∈ s.parts type v, s.losslessAt part = true := by
  constructor
  · rintro h ⟨type', w⟩ hw
    rw [losslessAt.eq_def]
    dsimp only
    split
    · simp [h.numbers _ _ hw]
    · rename_i body
      simpa using h.nulls _ _ _ _ _ hw body
    · rename_i body
      simpa using h.texts _ _ _ _ hw body
    · rfl
  · intro h
    refine ⟨fun type' a ha => ?_, fun type' key value nullable dict hd body => ?_,
      fun type' fields separator slots hs body => ?_⟩
    · simpa [losslessAt] using h _ ha
    · simpa [losslessAt, body] using h _ hd
    · simpa [losslessAt, body] using h _ hs

instance (s : Schema) (type : TypeId) (v : Value) : Decidable (s.Lossless type v) :=
  decidable_of_iff _ lossless_iff.symm

end Schema

end DualView
