import DualView.Proofs.Assembly.Scalars
import DualView.Proofs.Assembly.Soundness

/-!
# Values that are laid out

A value is *laid out* by a model if each of its slots, at every depth and inside the keys of maps,
has the layout that the model has for its type and position (`Model.LaidOut`).  Whatever comes into
being is: an item, the value of an entry, a field that is absent or filled, the parts of a joined
text, the member of a kinded union.

* `Model.laidOut_list_iff`, `Model.laidOut_map_iff`, `Model.laidOut_struct_iff`,
  `Model.laidOut_union_iff`: one level.
* `Model.laidOut_append`, `Model.laidOut_insert`, `Model.laidOut_fillSlot`: what is added.
* `Model.Denotes.laidOut`: what a scalar stands for.
* `Model.LaidOut.layouts_eq`: equal values that one model lays out have the same layouts.
-/

namespace DualView

/-! ## Values that are laid out -/

namespace Model

def LevelLaidOut (m : Model) (type : TypeId) (v : Value) : Prop :=
  match m.schema.body type, v with
  | .list elem nullable, .list slots =>
    ∀ slot ∈ slots, slot.layout = if nullable then m.maybeLayout elem else .embedded
  | .map _ value nullable _, .map dict =>
    ∀ e ∈ dict.entries, e.slot.layout = if nullable then m.maybeLayout value else .embedded
  | .struct _ _, .struct slots =>
    ∀ i slot, slots[i]? = some slot → slot.layout = m.fieldLayout type i
  | _, _ => True

/-- The slots of a value of a type have the layouts of the model, at every depth and inside the keys
of maps. -/
def LaidOut (m : Model) (type : TypeId) (v : Value) : Prop :=
  ∀ q ∈ m.schema.parts type v, m.LevelLaidOut q.1 q.2

/-- A value that is given is laid out; a null has no slots. -/
def GivenLaidOut (m : Model) (type : TypeId) (given : Option Value) : Prop :=
  ∀ v, given = some v → m.LaidOut type v

def SlotLaidOut (m : Model) (type : TypeId) (layout : Layout) (slot : Slot Value) : Prop :=
  slot.layout = layout ∧ ∀ v, slot.content = .value v → m.LaidOut type v

variable {m : Model} {type : TypeId}

theorem laidOut_of_given {given : Option Value} (h : m.GivenLaidOut type given) {v : Value}
    (hv : Maybe.given given = .value v) : m.LaidOut type v := by
  cases given with
  | none => contradiction
  | some w =>
    cases hv
    exact h v rfl

/-! ### Level by level -/

theorem laidOut_scalar (a : Scalar) : m.LaidOut type (.scalar a) := by
  intro q hq
  obtain rfl := List.mem_singleton.mp hq
  unfold LevelLaidOut
  split <;> trivial

theorem laidOut_enum (i : Nat) : m.LaidOut type (.enum i) := by
  intro q hq
  obtain rfl := List.mem_singleton.mp hq
  unfold LevelLaidOut
  split <;> trivial

theorem laidOut_list_iff {elem : TypeId} {nullable : Bool}
    (body : m.schema.body type = .list elem nullable) {slots : List (Slot Value)} :
    m.LaidOut type (.list slots) ↔
      ∀ slot ∈ slots, m.SlotLaidOut elem (m.elementLayout elem nullable) slot := by
  constructor
  · intro h slot hs
    have level := h _ (Schema.mem_parts_self _)
    simp only [LevelLaidOut, body] at level
    exact ⟨level slot hs, fun v hv q hq => h q (Schema.parts_item body hs hv hq)⟩
  · intro h q hq
    rw [Schema.parts, body] at hq
    rcases List.mem_cons.mp hq with rfl | hq
    · simp only [LevelLaidOut, body]
      exact fun slot hs => (h slot hs).1
    · obtain ⟨slot, hs, v, hv, hq⟩ := Schema.mem_itemParts.mp hq
      exact (h slot hs).2 v hv q hq

theorem laidOut_map_iff {key value : TypeId} {nullable : Bool} {nulls : NullPolicy}
    (body : m.schema.body type = .map key value nullable nulls) {dict : Dict Value} :
    m.LaidOut type (.map dict) ↔ ∀ e ∈ dict.entries, m.LaidOut key e.key ∧
      m.SlotLaidOut value (m.elementLayout value nullable) e.slot := by
  constructor
  · intro h e he
    have level := h _ (Schema.mem_parts_self _)
    simp only [LevelLaidOut, body] at level
    obtain ⟨keys, values⟩ := Schema.parts_entry body he
    exact ⟨fun q hq => h q (keys hq), level e he, fun v hv q hq => h q (values v hv hq)⟩
  · intro h q hq
    obtain ⟨entries⟩ := dict
    rw [Schema.parts, body] at hq
    rcases List.mem_cons.mp hq with rfl | hq
    · simp only [LevelLaidOut, body]
      exact fun e he => (h e he).2.1
    · obtain ⟨e, he, hq | ⟨v, hv, hq⟩⟩ := Schema.mem_entryParts.mp hq
      · exact (h e he).1 q hq
      · exact (h e he).2.2 v hv q hq

theorem laidOut_struct_iff {fields : List (Field TypeId)} {repr : StructRepr}
    (body : m.schema.body type = .struct fields repr) {slots : List (Slot Value)} :
    m.LaidOut type (.struct slots) ↔ ∀ i slot, slots[i]? = some slot →
      slot.layout = m.fieldLayout type i ∧
        ∀ f, fields[i]? = some f → ∀ v, slot.content = .value v → m.LaidOut f.type v := by
  constructor
  · intro h i slot hs
    have level := h _ (Schema.mem_parts_self _)
    simp only [LevelLaidOut, body] at level
    refine ⟨level i slot hs, fun f hf v hv q hq => ?_⟩
    have mem : (f, slot) ∈ fields.zip slots :=
      List.mem_of_getElem? (List.getElem?_zip_eq_some.mpr ⟨hf, hs⟩)
    exact h q (Schema.parts_field body mem hv hq)
  · intro h q hq
    rw [Schema.parts, body] at hq
    rcases List.mem_cons.mp hq with rfl | hq
    · simp only [LevelLaidOut, body]
      exact fun i slot hs => (h i slot hs).1
    · obtain ⟨p, hp, v, hv, hq⟩ := Schema.mem_fieldParts.mp hq
      obtain ⟨i, hi⟩ := List.mem_iff_getElem?.mp hp
      obtain ⟨hf, hs⟩ := List.getElem?_zip_eq_some.mp hi
      exact (h i p.2 hs).2 p.1 hf v hv q hq

theorem laidOut_union_iff {members : List TypeId} {repr : UnionRepr}
    (body : m.schema.body type = .union members repr) {i : Nat} {v : Value} :
    m.LaidOut type (.union i v) ↔ ∀ member, members[i]? = some member → m.LaidOut member v := by
  constructor
  · intro h member at_member q hq
    exact h q (Schema.parts_member body at_member v hq)
  · intro h q hq
    rw [Schema.parts, body] at hq
    rcases List.mem_cons.mp hq with rfl | hq
    · simp only [LevelLaidOut, body]
    · dsimp only at hq
      split at hq
      · exact h _ ‹_› q hq
      · contradiction

/-! ### What comes into being -/

theorem laidOut_wrap {view : View} {target : TypeId} {kind : Kind} {member : Option Nat}
    (h : m.schema.target? view type kind = some (member, target)) {v : Value}
    (hv : m.LaidOut target v) : m.LaidOut type (v.wrap member) := by
  rw [Schema.target?.eq_def] at h
  split at h
  · rename_i members body
    obtain ⟨⟨i, t⟩, hk, he⟩ := Option.map_eq_some_iff.mp h
    cases he
    refine (laidOut_union_iff body).mpr fun member at_member => ?_
    cases (Schema.kindedMember?_spec hk).1.symm.trans at_member
    exact hv
  · cases h
    exact hv

/-- The parts of a joined text have the layouts of the fields. -/
theorem Denotes.laidOut {view : View} {a : Scalar} {v : Value} (h : m.Denotes view type a v) :
    m.LaidOut type v := by
  cases h with
  | scalar body => exact laidOut_scalar _
  | name seen body found => exact laidOut_enum _
  | text seen body found => exact laidOut_enum _
  | int seen body found => exact laidOut_enum _
  | joined seen body arity =>
    refine (laidOut_struct_iff body).mpr fun i slot hs => ?_
    rw [List.getElem?_mapIdx] at hs
    obtain ⟨part, -, rfl⟩ := Option.map_eq_some_iff.mp hs
    refine ⟨rfl, fun f _ v hv => ?_⟩
    cases hv
    exact laidOut_scalar _

theorem laidOut_of_assign {view : View} {a : Scalar} {v : Value}
    (h : m.assign view type a = .ok v) : m.LaidOut type v := by
  rw [Model.assign] at h
  split at h
  · rename_i ht
    obtain ⟨w, hw, rfl⟩ := map_eq_ok_iff.mp h
    exact laidOut_wrap ht (Model.ofScalar_eq_ok_iff.mp hw).laidOut
  · contradiction

section Structs

variable {fields : List (Field TypeId)} {repr : StructRepr} {slots : List (Slot Value)}

theorem laidOut_absentSlots (body : m.schema.body type = .struct fields repr) :
    m.LaidOut type (.struct (m.absentSlots type fields)) := by
  refine (laidOut_struct_iff body).mpr fun i slot hs => ?_
  rw [absentSlots, List.getElem?_mapIdx] at hs
  obtain ⟨f, -, rfl⟩ := Option.map_eq_some_iff.mp hs
  refine ⟨rfl, fun f _ v hv => ?_⟩
  contradiction

/-- A field that is filled keeps its layout. -/
theorem laidOut_fillSlot (body : m.schema.body type = .struct fields repr)
    (h : m.LaidOut type (.struct slots)) {i : Nat} {given : Option Value}
    (hg : ∀ f, fields[i]? = some f → m.GivenLaidOut f.type given) :
    m.LaidOut type (.struct (fillSlot slots i given)) := by
  rw [laidOut_struct_iff body] at h ⊢
  intro j slot' hs'
  rw [fillSlot, List.getElem?_modify] at hs'
  obtain ⟨slot, hs, rfl⟩ := Option.map_eq_some_iff.mp hs'
  obtain ⟨layout, content⟩ := h j slot hs
  by_cases hij : i = j
  · subst hij
    rw [if_pos rfl]
    exact ⟨layout, fun f hf v hv => laidOut_of_given (hg f hf) hv⟩
  · rw [if_neg hij]
    exact ⟨layout, content⟩

end Structs

/-- An item that is added has the layout of the others. -/
theorem laidOut_append {elem : TypeId} {nullable : Bool}
    (body : m.schema.body type = .list elem nullable) {slots : List (Slot Value)}
    (h : m.LaidOut type (.list slots)) {given : Option Value} (hg : m.GivenLaidOut elem given) :
    m.LaidOut type (.list (slots ++ [⟨m.elementLayout elem nullable, .given given⟩])) := by
  rw [laidOut_list_iff body] at h ⊢
  intro slot hs
  rcases List.mem_append.mp hs with hs | hs
  · exact h slot hs
  · rw [List.mem_singleton.mp hs]
    exact ⟨rfl, fun v hv => laidOut_of_given hg hv⟩

/-- So has the value of an entry, if the entry is new. -/
theorem laidOut_insert {key value : TypeId} {nullable : Bool} {nulls : NullPolicy}
    (body : m.schema.body type = .map key value nullable nulls) {dict : Dict Value}
    (h : m.LaidOut type (.map dict)) {k : Value} (hk : m.LaidOut key k) {text : String}
    {given : Option Value} (hg : m.GivenLaidOut value given) :
    m.LaidOut type (.map (dict.insert ⟨k, text, ⟨m.elementLayout value nullable, .given given⟩⟩)) := by
  cases new : dict.contains text with
  | true =>
    rw [Dict.insert, Dict.insert?, new]
    exact h
  | false =>
    rw [laidOut_map_iff body] at h ⊢
    rw [MapFrame.dict_insert new]
    intro e he
    rcases List.mem_append.mp he with he | he
    · exact h e he
    · rw [List.mem_singleton.mp he]
      exact ⟨hk, rfl, fun v hv => laidOut_of_given hg hv⟩

end Model

/-! ## Layouts of equal values -/

namespace Value

mutual

/-- The layouts of all slots of a value in order, those inside a slot after its own. -/
def layouts : Value → List Layout
  | scalar _ | enum _ => []
  | list slots | struct slots => slotLayouts slots
  | map ⟨entries⟩ => entryLayouts entries
  | union _ v => v.layouts

def contentLayouts : Maybe Value → List Layout
  | .value v => v.layouts
  | .absent | .null => []

def slotLayouts : List (Slot Value) → List Layout
  | [] => []
  | ⟨layout, content⟩ :: rest => layout :: contentLayouts content ++ slotLayouts rest

def entryLayouts : List (Entry Value) → List Layout
  | [] => []
  | ⟨key, _, ⟨layout, content⟩⟩ :: rest =>
    key.layouts ++ layout :: contentLayouts content ++ entryLayouts rest

end

/-- Two slots have one layout, and equal values in them have the same layouts. -/
def SlotsAgree (a b : Slot Value) : Prop :=
  a.layout = b.layout ∧
    ∀ v w, a.content = .value v → b.content = .value w → v.same w = true → v.layouts = w.layouts

theorem SlotsAgree.contents {a b : Slot Value} (h : SlotsAgree a b)
    (same : sameMaybe a.content b.content = true) :
    contentLayouts a.content = contentLayouts b.content := by
  obtain ⟨la, ca⟩ := a
  obtain ⟨lb, cb⟩ := b
  cases ca with
  | value v =>
    cases cb with
    | value w => exact h.2 v w rfl rfl (by simpa [sameMaybe] using same)
    | _ => simp [sameMaybe] at same
  | absent => cases cb <;> first | rfl | simp [sameMaybe] at same
  | null => cases cb <;> first | rfl | simp [sameMaybe] at same

theorem slotLayouts_eq {slots others : List (Slot Value)} (same : sameSlots slots others = true)
    (agree : ∀ p ∈ slots.zip others, SlotsAgree p.1 p.2) :
    slotLayouts slots = slotLayouts others := by
  induction slots generalizing others with
  | nil =>
    cases others with
    | nil => rfl
    | cons b others => simp [sameSlots] at same
  | cons a slots ih =>
    cases others with
    | nil => simp [sameSlots] at same
    | cons b others =>
      rw [sameSlots, Bool.and_eq_true] at same
      obtain ⟨head, tail⟩ := List.forall_mem_cons.mp agree
      rw [slotLayouts, slotLayouts, head.1, head.contents same.1, ih same.2 tail]

theorem entryLayouts_eq {entries others : List (Entry Value)}
    (same : sameEntries entries others = true)
    (agree : ∀ p ∈ entries.zip others,
      (p.1.key.same p.2.key = true → p.1.key.layouts = p.2.key.layouts) ∧
        SlotsAgree p.1.slot p.2.slot) :
    entryLayouts entries = entryLayouts others := by
  induction entries generalizing others with
  | nil =>
    cases others with
    | nil => rfl
    | cons b others => simp [sameEntries] at same
  | cons a entries ih =>
    cases others with
    | nil => simp [sameEntries] at same
    | cons b others =>
      simp only [sameEntries, Bool.and_eq_true] at same
      obtain ⟨⟨⟨key, -⟩, content⟩, rest⟩ := same
      obtain ⟨⟨keys, slots⟩, tail⟩ := List.forall_mem_cons.mp agree
      rw [entryLayouts, entryLayouts, keys key, slots.1, slots.contents content, ih rest tail]

end Value

/-- **Equal values of a type that are laid out by one model have the same layouts.** -/
theorem Model.LaidOut.layouts_eq {m : Model} {type : TypeId} {v w : Value} (fits : m.schema.Fits type v)
    (h : m.LaidOut type v) (h' : m.LaidOut type w) (same : v.same w = true) :
    v.layouts = w.layouts := by
  induction fits generalizing w with
  | scalar body =>
    cases w with
    | scalar b => rfl
    | _ => simp [Value.same] at same
  | enum body bound =>
    cases w with
    | enum i => rfl
    | _ => simp [Value.same] at same
  | list body states values ih =>
    cases w with
    | list others =>
      rw [laidOut_list_iff body] at h h'
      rw [Value.same] at same
      refine Value.slotLayouts_eq same fun p hp => ?_
      obtain ⟨mem, mem'⟩ := List.of_mem_zip hp
      obtain ⟨layout, inside⟩ := h p.1 mem
      obtain ⟨layout', inside'⟩ := h' p.2 mem'
      exact ⟨layout.trans layout'.symm, fun v w hv hw same =>
        ih p.1 mem v hv (inside v hv) (inside' w hw) same⟩
    | _ => simp [Value.same] at same
  | @map _ _ _ _ _ dict body keys texts apart states values ihk ihv =>
    obtain ⟨entries⟩ := dict
    cases w with
    | map others =>
      obtain ⟨others⟩ := others
      rw [laidOut_map_iff body] at h h'
      rw [Value.same] at same
      refine Value.entryLayouts_eq same fun p hp => ?_
      obtain ⟨mem, mem'⟩ := List.of_mem_zip hp
      obtain ⟨key, layout, inside⟩ := h p.1 mem
      obtain ⟨key', layout', inside'⟩ := h' p.2 mem'
      exact ⟨ihk p.1 mem key key', layout.trans layout'.symm, fun v w hv hw same =>
        ihv p.1 mem v hv (inside v hv) (inside' w hw) same⟩
    | _ => simp [Value.same] at same
  | @struct type fields repr slots body length states values ih =>
    cases w with
    | struct others =>
      rw [laidOut_struct_iff body] at h h'
      rw [Value.same] at same
      refine Value.slotLayouts_eq same fun p hp => ?_
      obtain ⟨i, hi⟩ := List.mem_iff_getElem?.mp hp
      obtain ⟨at_i, at_i'⟩ := List.getElem?_zip_eq_some.mp hi
      obtain ⟨layout, inside⟩ := h i p.1 at_i
      obtain ⟨layout', inside'⟩ := h' i p.2 at_i'
      have bound : i < fields.length := length ▸ (List.getElem?_eq_some_iff.mp at_i).1
      have hf := List.getElem?_eq_getElem bound
      have mem : (fields[i], p.1) ∈ fields.zip slots :=
        List.mem_of_getElem? (List.getElem?_zip_eq_some.mpr ⟨hf, at_i⟩)
      exact ⟨layout.trans layout'.symm, fun v w hv hw same =>
        ih _ mem v hv (inside _ hf v hv) (inside' _ hf w hw) same⟩
    | _ => simp [Value.same] at same
  | union body at_member value ih =>
    cases w with
    | union j w =>
      rw [Value.same, Bool.and_eq_true, beq_iff_eq] at same
      obtain ⟨rfl, same⟩ := same
      rw [laidOut_union_iff body] at h h'
      rw [Value.layouts, Value.layouts]
      exact ih (h _ at_member) (h' _ at_member) same
    | _ => simp [Value.same] at same

end DualView
