import DualView.Assembly.Frame
import DualView.Proofs.Outcome

/-!
# What a step of a frame takes

The checks that the steps of a frame make, each spelled out once as what it takes to pass.

* `Schema.openField_eq_ok_iff`, `Schema.openMember_eq_ok_iff`: a key opens a field or a member.
* `missing?_eq_none_iff`: every field that must be present is.
* `Model.mapContent?_eq_some_iff`, `Model.listContent?_eq_some_iff`: what a type is assembled as,
  with one constructor of `Model.MapBegins` or `Model.ListBegins` for each kind of content.
* `Opening.openMap_eq_ok_iff`, `Opening.openList_eq_ok_iff`: where a value is expected, a compound
  begins.
* `Model.filled`: the slots of a struct, by the fields that are given.
-/

namespace DualView

/-! ## Fields and members -/

namespace Schema

variable {s : Schema} {type : TypeId} {view : View} {key : String} {i : Nat} {o : Opening}

/-- A key opens the field that it stands for, if it is not filled yet. -/
theorem openField_eq_ok_iff {keys : Renaming} {fields : List (Field TypeId)}
    {slots : List (Slot Value)} :
    s.openField type view keys fields slots key = .ok (i, o) ↔
      (keys.nameOf? key).bind (Field.index? fields) = some i ∧
        ∃ f slot, fields[i]? = some f ∧ slots[i]? = some slot ∧ slot.isAbsent = true ∧
          o = ⟨.value f.type, view, f.nullable⟩ := by
  rw [openField.eq_def]
  constructor
  · intro h
    split at h
    · contradiction
    · rename_i j hj
      split at h
      · rename_i f slot hf hs
        split at h
        · rename_i ha
          cases h
          exact ⟨hj, f, slot, hf, hs, ha, rfl⟩
        · contradiction
      · contradiction
  · rintro ⟨hi, f, slot, hf, hs, ha, rfl⟩
    simp only [hi, hf, hs, ha, if_true]

def memberName? (view : View) (repr : UnionRepr) (key : String) : Option String :=
  match view with
  | .typed => some key
  | .representation => repr.memberOf? key

def memberIndex? (s : Schema) (view : View) (members : List TypeId) (repr : UnionRepr)
    (key : String) : Option Nat :=
  (memberName? view repr key).bind fun name => members.findIdx? (s.nameOf · == name)

def MemberFound (s : Schema) (view : View) (members : List TypeId) (repr : UnionRepr)
    (key : String) (i : Nat) : Prop :=
  s.memberIndex? view members repr key = some i

/-- A key opens the member that it stands for, if none is there yet. -/
theorem openMember_eq_ok_iff {members : List TypeId} {repr : UnionRepr}
    {present : Option (Nat × Value)} :
    s.openMember type view members repr present key = .ok (i, o) ↔
      s.MemberFound view members repr key i ∧
        present = none ∧ ∃ member, members[i]? = some member ∧ o = ⟨.value member, view, false⟩ := by
  rw [openMember.eq_def]
  dsimp only
  constructor
  · intro h
    split at h
    · contradiction
    · rename_i j hj
      split at h
      · rename_i member hm
        cases h
        exact ⟨hj, rfl, member, hm, rfl⟩
      · contradiction
      · contradiction
  · rintro ⟨hi, rfl, member, hm, rfl⟩
    simp only [MemberFound, memberIndex?, memberName?.eq_def] at hi
    split
    · rename_i hn
      exact absurd (hn.symm.trans hi) nofun
    · rename_i j hj
      obtain rfl := Option.some.inj (hj.symm.trans hi)
      simp only [hm]

end Schema

/-! ## Nothing missing -/

/-- No field is missing exactly if every slot without content belongs to an optional field. -/
theorem missing?_eq_none_iff {fields : List (Field TypeId)} {slots : List (Slot Value)} :
    missing? fields slots = none ↔
      ∀ p ∈ fields.zip slots, p.2.isAbsent = true → p.1.optional = true := by
  rw [missing?, Option.map_eq_none_iff, List.find?_eq_none]
  refine forall₂_congr fun ⟨f, slot⟩ _ => ?_
  cases ho : f.optional <;> simp [ho]

theorem ListFrame.struct_eq_ok_iff {m : Model} {f : ListFrame} {fields : List (Field TypeId)}
    {slots : List (Slot Value)} {piece : Piece} :
    f.struct m fields slots = .ok piece ↔
      missing? fields slots = none ∧
        piece = .content (some ((Value.struct slots).wrap f.member)) := by
  rw [ListFrame.struct]
  cases missing? fields slots <;> simp [eq_comm]

/-! ## Beginning -/

def StructRepr.entryKeys? (view : View) (repr : StructRepr) : Option Renaming :=
  match view, repr with
  | .typed, _ => some .none
  | .representation, .map keys => some keys
  | .representation, _ => none

namespace Model

/-- What a type is assembled as when that is a map, with nothing in it yet. -/
inductive MapBegins (m : Model) (view : View) (type : TypeId) : MapContent → Prop
  | entries {key value : TypeId} {nullable : Bool} {nulls : NullPolicy}
      (body : m.schema.body type = .map key value nullable nulls) :
      MapBegins m view type (.entries key value nullable (m.elementLayout value nullable) .empty)
  | fields {fields : List (Field TypeId)} {repr : StructRepr} {keys : Renaming}
      (body : m.schema.body type = .struct fields repr)
      (keyed : repr.entryKeys? view = some keys) :
      MapBegins m view type (.fields fields repr (m.absentSlots type fields))
  | choice {members : List TypeId} {repr : UnionRepr}
      (body : m.schema.body type = .union members repr)
      (keyed : view = .representation → repr ≠ .kinded) :
      MapBegins m view type (.choice members repr none)

/-- What a type is assembled as when that is a list, with nothing in it yet. -/
inductive ListBegins (m : Model) (view : View) (type : TypeId) : ListContent → Prop
  | items {elem : TypeId} {nullable : Bool} (body : m.schema.body type = .list elem nullable) :
      ListBegins m view type (.items elem nullable (m.elementLayout elem nullable) [])
  | tuple {fields : List (Field TypeId)} (body : m.schema.body type = .struct fields .tuple)
      (seen : view = .representation) :
      ListBegins m view type (.tuple fields (m.absentSlots type fields) 0)
  | pairs {fields : List (Field TypeId)} {keys : Renaming}
      (body : m.schema.body type = .struct fields (.listpairs keys))
      (seen : view = .representation) :
      ListBegins m view type (.pairs keys fields (m.absentSlots type fields))

variable {m : Model} {view : View} {type : TypeId}

theorem mapContent?_eq_some_iff {content : MapContent} :
    m.mapContent? view type = some content ↔ m.MapBegins view type content := by
  rw [mapContent?.eq_def]
  constructor
  · intro h
    split at h
    · rename_i key value nullable nulls body
      cases h
      exact .entries body
    · rename_i fields repr body
      split at h
      · cases h
        exact .fields body rfl
      · cases h
        exact .fields body rfl
      · contradiction
    · rename_i members repr body
      split at h
      · cases h
        exact .choice body nofun
      · cases h
        exact .choice body fun _ => nofun
      · contradiction
    · contradiction
  · intro h
    cases h with
    | entries body => rw [body]
    | @fields fields repr keys body keyed =>
      rw [body]
      cases view with
      | typed => rfl
      | representation =>
        cases repr with
        | map keys' => rfl
        | tuple | listpairs keys' | stringjoin separator => contradiction
    | @choice members repr body keyed =>
      rw [body]
      cases view with
      | typed => rfl
      | representation =>
        cases repr with
        | keyed names => rfl
        | kinded => exact absurd rfl (keyed rfl)

theorem listContent?_eq_some_iff {content : ListContent} :
    m.listContent? view type = some content ↔ m.ListBegins view type content := by
  rw [listContent?.eq_def]
  constructor
  · intro h
    split at h
    · rename_i elem nullable body
      cases h
      exact .items body
    · rename_i fields repr body
      split at h
      · cases h
        exact .tuple body rfl
      · cases h
        exact .pairs body rfl
      · contradiction
    · contradiction
  · intro h
    cases h with
    | items body => rw [body]
    | tuple body seen | pairs body seen => rw [body, seen]

theorem mapContent?_isSome_iff : (m.mapContent? view type).isSome = true ↔
    (m.schema.body type).assembledKind? view = some .map := by
  rw [mapContent?.eq_def]
  cases m.schema.body type with
  | struct fields repr => cases view <;> cases repr <;> simp [Body.assembledKind?]
  | union members repr => cases view <;> cases repr <;> simp [Body.assembledKind?]
  | _ => simp [Body.assembledKind?]

theorem listContent?_isSome_iff : (m.listContent? view type).isSome = true ↔
    (m.schema.body type).assembledKind? view = some .list := by
  rw [listContent?.eq_def]
  cases m.schema.body type with
  | struct fields repr => cases view <;> cases repr <;> simp [Body.assembledKind?]
  | union members repr => cases view <;> cases repr <;> simp [Body.assembledKind?]
  | _ => simp [Body.assembledKind?]

end Model

namespace Opening

variable {m : Model} {type : TypeId} {view : View} {nullable : Bool}

/-- Where a value is expected, a map begins for the type that takes maps. -/
theorem openMap_eq_ok_iff {f : MapFrame} :
    openMap m ⟨.value type, view, nullable⟩ = .ok f ↔
      ∃ member target content, m.schema.target? view type .map = some (member, target) ∧
        m.mapContent? view target = some content ∧ f = ⟨target, view, member, content, .idle⟩ := by
  rw [openMap.eq_def]
  dsimp only
  constructor
  · intro h
    split at h
    · rename_i member target ht
      split at h
      · rename_i content hc
        cases h
        exact ⟨member, target, content, ht, hc, rfl⟩
      · contradiction
    · contradiction
  · rintro ⟨member, target, content, ht, hc, rfl⟩
    simp only [ht, hc]

/-- Where a value is expected, a list begins for the type that takes lists. -/
theorem openList_eq_ok_iff {f : ListFrame} :
    openList m ⟨.value type, view, nullable⟩ = .ok f ↔
      ∃ member target content, m.schema.target? view type .list = some (member, target) ∧
        m.listContent? view target = some content ∧
        f = ⟨target, view, member, content, false⟩ := by
  rw [openList.eq_def]
  dsimp only
  constructor
  · intro h
    split at h
    · rename_i member target ht
      split at h
      · rename_i content hc
        cases h
        exact ⟨member, target, content, ht, hc, rfl⟩
      · contradiction
    · contradiction
  · rintro ⟨member, target, content, ht, hc, rfl⟩
    simp only [ht, hc]

end Opening

/-! ## Filled slots -/

/-- The slots of a struct of which the fields at some positions are given. -/
def Model.filled (m : Model) (type : TypeId) (fields : List (Field TypeId))
    (given : List (Nat × Option Value)) : List (Slot Value) :=
  fields.mapIdx fun i _ =>
    ⟨m.fieldLayout type i, ((given.lookup i).map Maybe.given).getD .absent⟩

section Filled

variable {m : Model} {type : TypeId} {fields : List (Field TypeId)}
  {given : List (Nat × Option Value)}

theorem getElem?_filled (i : Nat) : (m.filled type fields given)[i]? = fields[i]?.map fun _ =>
    ⟨m.fieldLayout type i, ((given.lookup i).map Maybe.given).getD .absent⟩ := by
  rw [Model.filled, List.getElem?_mapIdx]

theorem given_isAbsent {α : Type} (given? : Option α) : (Maybe.given given?).isAbsent = false := by
  cases given? <;> rfl

theorem lookup_eq_none_iff_not_mem {α : Type} {i : Nat} {l : List (Nat × α)} :
    l.lookup i = none ↔ i ∉ l.map (·.1) := by
  rw [List.lookup_eq_none_iff, List.mem_map]
  simp only [bne_iff_ne, ne_eq, not_exists, not_and]
  exact forall₂_congr fun p _ => ⟨fun h e => h e.symm, fun h e => h e.symm⟩

theorem isAbsent_filled_iff {i : Nat} {slot : Slot Value}
    (h : (m.filled type fields given)[i]? = some slot) :
    slot.isAbsent = true ↔ i ∉ given.map (·.1) := by
  rw [getElem?_filled] at h
  obtain ⟨f, -, rfl⟩ := Option.map_eq_some_iff.mp h
  rw [← lookup_eq_none_iff_not_mem, Slot.isAbsent]
  cases given.lookup i with
  | none => exact ⟨fun _ => rfl, fun _ => rfl⟩
  | some c => simp [given_isAbsent]

theorem fillSlot_filled {i : Nat} {c : Option Value} (new : i ∉ given.map (·.1)) :
    fillSlot (m.filled type fields given) i c = m.filled type fields (given ++ [(i, c)]) := by
  apply List.ext_getElem?
  intro j
  rw [fillSlot, List.getElem?_modify, getElem?_filled, getElem?_filled]
  by_cases hij : i = j
  · subst hij
    cases fields[i]? with
    | none => rfl
    | some f => simp [List.lookup_append, lookup_eq_none_iff_not_mem.mpr new]
  · have : List.lookup j [(i, c)] = none :=
      lookup_eq_none_iff_not_mem.mpr (by simpa using Ne.symm hij)
    cases fields[j]? with
    | none => rfl
    | some f => simp [hij, List.lookup_append, this]

def Field.Found (keys : Renaming) (fields : List (Field TypeId)) (key : String) (i : Nat) : Prop :=
  (keys.nameOf? key).bind (Field.index? fields) = some i

/-- The field that a key stands for exists. -/
theorem Field.Found.exists {keys : Renaming} {key : String} {i : Nat}
    (h : Field.Found keys fields key i) : ∃ f, fields[i]? = some f := by
  obtain ⟨name, -, hn⟩ := Option.bind_eq_some_iff.mp h
  exact ⟨_, List.getElem?_eq_getElem (List.findIdx?_eq_some_iff_getElem.mp hn).1⟩

theorem Schema.openField_filled_iff {s : Schema} {owner : TypeId} {view : View} {keys : Renaming}
    {key : String} {i : Nat} {o : Opening} :
    s.openField owner view keys fields (m.filled type fields given) key = .ok (i, o) ↔
      Field.Found keys fields key i ∧ i ∉ given.map (·.1) ∧
        ∃ f, fields[i]? = some f ∧ o = ⟨.value f.type, view, f.nullable⟩ := by
  rw [openField_eq_ok_iff]
  apply and_congr_right
  intro _
  constructor
  · rintro ⟨f, slot, hf, hs, ha, rfl⟩
    exact ⟨(isAbsent_filled_iff hs).mp ha, f, hf, rfl⟩
  · rintro ⟨hn, f, hf, rfl⟩
    have hs : (m.filled type fields given)[i]? = some _ :=
      (getElem?_filled i).trans (by rw [hf]; rfl)
    exact ⟨f, _, hf, hs, (isAbsent_filled_iff hs).mpr hn, rfl⟩

theorem missing?_filled_iff (m : Model) (type : TypeId) :
    missing? fields (m.filled type fields given) = none ↔
      ∀ (i : Nat) f, fields[i]? = some f → f.optional = false → i ∈ given.map (·.1) := by
  rw [missing?_eq_none_iff, forall_mem_zip_iff]
  constructor
  · intro h i f hf ho
    by_contra hn
    have hs : (m.filled type fields given)[i]? = some _ :=
      (getElem?_filled i).trans (by rw [hf]; rfl)
    have := h i f _ hf hs ((isAbsent_filled_iff hs).mpr hn)
    rw [ho] at this
    contradiction
  · intro h i f slot hf hs ha
    by_contra hn
    exact (isAbsent_filled_iff hs).mp ha (h i f hf (by simpa using hn))

end Filled

end DualView
