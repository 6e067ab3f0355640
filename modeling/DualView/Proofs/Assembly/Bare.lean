import DualView.Assembly.Filling
import DualView.Proofs.Node.Bare

/-!
# Building without layouts

A model gives each slot its layout when the slot comes into being, and nothing that is built later
depends on it.  With every layout forgotten, in the model and in what is under construction, each
step does the same: it opens the same, makes the same of what it is given, and fails alike.

* `Opening.openMap_bare`, `Opening.openList_bare`: compounds begin alike.
* `MapFrame.entry_bare`, `MapFrame.value_bare`, `ListFrame.item_bare`: they open alike.
* `MapFrame.place_bare`, `ListFrame.place_bare`: they take what fills their openings alike.
* `MapFrame.close_bare`, `ListFrame.close_bare`: they are finished alike.
* `Opening.copy_bare`, `Opening.fill_bare`: whole trees are copied and filled in alike.
-/

namespace DualView

theorem map_mapIdx {α β γ : Type} (f : Nat → α → β) (g : β → γ) (l : List α) :
    (l.mapIdx f).map g = l.mapIdx fun i a => g (f i a) := by
  refine List.ext_getElem? fun i => ?_
  rw [List.getElem?_map, List.getElem?_mapIdx, List.getElem?_mapIdx, Option.map_map]
  rfl

/-! ## Models -/

/-- The model with every slot kept in place. -/
def Model.bare (m : Model) : Model := ⟨m.schema, .empty, []⟩

section Models

variable (m : Model)

@[simp] theorem Model.schema_bare : m.bare.schema = m.schema := rfl

@[simp] theorem Model.fieldLayout_bare (type : TypeId) (i : Nat) :
    m.bare.fieldLayout type i = .embedded := rfl

@[simp] theorem Model.elementLayout_bare (type : TypeId) (nullable : Bool) :
    m.bare.elementLayout type nullable = .embedded := by
  cases nullable <;> rfl

theorem Model.absentSlots_bare (type : TypeId) (fields : List (Field TypeId)) :
    m.bare.absentSlots type fields = (m.absentSlots type fields).map Slot.bare := by
  rw [absentSlots, absentSlots, map_mapIdx]
  rfl

end Models

/-! ## Slots and members -/

theorem Maybe.given_map {α β : Type} (g : α → β) (value : Option α) :
    Maybe.given (value.map g) = (Maybe.given value).map g := by
  cases value <;> rfl

theorem Slot.bare_given (layout : Layout) (value : Option Value) :
    Slot.bare ⟨layout, .given value⟩ = ⟨.embedded, .given (value.map Value.bare)⟩ := by
  rw [Slot.bare, Maybe.given_map]

theorem Value.wrap_bare (member : Option Nat) (v : Value) :
    v.bare.wrap member = (v.wrap member).bare := by
  cases member with
  | none => rfl
  | some i => rw [wrap, wrap, bare_union]

/-- A slot is filled alike, whatever is forgotten of the values in it. -/
theorem fillSlot_map (g : Value → Value) (slots : List (Slot Value)) (i : Nat)
    (value : Option Value) :
    fillSlot (slots.map fun slot => ⟨.embedded, slot.content.map g⟩) i (value.map g) =
      (fillSlot slots i value).map fun slot => ⟨.embedded, slot.content.map g⟩ := by
  refine List.ext_getElem? fun j => ?_
  simp only [fillSlot, List.getElem?_map, List.getElem?_modify, Maybe.given_map]
  cases slots[j]? with
  | none => rfl
  | some slot => by_cases h : i = j <;> simp [h]

theorem fillSlot_bare (slots : List (Slot Value)) (i : Nat) (value : Option Value) :
    fillSlot (slots.map Slot.bare) i (value.map Value.bare) =
      (fillSlot slots i value).map Slot.bare :=
  fillSlot_map Value.bare slots i value

section Absence

variable {g : Slot Value → Slot Value} (absent : ∀ slot, (g slot).isAbsent = slot.isAbsent)
include absent

theorem missing?_map (fields : List (Field TypeId)) (slots : List (Slot Value)) :
    missing? fields (slots.map g) = missing? fields slots := by
  have asked : ((fun p : Field TypeId × Slot Value => !p.1.optional && p.2.isAbsent) ∘
      Prod.map id g) = fun p => !p.1.optional && p.2.isAbsent := by
    funext p
    simp [absent]
  rw [missing?, missing?, List.zip_map_right, List.find?_map, Option.map_map]
  exact congrArg (fun asked => (List.find? asked (fields.zip slots)).map Prod.fst) asked

theorem Schema.openField_map (s : Schema) (type : TypeId) (view : View) (keys : Renaming)
    (fields : List (Field TypeId)) (slots : List (Slot Value)) (key : String) :
    s.openField type view keys fields (slots.map g) key =
      s.openField type view keys fields slots key := by
  rw [openField, openField]
  cases (keys.nameOf? key).bind (Field.index? fields) with
  | none => rfl
  | some i =>
    simp only [List.getElem?_map]
    cases fields[i]? with
    | none => rfl
    | some f =>
      cases slots[i]? with
      | none => rfl
      | some slot => simp only [Option.map_some, absent]

end Absence

theorem missing?_bare (fields : List (Field TypeId)) (slots : List (Slot Value)) :
    missing? fields (slots.map Slot.bare) = missing? fields slots :=
  missing?_map Slot.isAbsent_bare fields slots

/-! ## Scalars -/

theorem Schema.enumMember_bare (s : Schema) (view : View) (type : TypeId) (members : List String)
    (repr : EnumRepr) (a : Scalar) :
    Value.bare <$> s.enumMember view type members repr a =
      s.enumMember view type members repr a := by
  simp only [enumMember]
  split
  · next text => cases members.idxOf? text <;> simp
  · next keys text => cases (EnumRepr.string keys).ofText? members text <;> simp
  · next values i => cases (EnumRepr.int values).ofInt? members i <;> simp
  · rfl

namespace Model

variable (m : Model) (view : View) (type : TypeId)

theorem joined_bare (fields : List (Field TypeId)) (separator text : String) :
    m.bare.joined type fields separator text =
      Value.bare <$> m.joined type fields separator text := by
  rw [joined, joined]
  by_cases arity : (Text.split separator text).length = fields.length
  · simp [arity, map_mapIdx, Slot.bare, Maybe.map]
  · simp only [arity, if_false]
    rfl

theorem ofScalar_bare (a : Scalar) :
    m.bare.ofScalar view type a = Value.bare <$> m.ofScalar view type a := by
  rw [ofScalar, ofScalar, schema_bare]
  cases m.schema.body type with
  | scalar kind =>
    by_cases h : a.kind = kind
    · simp [h]
    · simp only [h, if_false]
      rfl
  | enum members repr => exact (m.schema.enumMember_bare view type members repr a).symm
  | struct fields repr =>
    cases repr with
    | stringjoin separator =>
      cases view with
      | typed => rfl
      | representation =>
        cases a with
        | string text => exact m.joined_bare type fields separator text
        | _ => rfl
    | _ => rfl
  | _ => rfl

theorem assign_bare (a : Scalar) :
    m.bare.assign view type a = Value.bare <$> m.assign view type a := by
  rw [assign, assign, schema_bare]
  cases m.schema.target? view type (.scalar a.kind) with
  | none => rfl
  | some target =>
    simp only [ofScalar_bare, Functor.map_map, Value.wrap_bare]

@[simp] theorem keyText_bare (key : Value) : m.bare.keyText type key.bare = m.keyText type key := by
  rw [keyText, keyText]
  exact congrArg (Except.mapError NodeError.access)
    (Node.asString_bare (.typed ⟨m.schema, type, .representation, key⟩))

end Model

/-! ## Openings -/

def Demand.bare : Demand → Demand
  | value type => value type
  | name owner => name owner
  | pair owner keys fields slots => pair owner keys fields (slots.map Slot.bare)

def Opening.bare (o : Opening) : Opening := { o with demand := o.demand.bare }

def Piece.bare : Piece → Piece
  | content value => content (value.map Value.bare)
  | field i value => field i (value.map Value.bare)

namespace Opening

variable (s : Schema) (m : Model) (o : Opening)

@[simp] theorem nullable_bare : o.bare.nullable = o.nullable := rfl

@[simp] theorem type_bare : o.bare.type = o.type := by
  obtain ⟨demand, view, nullable⟩ := o
  cases demand <;> rfl

theorem null_bare : o.bare.null s = Piece.bare <$> o.null s := by
  rw [null, null, type_bare, nullable_bare]
  cases o.nullable <;> rfl

theorem scalar_bare (a : Scalar) : o.bare.scalar m.bare a = Piece.bare <$> o.scalar m a := by
  obtain ⟨demand, view, nullable⟩ := o
  cases demand with
  | value type => simp only [bare, Demand.bare, scalar, Model.assign_bare, Functor.map_map,
      Piece.bare, Option.map_some]
  | name owner =>
    cases a with
    | string text => simp [bare, Demand.bare, scalar, Piece.bare]
    | _ => rfl
  | pair owner keys fields slots => rfl

end Opening

/-! ## Maps -/

def MapContent.bare : MapContent → MapContent
  | entries key value nullable _ d => entries key value nullable .embedded d.bare
  | fields fs repr slots => fields fs repr (slots.map Slot.bare)
  | choice members repr present =>
    choice members repr (present.map fun (i, v) => (i, v.bare))

def MapPhase.bare : MapPhase → MapPhase
  | idle => idle
  | key => key
  | keyed k => keyed k.bare
  | entry k text => entry k.bare text
  | slot i => slot i

def MapFrame.bare (f : MapFrame) : MapFrame :=
  { f with content := f.content.bare, phase := f.phase.bare }

section Maps

variable (m : Model) (s : Schema) (view : View) (type : TypeId)

theorem Model.mapContent?_bare :
    m.bare.mapContent? view type = (m.mapContent? view type).map MapContent.bare := by
  rw [mapContent?, mapContent?, schema_bare]
  cases m.schema.body type with
  | map key value nullable nulls => simp [MapContent.bare, Dict.bare, Dict.empty]
  | struct fields repr =>
    cases view with
    | typed => simp [MapContent.bare, absentSlots_bare]
    | representation => cases repr <;> simp [MapContent.bare, absentSlots_bare]
  | union members repr =>
    cases view with
    | typed => rfl
    | representation => cases repr <;> rfl
  | _ => rfl

theorem Opening.openMap_bare (o : Opening) :
    o.bare.openMap m.bare = MapFrame.bare <$> o.openMap m := by
  obtain ⟨demand, view, nullable⟩ := o
  cases demand with
  | value type =>
    simp only [bare, Demand.bare, openMap, Model.schema_bare]
    cases m.schema.target? view type .map with
    | none => rfl
    | some target =>
      simp only [Model.mapContent?_bare]
      cases m.mapContent? view target.2 <;> rfl
  | name owner => rfl
  | pair owner keys fields slots => rfl

theorem Schema.openField_bare (keys : Renaming) (fields : List (Field TypeId))
    (slots : List (Slot Value)) (key : String) :
    s.openField type view keys fields (slots.map Slot.bare) key =
      Prod.map id Opening.bare <$> s.openField type view keys fields slots key := by
  rw [openField_map Slot.isAbsent_bare, openField]
  cases (keys.nameOf? key).bind (Field.index? fields) with
  | none => rfl
  | some i =>
    dsimp only
    cases fields[i]? with
    | none => rfl
    | some f =>
      cases slots[i]? with
      | none => rfl
      | some slot =>
        dsimp only
        cases slot.isAbsent <;> rfl

theorem Schema.openMember_bare (members : List TypeId) (repr : UnionRepr)
    (present : Option (Nat × Value)) (key : String) :
    s.openMember type view members repr (present.map fun (i, v) => (i, v.bare)) key =
      Prod.map id Opening.bare <$> s.openMember type view members repr present key := by
  simp only [openMember]
  split
  · rfl
  · next i _ =>
    cases members[i]? with
    | none => rfl
    | some member => cases present <;> rfl

end Maps

namespace MapFrame

variable (m : Model) (f : MapFrame)

theorem settled_bare : f.bare.settled m.bare = f.settled m := by
  obtain ⟨type, view, member, content, phase⟩ := f
  cases phase <;> rfl

theorem openEntry_bare (keyType valueType : TypeId) (nullable : Bool) (d : Dict Value)
    (key : Value) :
    f.bare.openEntry m.bare keyType valueType nullable d.bare key.bare =
      Prod.map bare Opening.bare <$> f.openEntry m keyType valueType nullable d key := by
  simp only [openEntry, Model.keyText_bare, map_bind, Dict.contains_bare]
  refine congrArg (_ >>= ·) (funext fun text => ?_)
  cases d.contains text <;> rfl

theorem openNamed_bare (key : String) :
    f.bare.openNamed m.bare key = Prod.map bare Opening.bare <$> f.openNamed m key := by
  obtain ⟨type, view, member, content, phase⟩ := f
  cases content with
  | entries kt vt nullable layout d => rfl
  | fields fields repr slots =>
    simp only [openNamed, bare, MapContent.bare, Model.schema_bare, Schema.openField_bare,
      map_bind, bind_map_left]
    rfl
  | choice members repr present =>
    simp only [openNamed, bare, MapContent.bare, Model.schema_bare, Schema.openMember_bare,
      map_bind, bind_map_left]
    rfl

theorem entry_bare (key : String) :
    f.bare.entry m.bare key = Prod.map bare Opening.bare <$> f.entry m key := by
  have named := f.openNamed_bare m key
  have opened := f.openEntry_bare m
  simp only [entry, settled_bare, map_bind]
  refine congrArg (_ >>= ·) (funext fun _ => ?_)
  obtain ⟨type, view, member, content, phase⟩ := f
  cases content with
  | entries kt vt nullable layout d =>
    simp only [bare, MapContent.bare, Model.schema_bare, Model.assign_bare, bind_map_left, map_bind]
    exact congrArg (_ >>= ·) (funext fun k => opened kt vt nullable d k)
  | fields fields repr slots => exact named
  | choice members repr present => exact named

theorem key_bare : f.bare.key m.bare = Prod.map bare Opening.bare <$> f.key m := by
  simp only [key, settled_bare, map_bind]
  refine congrArg (_ >>= ·) (funext fun _ => ?_)
  obtain ⟨type, view, member, content, phase⟩ := f
  cases content <;> rfl

/-- The value of a field or member is opened by a name, which has no layouts. -/
theorem value_bare : f.bare.value m.bare = Prod.map bare Opening.bare <$> f.value m := by
  have named := f.openNamed_bare m
  have opened := f.openEntry_bare m
  obtain ⟨type, view, member, content, phase⟩ := f
  cases phase with
  | keyed key =>
    cases content with
    | entries kt vt nullable layout d => exact opened kt vt nullable d key
    | _ =>
      cases key with
      | scalar a =>
        cases a with
        | string name => exact named name
        | _ => rfl
      | _ =>
        simp only [value, bare, MapContent.bare, MapPhase.bare, Value.bare_list, Value.bare_map,
          Value.bare_struct, Value.bare_union, Value.bare_enum]
        rfl
  | _ => rfl

theorem place_bare (piece : Piece) : f.bare.place piece.bare = (f.place piece).bare := by
  obtain ⟨type, view, member, content, phase⟩ := f
  cases piece with
  | field i value => cases phase <;> cases content <;> rfl
  | content value =>
    cases phase with
    | idle => cases content <;> rfl
    | keyed key => cases content <;> rfl
    | key => cases value <;> rfl
    | entry key text =>
      cases content with
      | entries kt vt nullable layout d =>
        have inserted := d.insert_bare ⟨key, text, ⟨layout, .given value⟩⟩
        rw [Entry.bare, Slot.bare_given] at inserted
        simp only [place, bare, Piece.bare, MapContent.bare, MapPhase.bare, inserted]
      | _ => rfl
    | slot i =>
      cases content with
      | fields fields repr slots =>
        simp only [place, bare, Piece.bare, MapContent.bare, MapPhase.bare, fillSlot_bare]
      | _ => cases value <;> rfl

theorem finished_bare : f.bare.finished m.bare = Value.bare <$> f.finished m := by
  obtain ⟨type, view, member, content, phase⟩ := f
  cases content with
  | entries kt vt nullable layout d => simp [finished, bare, MapContent.bare]
  | fields fields repr slots =>
    simp only [finished, bare, MapContent.bare, missing?_bare]
    cases missing? fields slots <;> simp
  | choice members repr present =>
    cases present <;> simp [finished, bare, MapContent.bare]

theorem close_bare : f.bare.close m.bare = Piece.bare <$> f.close m := by
  simp only [close, settled_bare, finished_bare, map_bind, bind_map_left]
  refine congrArg (_ >>= ·) (funext fun _ => congrArg (_ >>= ·) (funext fun v => ?_))
  rw [show f.bare.member = f.member from rfl, Value.wrap_bare]
  rfl

theorem inView_bare (view : View) : f.bare.inView m.bare view = bare <$> f.inView m view := by
  simp only [inView, Model.schema_bare, show f.bare.type = f.type from rfl]
  split <;> rfl

end MapFrame

/-! ## Lists -/

def PairStage.bare : PairStage → PairStage
  | empty => empty
  | key => key
  | keyed k => keyed k
  | value i => value i
  | full i v => full i (v.map Value.bare)

def ListContent.bare : ListContent → ListContent
  | items elem nullable _ slots => items elem nullable .embedded (slots.map Slot.bare)
  | tuple fields slots next => tuple fields (slots.map Slot.bare) next
  | pairs keys fields slots => pairs keys fields (slots.map Slot.bare)
  | pair keys fields slots stage => pair keys fields (slots.map Slot.bare) stage.bare

def ListFrame.bare (f : ListFrame) : ListFrame := { f with content := f.content.bare }

section Lists

variable (m : Model)

theorem Model.listContent?_bare (view : View) (type : TypeId) :
    m.bare.listContent? view type = (m.listContent? view type).map ListContent.bare := by
  rw [listContent?, listContent?, schema_bare]
  cases m.schema.body type with
  | list elem nullable => simp [ListContent.bare]
  | struct fields repr =>
    cases view with
    | typed => rfl
    | representation => cases repr <;> simp [ListContent.bare, absentSlots_bare]
  | _ => rfl

theorem Opening.openList_bare (o : Opening) :
    o.bare.openList m.bare = ListFrame.bare <$> o.openList m := by
  obtain ⟨demand, view, nullable⟩ := o
  cases demand with
  | value type =>
    simp only [bare, Demand.bare, openList, Model.schema_bare]
    cases m.schema.target? view type .list with
    | none => rfl
    | some target =>
      simp only [Model.listContent?_bare]
      cases m.listContent? view target.2 <;> rfl
  | name owner => rfl
  | pair owner keys fields slots => rfl

end Lists

namespace ListFrame

variable (m : Model) (f : ListFrame)

theorem item_bare : f.bare.item m.bare = Prod.map bare Opening.bare <$> f.item m := by
  obtain ⟨type, view, member, content, busy⟩ := f
  cases content with
  | items elem nullable layout slots => cases busy <;> rfl
  | tuple fields slots next =>
    cases busy with
    | true => rfl
    | false =>
      simp only [item, bare, ListContent.bare, settled, map_bind]
      cases fields[next]? <;> rfl
  | pairs keys fields slots => cases busy <;> rfl
  | pair keys fields slots stage =>
    cases stage with
    | keyed key =>
      simp only [item, bare, ListContent.bare, PairStage.bare, Model.schema_bare,
        Schema.openField_bare, map_bind, bind_map_left]
      rfl
    | _ => rfl

theorem place_bare (piece : Piece) : f.bare.place piece.bare = (f.place piece).bare := by
  obtain ⟨type, view, member, content, busy⟩ := f
  cases content with
  | items elem nullable layout slots =>
    cases piece with
    | content value =>
      simp only [place, bare, Piece.bare, ListContent.bare, List.map_append, List.map_cons,
        List.map_nil, Slot.bare_given]
    | field i value => rfl
  | tuple fields slots next =>
    cases piece with
    | content value => simp only [place, bare, Piece.bare, ListContent.bare, fillSlot_bare]
    | field i value => rfl
  | pairs keys fields slots =>
    cases piece with
    | content value => rfl
    | field i value => simp only [place, bare, Piece.bare, ListContent.bare, fillSlot_bare]
  | pair keys fields slots stage =>
    cases piece with
    | field i value => cases stage <;> rfl
    | content value =>
      cases stage with
      | key =>
        -- only a text becomes the key of a pair, and a text has no layouts
        cases value with
        | none => rfl
        | some v =>
          cases v with
          | scalar a => cases a <;> rfl
          | _ =>
            simp only [place, bare, Piece.bare, ListContent.bare, PairStage.bare, Option.map_some,
              Value.bare_list, Value.bare_map, Value.bare_struct, Value.bare_union, Value.bare_enum]
      | _ => rfl

theorem struct_bare (fields : List (Field TypeId)) (slots : List (Slot Value)) :
    f.bare.struct m.bare fields (slots.map Slot.bare) = Piece.bare <$> f.struct m fields slots := by
  simp only [struct, missing?_bare]
  cases missing? fields slots with
  | some field => rfl
  | none =>
    rw [← Value.bare_struct, Value.wrap_bare]
    rfl

theorem close_bare : f.bare.close m.bare = Piece.bare <$> f.close m := by
  have fields := f.struct_bare m
  obtain ⟨type, view, member, content, busy⟩ := f
  cases content with
  | items elem nullable layout slots =>
    cases busy with
    | true => rfl
    | false =>
      simp only [close, bare, ListContent.bare, ← Value.bare_list, Value.wrap_bare]
      rfl
  | tuple fs slots next =>
    cases busy with
    | true => rfl
    | false => exact fields fs slots
  | pairs keys fs slots =>
    cases busy with
    | true => rfl
    | false => exact fields fs slots
  | pair keys fs slots stage => cases stage <;> rfl

theorem inView_bare (view : View) : f.bare.inView m.bare view = bare <$> f.inView m view := by
  obtain ⟨type, old, member, content, busy⟩ := f
  cases content with
  | pair keys fields slots stage => cases view <;> rfl
  | _ =>
    simp only [inView, bare, ListContent.bare, Model.schema_bare]
    by_cases isList : (m.schema.body type).assembledKind? view = some .list
    · simp only [isList, if_true]
      rfl
    · simp only [isList, if_false]
      rfl

end ListFrame

/-! ## Whole trees -/

namespace Opening

variable (m : Model)

mutual

/-- **Copying a tree does not see layouts.** -/
theorem copy_bare : (t : Tree) → ∀ o : Opening, o.bare.copy m.bare t = Piece.bare <$> o.copy m t
  | .null, o => by rw [copy, copy, Model.schema_bare, null_bare]
  | .scalar a, o => by rw [copy, copy, scalar_bare]
  | .list items, o => by
    simp only [copy, openList_bare, copyItems_bare items, bind_map_left, map_bind,
      ListFrame.close_bare]
  | .map entries, o => by
    simp only [copy, openMap_bare, copyEntries_bare entries, bind_map_left, map_bind,
      MapFrame.close_bare]

theorem copyItems_bare : (items : List Tree) → ∀ f : ListFrame,
    copyItems m.bare f.bare items = ListFrame.bare <$> copyItems m f items
  | [], f => rfl
  | t :: rest, f => by
    simp only [copyItems, ListFrame.item_bare, bind_map_left, map_bind, Prod.map_fst, Prod.map_snd,
      copy_bare t, ListFrame.place_bare, copyItems_bare rest]

theorem copyEntries_bare : (entries : List (Tree × Tree)) → ∀ f : MapFrame,
    copyEntries m.bare f.bare entries = MapFrame.bare <$> copyEntries m f entries
  | [], f => rfl
  | (k, t) :: rest, f => by
    simp only [copyEntries, MapFrame.key_bare, bind_map_left, map_bind, Prod.map_fst, Prod.map_snd,
      copy_bare k, copy_bare t, MapFrame.place_bare, MapFrame.value_bare, copyEntries_bare rest]

end

mutual

/-- **Filling in a data tree does not see layouts.** -/
theorem fill_bare : (d : Datum) → ∀ o : Opening, o.bare.fill m.bare d = Piece.bare <$> o.fill m d
  | .null, o => by rw [fill, fill, Model.schema_bare, null_bare]
  | .scalar a, o => by rw [fill, fill, scalar_bare]
  | .list items, o => by
    simp only [fill, openList_bare, fillItems_bare items, bind_map_left, map_bind,
      ListFrame.close_bare]
  | .map entries, o => by
    simp only [fill, openMap_bare, fillEntries_bare entries, bind_map_left, map_bind,
      MapFrame.close_bare]

theorem fillItems_bare : (items : List Datum) → ∀ f : ListFrame,
    fillItems m.bare f.bare items = ListFrame.bare <$> fillItems m f items
  | [], f => rfl
  | d :: rest, f => by
    simp only [fillItems, ListFrame.item_bare, bind_map_left, map_bind, Prod.map_fst, Prod.map_snd,
      fill_bare d, ListFrame.place_bare, fillItems_bare rest]

theorem fillEntries_bare : (entries : List (String × Datum)) → ∀ f : MapFrame,
    fillEntries m.bare f.bare entries = MapFrame.bare <$> fillEntries m f entries
  | [], f => rfl
  | (key, d) :: rest, f => by
    simp only [fillEntries, MapFrame.entry_bare, bind_map_left, map_bind, Prod.map_fst,
      Prod.map_snd, fill_bare d, MapFrame.place_bare, fillEntries_bare rest]

end

end Opening

end DualView
