import DualView.Proofs.Assembly.Bare
import DualView.Proofs.Assembly.Soundness
import DualView.Proofs.Value.Plain

/-!
# Building in the typed view

Two models whose schemas differ in representation alone build alike in the typed view.  Compounds
under construction *resemble* each other if they are in the typed view and hold the same, up to
layouts and the texts of keys; each step takes compounds that resemble each other to such, and opens
the same, or fails alike.  Only the text that an error names for a key that is taken may differ.

* `MapFrame.Resembles.entry`, `MapFrame.Resembles.value`, `ListFrame.Resembles.item`: steps.
* `MapFrame.Resembles.place`, `ListFrame.Resembles.place`: what fills an opening.
* `MapFrame.Resembles.close`, `ListFrame.Resembles.close`: what is finished.
* `Opening.Typed.copy`, `Opening.Typed.fill`: whole trees.
-/

namespace DualView

/-! ## Outcomes -/

/-- The error without the text of the key that is taken. -/
def NodeError.keyless : NodeError → NodeError
  | assembly (.duplicateKey type _) => assembly (.duplicateKey type "")
  | e => e

/-- Two computations fail alike, up to the text of a key that is taken, or succeed with results that
go together. -/
inductive Agrees {α β : Type} (R : α → β → Prop) : Except NodeError α → Except NodeError β → Prop
  | error {e e' : NodeError} (same : e.keyless = e'.keyless) : Agrees R (.error e) (.error e')
  | ok {a : α} {b : β} (h : R a b) : Agrees R (.ok a) (.ok b)

namespace Agrees

variable {α β γ δ : Type} {R : α → β → Prop} {S : γ → δ → Prop} {x : Except NodeError α}
  {y : Except NodeError β}

theorem of_eq {R : α → α → Prop} {x y : Except NodeError α} (h : x = y)
    (same : ∀ a, y = .ok a → R a a) : Agrees R x y := by
  subst h
  cases x with
  | error e => exact .error rfl
  | ok a => exact .ok (same a rfl)

theorem bind (h : Agrees R x y) {f : α → Except NodeError γ} {g : β → Except NodeError δ}
    (next : ∀ a b, x = .ok a → y = .ok b → R a b → Agrees S (f a) (g b)) :
    Agrees S (x >>= f) (y >>= g) := by
  cases h with
  | error same => exact .error same
  | ok hab => exact next _ _ rfl rfl hab

theorem bind_eq {x y : Except NodeError α} (h : x = y) {f : α → Except NodeError γ}
    {g : α → Except NodeError δ} (next : ∀ a, x = .ok a → y = .ok a → Agrees S (f a) (g a)) :
    Agrees S (x >>= f) (y >>= g) := by
  subst h
  cases x with
  | error e => exact .error rfl
  | ok a => exact next a rfl rfl

theorem map (h : Agrees R x y) {f : α → γ} {g : β → δ} (next : ∀ a b, R a b → S (f a) (g b)) :
    Agrees S (f <$> x) (g <$> y) := by
  cases h with
  | error same => exact .error same
  | ok hab => exact .ok (next _ _ hab)

end Agrees

/-! ## What is under construction -/

/-- An opening for a value or a name, in the typed view. -/
inductive Opening.Typed : Opening → Prop
  | value (type : TypeId) (nullable : Bool) : Typed ⟨.value type, .typed, nullable⟩
  | name (owner : TypeId) (nullable : Bool) : Typed ⟨.name owner, .typed, nullable⟩

/-- Values, or nulls, with one plain value. -/
inductive Piece.Resembles : Piece → Piece → Prop
  | content {c c' : Option Value} (same : c.map Value.plain = c'.map Value.plain) :
      Resembles (.content c) (.content c')

inductive MapContent.Resembles : MapContent → MapContent → Prop
  | entries {key value : TypeId} {nullable : Bool} {layout layout' : Layout}
      {dict dict' : Dict Value}
      (same : dict.plain = dict'.plain) :
      Resembles (.entries key value nullable layout dict)
        (.entries key value nullable layout' dict')
  | fields {fields : List (Field TypeId)} {repr repr' : StructRepr}
      {slots slots' : List (Slot Value)}
      (same : slots.map Slot.plain = slots'.map Slot.plain) :
      Resembles (.fields fields repr slots) (.fields fields repr' slots')
  | choice {members : List TypeId} {repr repr' : UnionRepr}
      {present present' : Option (Nat × Value)}
      (same : present.map (Prod.map id Value.plain) = present'.map (Prod.map id Value.plain)) :
      Resembles (.choice members repr present) (.choice members repr' present')

inductive MapPhase.Resembles : MapPhase → MapPhase → Prop
  | idle : Resembles .idle .idle
  | key : Resembles .key .key
  | keyed {k k' : Value} (same : k.plain = k'.plain) : Resembles (.keyed k) (.keyed k')
  | entry {k k' : Value} {text text' : String} (same : k.plain = k'.plain) :
      Resembles (.entry k text) (.entry k' text')
  | slot (i : Nat) : Resembles (.slot i) (.slot i)

inductive MapFrame.Resembles : MapFrame → MapFrame → Prop
  | mk {type : TypeId} {content content' : MapContent} {phase phase' : MapPhase}
      (contents : content.Resembles content') (phases : phase.Resembles phase') :
      Resembles ⟨type, .typed, none, content, phase⟩ ⟨type, .typed, none, content', phase'⟩

/-- Lists in the typed view, with the same in them.  Only lists are assembled as lists there. -/
inductive ListFrame.Resembles : ListFrame → ListFrame → Prop
  | mk {type elem : TypeId} {nullable : Bool} {layout layout' : Layout}
      {slots slots' : List (Slot Value)} {busy : Bool}
      (same : slots.map Slot.plain = slots'.map Slot.plain) :
      Resembles ⟨type, .typed, none, .items elem nullable layout slots, busy⟩
        ⟨type, .typed, none, .items elem nullable layout' slots', busy⟩

inductive SameStep {α : Type} (R : α → α → Prop) : α × Opening → α × Opening → Prop
  | mk {f f' : α} {o : Opening} (same : R f f') (typed : o.Typed) : SameStep R (f, o) (f', o)

/-! ## Slots -/

section Slots

variable {slots slots' : List (Slot Value)} (same : slots.map Slot.plain = slots'.map Slot.plain)
include same

theorem fillSlot_plain_eq {value value' : Option Value}
    (given : value.map Value.plain = value'.map Value.plain) (i : Nat) :
    (fillSlot slots i value).map Slot.plain = (fillSlot slots' i value').map Slot.plain := by
  have filled (slots : List (Slot Value)) (value : Option Value) :
      (fillSlot slots i value).map Slot.plain =
        fillSlot (slots.map Slot.plain) i (value.map Value.plain) :=
    (fillSlot_map Value.plain slots i value).symm
  rw [filled, filled, same, given]

theorem missing?_eq_of_plain (fields : List (Field TypeId)) :
    missing? fields slots = missing? fields slots' := by
  rw [← missing?_map Slot.isAbsent_plain, same, missing?_map Slot.isAbsent_plain]

theorem Schema.openField_eq_of_plain (s : Schema) (type : TypeId) (view : View) (keys : Renaming)
    (fields : List (Field TypeId)) (key : String) :
    s.openField type view keys fields slots key = s.openField type view keys fields slots' key := by
  rw [← openField_map Slot.isAbsent_plain, same, openField_map Slot.isAbsent_plain]

end Slots

theorem Slot.plain_given_eq {value value' : Option Value}
    (given : value.map Value.plain = value'.map Value.plain) (layout layout' : Layout) :
    Slot.plain ⟨layout, .given value⟩ = Slot.plain ⟨layout', .given value'⟩ := by
  rw [Slot.plain, Slot.plain, ← Maybe.given_map, ← Maybe.given_map, given]

theorem Dict.plain_insert_eq {d d' : Dict Value} (same : d.plain = d'.plain) {e e' : Entry Value}
    (new : d.contains e.text = false) (new' : d'.contains e'.text = false)
    (added : e.plain = e'.plain) : (d.insert e).plain = (d'.insert e').plain := by
  have entries : d.entries.map Entry.plain = d'.entries.map Entry.plain :=
    congrArg Dict.entries same
  simp only [Dict.plain, MapFrame.dict_insert new, MapFrame.dict_insert new', List.map_append,
    List.map_cons, List.map_nil, entries, added]

/-! ## Fields and members -/

namespace Schema.Resembles

variable {s s' : Schema} (h : s.Resembles s')
include h

theorem openField_eq (type : TypeId) (view : View) (keys : Renaming) (fields : List (Field TypeId))
    (slots : List (Slot Value)) (key : String) :
    s.openField type view keys fields slots key = s'.openField type view keys fields slots key := by
  simp only [openField, h.nameOf_eq, h.unrecognized_eq]

theorem openMember_eq (type : TypeId) (members : List TypeId) (repr repr' : UnionRepr)
    (key : String) {present present' : Option (Nat × Value)} (same : present.isSome = present'.isSome) :
    s.openMember type .typed members repr present key =
      s'.openMember type .typed members repr' present' key := by
  simp only [openMember, h.nameOf_eq, h.unrecognized_eq]
  split
  · rfl
  · next i _ =>
    cases members[i]? <;> cases present <;> cases present' <;> first | contradiction | rfl

end Schema.Resembles

variable {m m' : Model}

section Twins

variable (twins : m.schema.Twins m'.schema)
include twins

/-! ## Scalars -/

/-- In the typed view a scalar stands for one value, whatever the representation. -/
theorem Model.ofScalar_eq (type : TypeId) (a : Scalar) :
    m.ofScalar .typed type a = m'.ofScalar .typed type a := by
  have mismatch := twins.resembles.mismatch_eq type (.scalar a.kind)
  have unrecognized := twins.resembles.unrecognized_eq type
  have bodies := twins.resembles.body type
  rw [ofScalar, ofScalar]
  generalize m.schema.body type = b, m'.schema.body type = b' at bodies
  cases bodies with
  | scalar kind => simp only [mismatch]
  | enum members repr repr' =>
    cases a <;> cases repr <;> cases repr' <;> simp only [Schema.enumMember, unrecognized, mismatch]
  | struct fields repr repr' => cases repr <;> cases repr' <;> exact congrArg Except.error mismatch
  | _ => exact congrArg Except.error mismatch

theorem Model.assign_eq (type : TypeId) (a : Scalar) :
    m.assign .typed type a = m'.assign .typed type a := by
  have read := Model.ofScalar_eq twins type a
  simp only [assign, Schema.target?, read]

namespace Opening

variable {o : Opening}

theorem null_eq (o : Opening) : o.null m.schema = o.null m'.schema := by
  rw [null, null, twins.resembles.nameOf_eq]

theorem Typed.mismatch_eq (typed : o.Typed) (found : Kind) :
    o.mismatch m.schema found = o.mismatch m'.schema found := by
  cases typed with
  | value type nullable => exact twins.resembles.mismatch_eq type found
  | name owner nullable => simp only [mismatch, twins.resembles.nameOf_eq]

theorem Typed.scalar_eq (typed : o.Typed) (a : Scalar) : o.scalar m a = o.scalar m' a := by
  have mismatch := typed.mismatch_eq twins (.scalar a.kind)
  cases typed with
  | value type nullable => simp only [scalar, Model.assign_eq twins]
  | name owner nullable => cases a <;> simp only [scalar, mismatch]

theorem null_agrees : Agrees Piece.Resembles (o.null m.schema) (o.null m'.schema) := by
  refine .of_eq (null_eq twins o) fun piece h => ?_
  rw [null] at h
  split at h
  · cases h
    exact .content rfl
  · contradiction

theorem Typed.scalar_agrees (typed : o.Typed) (a : Scalar) :
    Agrees Piece.Resembles (o.scalar m a) (o.scalar m' a) := by
  refine .of_eq (typed.scalar_eq twins a) fun piece h => ?_
  cases typed with
  | value type nullable =>
    obtain ⟨v, -, rfl⟩ := map_eq_ok_iff.mp h
    exact .content rfl
  | name owner nullable =>
    cases a with
    | string text =>
      cases h
      exact .content rfl
    | _ => contradiction

/-! ## Beginning -/

theorem mapContent?_rel (type : TypeId) :
    Option.Rel MapContent.Resembles (m.mapContent? .typed type) (m'.mapContent? .typed type) := by
  have bodies := twins.resembles.body type
  rw [Model.mapContent?, Model.mapContent?]
  generalize m.schema.body type = b, m'.schema.body type = b' at bodies
  cases bodies with
  | map key value nullable nulls nulls' => exact .some (.entries rfl)
  | struct fields repr repr' =>
    refine .some (.fields ?_)
    rw [Model.absentSlots, Model.absentSlots, map_mapIdx, map_mapIdx]
    rfl
  | union members repr repr' => exact .some (.choice rfl)
  | _ => exact .none

/-- **In the typed view maps begin alike.** -/
theorem Typed.openMap (typed : o.Typed) :
    Agrees MapFrame.Resembles (o.openMap m) (o.openMap m') := by
  cases typed with
  | value type nullable =>
    have contents := mapContent?_rel twins type
    simp only [Opening.openMap, Schema.target?]
    obtain ⟨content, content', hc, hc', same⟩ | ⟨hc, hc'⟩ := rel_iff.mp contents <;>
      simp only [hc, hc']
    · exact .ok (.mk same .idle)
    · exact .error (congrArg _ (twins.resembles.mismatch_eq type .map))
  | name owner nullable =>
    exact .error (congrArg _ ((name owner nullable).mismatch_eq twins .map))

/-- **In the typed view lists begin alike.** -/
theorem Typed.openList (typed : o.Typed) :
    Agrees ListFrame.Resembles (o.openList m) (o.openList m') := by
  have mismatch := typed.mismatch_eq twins .list
  cases typed with
  | value type nullable =>
    have bodies := twins.resembles.body type
    have refused : m.schema.mismatch .typed type .list = m'.schema.mismatch .typed type .list :=
      twins.resembles.mismatch_eq type .list
    simp only [Opening.openList, Schema.target?, Model.listContent?]
    generalize m.schema.body type = b, m'.schema.body type = b' at bodies
    cases bodies with
    | list elem nullable => exact .ok (.mk rfl)
    | _ => exact .error (congrArg _ refused)
  | name owner nullable => exact .error (congrArg _ mismatch)

end Opening

/-! ## Maps -/

namespace MapFrame

variable {f f' : MapFrame}

theorem Resembles.incomplete_eq (h : f.Resembles f') : f.incomplete m = f'.incomplete m' := by
  cases h with
  | mk contents phases => simp only [incomplete, twins.resembles.nameOf_eq]

theorem Resembles.settled_eq (h : f.Resembles f') : f.settled m = f'.settled m' := by
  have incomplete := h.incomplete_eq twins
  cases h with
  | mk contents phases => cases phases <;> simp only [settled, incomplete]

/-- A key that is given in two models opens the same entry, unless it is taken in both. -/
theorem Resembles.openEntry (h : f.Resembles f') (sound : f.Sound m.schema)
    (sound' : f'.Sound m'.schema) {key value : TypeId} {nullable : Bool} {layout layout' : Layout}
    {dict dict' : Dict Value} (hc : f.content = .entries key value nullable layout dict)
    (hc' : f'.content = .entries key value nullable layout' dict') {k : Value}
    (fits : m.schema.Fits key k) (fits' : m'.schema.Fits key k) :
    Agrees (SameStep Resembles) (f.openEntry m key value nullable dict k)
      (f'.openEntry m' key value nullable dict' k) := by
  cases h with
  | mk contents phases =>
    subst hc hc'
    cases contents with
    | entries same =>
      obtain ⟨⟨⟨nulls, body⟩, fitsMap⟩, -⟩ := sound
      obtain ⟨⟨⟨nulls', body'⟩, fitsMap'⟩, -⟩ := sound'
      obtain ⟨text, ht⟩ := (twins.textKey body).exists_text fits
      obtain ⟨text', ht'⟩ := (twins.symm.textKey body').exists_text fits'
      have entries := Schema.sameEntries_of_plain_eq body body' fitsMap fitsMap' same
      have taken := twins.contains_eq body body' fits fits' ht ht' entries
      rw [openEntry, openEntry, Model.keyText_eq_ok_iff.mpr ht, Model.keyText_eq_ok_iff.mpr ht']
      simp only [bind, Except.bind, taken, twins.resembles.nameOf_eq]
      cases dict'.contains text' with
      | true => exact .error rfl
      | false => exact .ok ⟨.mk (.entries same) (.entry rfl), .value value nullable⟩

/-- **A name opens the same field or member.** -/
theorem Resembles.openNamed (h : f.Resembles f') (key : String) :
    Agrees (SameStep Resembles) (f.openNamed m key) (f'.openNamed m' key) := by
  cases h with
  | @mk type content content' phase phase' contents phases =>
    cases contents with
    | entries same => exact .error (congrArg _ (twins.resembles.unrecognized_eq type key))
    | @fields fields repr repr' slots slots' same =>
      have opened := (m.schema.openField_eq_of_plain same type .typed .none fields key).trans
        (twins.resembles.openField_eq type .typed .none fields slots' key)
      refine Agrees.bind_eq opened ?_
      rintro ⟨i, o⟩ ho -
      obtain ⟨-, f, slot, -, -, -, rfl⟩ := Schema.openField_eq_ok_iff.mp ho
      exact .ok ⟨.mk (.fields same) (.slot i), .value ..⟩
    | @choice members repr repr' present present' same =>
      have held : present.isSome = present'.isSome := by simpa using congrArg Option.isSome same
      have opened := twins.resembles.openMember_eq type members repr repr' key held
      refine Agrees.bind_eq opened ?_
      rintro ⟨i, o⟩ ho -
      obtain ⟨-, -, member, -, rfl⟩ := Schema.openMember_eq_ok_iff.mp ho
      exact .ok ⟨.mk (.choice same) (.slot i), .value ..⟩

/-- **A key that is given as text opens the same.** -/
theorem Resembles.entry (h : f.Resembles f') (sound : f.Sound m.schema)
    (sound' : f'.Sound m'.schema) (key : String) :
    Agrees (SameStep Resembles) (f.entry m key) (f'.entry m' key) := by
  have frames := h
  rw [MapFrame.entry, MapFrame.entry]
  refine Agrees.bind_eq (h.settled_eq twins) fun _ _ _ => ?_
  cases h with
  | mk contents phases =>
    cases contents with
    | entries same =>
      obtain ⟨⟨nulls, body⟩, -⟩ := sound.1
      obtain ⟨⟨nulls', body'⟩, -⟩ := sound'.1
      simp only [(twins.textKey body).kind_eq, (twins.symm.textKey body').kind_eq, if_true]
      refine Agrees.bind_eq (Model.assign_eq twins _ _) fun k hk hk' => ?_
      exact frames.openEntry twins sound sound' rfl rfl (Opening.assign_fits twins.valid hk)
        (Opening.assign_fits twins.valid' hk')
    | fields same => exact frames.openNamed twins key
    | choice same => exact frames.openNamed twins key

/-- **The key of an entry opens alike.** -/
theorem Resembles.key (h : f.Resembles f') :
    Agrees (SameStep Resembles) (f.key m) (f'.key m') := by
  rw [MapFrame.key, MapFrame.key]
  refine Agrees.bind_eq (h.settled_eq twins) fun _ _ _ => ?_
  cases h with
  | mk contents phases =>
    cases contents with
    | entries same => exact .ok ⟨.mk (.entries same) .key, .value ..⟩
    | fields same => exact .ok ⟨.mk (.fields same) .key, .name ..⟩
    | choice same => exact .ok ⟨.mk (.choice same) .key, .name ..⟩

/-- **The value of the entry whose key is known opens alike.** -/
theorem Resembles.value (h : f.Resembles f') (sound : f.Sound m.schema)
    (sound' : f'.Sound m'.schema) :
    Agrees (SameStep Resembles) (f.value m) (f'.value m') := by
  have frames := h
  have refused := congrArg NodeError.keyless (h.incomplete_eq twins)
  cases h with
  | mk contents phases =>
    cases phases with
    | @keyed k k' same =>
      cases contents with
      | entries =>
        obtain ⟨⟨nulls, body⟩, -⟩ := sound.1
        obtain ⟨⟨nulls', body'⟩, -⟩ := sound'.1
        obtain rfl := twins.key_eq body body' sound.2 sound'.2 same
        exact frames.openEntry twins sound sound' rfl rfl sound.2 sound'.2
      | _ =>
        -- a field or member is opened by its name
        cases k with
        | scalar a =>
          obtain rfl := Value.eq_scalar_of_plain_eq (same.symm.trans (Value.plain_scalar a))
          cases a with
          | string name => exact frames.openNamed twins name
          | _ => exact .error refused
        | _ => cases k' <;> first | exact .error refused | simp at same
    | _ => exact .error refused

omit twins in
/-- **What fills the opening at hand leaves the same.** -/
theorem Resembles.place {s s' : Schema} (h : f.Resembles f') (sound : f.Sound s)
    (sound' : f'.Sound s') {piece piece' : Piece} (pieces : piece.Resembles piece') :
    (f.place piece).Resembles (f'.place piece') := by
  obtain ⟨given⟩ := pieces
  rename_i c c'
  cases h with
  | mk contents phases =>
    cases phases with
    | idle => exact .mk contents .idle
    | keyed same => exact .mk contents (.keyed same)
    | key =>
      cases c <;> cases c' <;> first | contradiction | skip
      · exact .mk contents .key
      · exact .mk contents (.keyed (Option.some.inj given))
    | @entry k k' text text' same =>
      cases contents with
      | @entries _ _ _ layout layout' dict dict' dicts =>
        obtain ⟨-, -, -, new⟩ := sound
        obtain ⟨-, -, -, new'⟩ := sound'
        refine .mk (.entries (Dict.plain_insert_eq dicts new new' ?_)) .idle
        exact congrArg₂ (Entry.mk · "") same (Slot.plain_given_eq given layout layout')
      | fields dicts => exact .mk (.fields dicts) (.entry same)
      | choice dicts => exact .mk (.choice dicts) (.entry same)
    | slot i =>
      cases contents with
      | entries same => exact .mk (.entries same) (.slot i)
      | fields same => exact .mk (.fields (fillSlot_plain_eq same given i)) .idle
      | choice same =>
        cases c <;> cases c' <;> first | contradiction | skip
        · exact .mk (.choice same) (.slot i)
        · exact .mk (.choice (congrArg (fun v => some (i, v)) (Option.some.inj given))) .idle

theorem Resembles.finished (h : f.Resembles f') :
    Agrees (fun v v' => v.plain = v'.plain) (f.finished m) (f'.finished m') := by
  cases h with
  | mk contents phases =>
    cases contents with
    | entries same => exact .ok (by rw [Value.plain_map, Value.plain_map, same])
    | @fields fields repr repr' slots slots' same =>
      simp only [MapFrame.finished, missing?_eq_of_plain same, twins.resembles.nameOf_eq]
      cases missing? fields slots' with
      | some f => exact .error rfl
      | none => exact .ok (by rw [Value.plain_struct, Value.plain_struct, same])
    | @choice members repr repr' present present' same =>
      simp only [MapFrame.finished, twins.resembles.nameOf_eq]
      rcases present with _ | ⟨i, v⟩ <;> rcases present' with _ | ⟨i', v'⟩ <;>
        first | contradiction | skip
      · exact .error rfl
      · obtain ⟨rfl, value⟩ : i = i' ∧ v.plain = v'.plain := Prod.mk.inj (Option.some.inj same)
        exact .ok (by rw [Value.plain_union, Value.plain_union, value])

/-- **What is finished is the same.** -/
theorem Resembles.close (h : f.Resembles f') :
    Agrees Piece.Resembles (f.close m) (f'.close m') := by
  have finished := h.finished twins
  rw [MapFrame.close, MapFrame.close]
  refine Agrees.bind_eq (h.settled_eq twins) fun _ _ _ => ?_
  refine finished.bind fun v v' _ _ same => ?_
  cases h with
  | mk contents phases => exact .ok (.content (congrArg some same))

/-- **A map stays in the typed view.** -/
theorem Resembles.inView (h : f.Resembles f') :
    Agrees Resembles (f.inView m .typed) (f'.inView m' .typed) := by
  cases h with
  | @mk type content content' phase phase' contents phases =>
    simp only [MapFrame.inView, twins.resembles.nameOf_eq,
      (twins.resembles.body type).assembledKind?_eq]
    split
    · exact .ok (.mk contents phases)
    · exact .error rfl

end MapFrame

/-! ## Lists -/

namespace ListFrame

variable {f f' : ListFrame}

theorem Resembles.settled_eq (h : f.Resembles f') : f.settled m = f'.settled m' := by
  cases h with
  | mk same => simp only [settled, incomplete, twins.resembles.nameOf_eq]

/-- **The next item opens alike.** -/
theorem Resembles.item (h : f.Resembles f') :
    Agrees (SameStep Resembles) (f.item m) (f'.item m') := by
  have settled := h.settled_eq twins
  cases h with
  | mk same =>
    refine Agrees.bind_eq settled fun _ _ _ => ?_
    exact .ok ⟨.mk same, .value ..⟩

omit twins in
/-- **What fills the opening at hand leaves the same.** -/
theorem Resembles.place (h : f.Resembles f') {piece piece' : Piece}
    (pieces : piece.Resembles piece') : (f.place piece).Resembles (f'.place piece') := by
  obtain ⟨given⟩ := pieces
  cases h with
  | @mk _ _ _ layout layout' slots slots' busy same =>
    refine .mk ?_
    rw [List.map_append, List.map_append, same, List.map_singleton, List.map_singleton,
      Slot.plain_given_eq given layout layout']

/-- **What is finished is the same.** -/
theorem Resembles.close (h : f.Resembles f') :
    Agrees Piece.Resembles (f.close m) (f'.close m') := by
  have settled := h.settled_eq twins
  cases h with
  | mk same =>
    refine Agrees.bind_eq settled fun _ _ _ => ?_
    exact .ok (.content (congrArg some (by rw [Value.wrap, Value.wrap, Value.plain_list, same,
      Value.plain_list])))

/-- **A list stays in the typed view.** -/
theorem Resembles.inView (h : f.Resembles f') :
    Agrees Resembles (f.inView m .typed) (f'.inView m' .typed) := by
  cases h with
  | @mk type _ _ _ _ _ _ _ same =>
    simp only [ListFrame.inView, twins.resembles.nameOf_eq,
      (twins.resembles.body type).assembledKind?_eq]
    split
    · exact .ok (.mk same)
    · exact .error rfl

end ListFrame

/-! ## Whole trees -/

namespace Opening

mutual

/-- **A tree is copied alike in the typed view.** -/
theorem Typed.copy {o : Opening} (typed : o.Typed) :
    (t : Tree) → Agrees Piece.Resembles (o.copy m t) (o.copy m' t)
  | .null => null_agrees twins
  | .scalar a => typed.scalar_agrees twins a
  | .list items =>
    (typed.openList twins).bind fun _ _ _ _ begun =>
      (copyItems_agrees begun items).bind fun _ _ _ _ same => same.close twins
  | .map entries =>
    (typed.openMap twins).bind fun _ _ hf hf' begun =>
      (copyEntries_agrees begun (openMap_sound hf).1 (openMap_sound hf').1 entries).bind
        fun _ _ _ _ same => same.close twins

theorem copyItems_agrees {f f' : ListFrame} (h : f.Resembles f') :
    (items : List Tree) → Agrees ListFrame.Resembles (copyItems m f items) (copyItems m' f' items)
  | [] => .ok h
  | t :: rest => by
    refine (h.item twins).bind fun p p' _ _ step => ?_
    obtain ⟨same, typed⟩ := step
    exact (Typed.copy typed t).bind fun _ _ _ _ pieces =>
      copyItems_agrees (same.place pieces) rest

theorem copyEntries_agrees {f f' : MapFrame} (h : f.Resembles f') (sound : f.Sound m.schema)
    (sound' : f'.Sound m'.schema) :
    (entries : List (Tree × Tree)) →
      Agrees MapFrame.Resembles (copyEntries m f entries) (copyEntries m' f' entries)
  | [] => .ok h
  | (k, t) :: rest => by
    refine (h.key twins).bind fun p p' hp hp' step => ?_
    obtain ⟨same, typed⟩ := step
    have opens := MapFrame.key_opens sound hp
    have opens' := MapFrame.key_opens sound' hp'
    refine (Typed.copy typed k).bind fun key key' hk hk' keys => ?_
    have sound₁ := opens.awaits key (copy_takes twins.valid k hk)
    have sound₁' := opens'.awaits key' (copy_takes twins.valid' k hk')
    have same₁ := same.place opens.sound opens'.sound keys
    refine (same₁.value twins sound₁ sound₁').bind fun q q' hq hq' step => ?_
    obtain ⟨same₂, typed₂⟩ := step
    have opens₂ := MapFrame.value_opens sound₁ hq
    have opens₂' := MapFrame.value_opens sound₁' hq'
    refine (Typed.copy typed₂ t).bind fun piece piece' hp hp' pieces => ?_
    exact copyEntries_agrees (same₂.place opens₂.sound opens₂'.sound pieces)
      (opens₂.awaits piece (copy_takes twins.valid t hp))
      (opens₂'.awaits piece' (copy_takes twins.valid' t hp')) rest

end

mutual

/-- **A tree is filled in alike in the typed view.** -/
theorem Typed.fill {o : Opening} (typed : o.Typed) :
    (d : Datum) → Agrees Piece.Resembles (o.fill m d) (o.fill m' d)
  | .null => null_agrees twins
  | .scalar a => typed.scalar_agrees twins a
  | .list items =>
    (typed.openList twins).bind fun _ _ _ _ begun =>
      (fillItems_agrees begun items).bind fun _ _ _ _ same => same.close twins
  | .map entries =>
    (typed.openMap twins).bind fun _ _ hf hf' begun =>
      (fillEntries_agrees begun (openMap_sound hf).1 (openMap_sound hf').1 entries).bind
        fun _ _ _ _ same => same.close twins

theorem fillItems_agrees {f f' : ListFrame} (h : f.Resembles f') :
    (items : List Datum) → Agrees ListFrame.Resembles (fillItems m f items) (fillItems m' f' items)
  | [] => .ok h
  | d :: rest => by
    refine (h.item twins).bind fun p p' _ _ step => ?_
    obtain ⟨same, typed⟩ := step
    exact (Typed.fill typed d).bind fun _ _ _ _ pieces =>
      fillItems_agrees (same.place pieces) rest

theorem fillEntries_agrees {f f' : MapFrame} (h : f.Resembles f') (sound : f.Sound m.schema)
    (sound' : f'.Sound m'.schema) :
    (entries : List (String × Datum)) →
      Agrees MapFrame.Resembles (fillEntries m f entries) (fillEntries m' f' entries)
  | [] => .ok h
  | (key, d) :: rest => by
    refine (h.entry twins sound sound' key).bind fun p p' hp hp' step => ?_
    obtain ⟨same, typed⟩ := step
    have opens := MapFrame.entry_opens twins.valid sound hp
    have opens' := MapFrame.entry_opens twins.valid' sound' hp'
    refine (Typed.fill typed d).bind fun piece piece' hd hd' pieces => ?_
    exact fillEntries_agrees (same.place opens.sound opens'.sound pieces)
      (opens.awaits piece (fill_takes twins.valid d hd))
      (opens'.awaits piece' (fill_takes twins.valid' d hd')) rest

end

end Opening

end Twins

end DualView
