import DualView.Proofs.Assembly.Discipline
import DualView.Proofs.Assembly.Scalars
import DualView.Proofs.Assembly.Steps

/-!
# What is assembled fits

A frame is *sound* if what it holds so far fits its type.  `Opening.Takes` says which pieces suit an
opening and `Frame`-wise `Yields` which pieces a frame can close with; every step of a frame keeps
it sound and opens only for pieces after which it is sound again (`MapFrame.Opens`,
`ListFrame.Opens`).

* `MapFrame.key_opens`, `MapFrame.value_opens`, `MapFrame.entry_opens`, `ListFrame.item_opens`: one
  step of a frame.
* `Opening.openMap_sound`, `Opening.openList_sound`: a frame begins sound, and whatever it yields
  suits the opening that it was begun in.
* `MapFrame.close_yields`, `ListFrame.close_yields`: a sound frame closes with what it yields.
* `Schema.Valid.fitting_observed`: so fitting is a discipline that every step observes.
* `Opening.copy_takes`, `Opening.fill_takes`: a tree that is copied or filled in suits the opening.
-/

namespace DualView

/-! ## Openings -/

/-- A piece suits an opening.  Pieces of another form than the opening waits for are ignored. -/
def Opening.Takes (s : Schema) (o : Opening) (piece : Piece) : Prop :=
  match o.demand, piece with
  | .value type, .content given => s.Admits type false o.nullable (.given given)
  | .pair _ _ fields _, .field i given =>
    ∃ f, fields[i]? = some f ∧ s.Admits f.type false f.nullable (.given given)
  | _, _ => True

namespace Schema

variable {s : Schema}

theorem fits_wrap {view : View} {type target : TypeId} {kind : Kind} {member : Option Nat}
    (h : s.target? view type kind = some (member, target)) {v : Value} (hv : s.Fits target v) :
    s.Fits type (v.wrap member) := by
  rw [target?.eq_def] at h
  split at h
  · rename_i members body
    obtain ⟨⟨i, m⟩, hk, he⟩ := Option.map_eq_some_iff.mp h
    cases he
    exact .union body (kindedMember?_spec hk).1 hv
  · cases h
    exact hv

end Schema

namespace Opening

variable {m : Model} {o : Opening}

theorem null_takes {piece : Piece} (h : o.null m.schema = .ok piece) : o.Takes m.schema piece := by
  rw [Opening.null] at h
  split at h
  · rename_i hn
    cases h
    obtain ⟨demand, view, nullable⟩ := o
    cases demand with
    | value type => exact hn
    | name owner => trivial
    | pair owner keys fields slots => trivial
  · contradiction

theorem assign_fits (valid : m.schema.Valid) {view : View} {type : TypeId} {a : Scalar} {v : Value}
    (h : m.assign view type a = .ok v) : m.schema.Fits type v := by
  rw [Model.assign] at h
  split at h
  · rename_i ht
    obtain ⟨w, hw, rfl⟩ := map_eq_ok_iff.mp h
    exact Schema.fits_wrap ht ((Model.ofScalar_eq_ok_iff.mp hw).fits valid)
  · contradiction

theorem scalar_takes (valid : m.schema.Valid) {a : Scalar} {piece : Piece}
    (h : o.scalar m a = .ok piece) : o.Takes m.schema piece := by
  rw [Opening.scalar.eq_def] at h
  split at h
  · rename_i type _ hd
    obtain ⟨v, hv, rfl⟩ := map_eq_ok_iff.mp h
    simpa [Takes, hd, Schema.Admits, Maybe.given] using assign_fits valid hv
  · rename_i hd
    cases h
    simp [Takes, hd]
  · contradiction

end Opening

/-! ## Structs part way through -/

namespace Schema

variable {s : Schema} {fields : List (Field TypeId)} {slots : List (Slot Value)}

/-- The slots of a struct of which some fields may not be filled yet. -/
def Partial (s : Schema) (fields : List (Field TypeId)) (slots : List (Slot Value)) : Prop :=
  slots.length = fields.length ∧
    ∀ p ∈ fields.zip slots, s.Admits p.1.type true p.1.nullable p.2.content

theorem partial_absentSlots (m : Model) (type : TypeId) (fields : List (Field TypeId)) :
    m.schema.Partial fields (m.absentSlots type fields) := by
  refine ⟨by simp [Model.absentSlots], ?_⟩
  rintro ⟨f, slot⟩ hp
  obtain ⟨i, hi, rfl⟩ := List.mem_mapIdx.mp (List.of_mem_zip hp).2
  rfl

theorem Partial.fillSlot (h : s.Partial fields slots) {i : Nat} {f : Field TypeId}
    {given : Option Value} (hf : fields[i]? = some f)
    (hg : s.Admits f.type false f.nullable (.given given)) :
    s.Partial fields (DualView.fillSlot slots i given) := by
  refine ⟨by simp [DualView.fillSlot, h.1], ?_⟩
  rw [forall_mem_zip_iff]
  intro j f' slot' hf' hs'
  rw [DualView.fillSlot, List.getElem?_modify] at hs'
  by_cases hij : i = j
  · -- the slot that is filled holds what is given
    subst hij
    obtain ⟨slot, -, rfl⟩ := Option.map_eq_some_iff.mp hs'
    obtain rfl := Option.some.inj (hf.symm.trans hf')
    rw [if_pos rfl]
    cases given with
    | none => exact hg
    | some v => exact hg
  · obtain ⟨slot, hs, rfl⟩ := Option.map_eq_some_iff.mp hs'
    rw [if_neg hij]
    exact forall_mem_zip_iff.mp h.2 j f' slot hf' hs

/-- With no field missing that must be present, the slots are those of a value. -/
theorem Partial.fits (h : s.Partial fields slots) {type : TypeId} {repr : StructRepr}
    (body : s.body type = .struct fields repr) (full : missing? fields slots = none) :
    s.Fits type (.struct slots) := by
  refine (fits_struct_iff body).mpr ⟨h.1, fun p hp => ?_⟩
  have ha := h.2 p hp
  have hm := missing?_eq_none_iff.mp full p hp
  obtain ⟨f, layout, content⟩ := p
  cases content with
  | absent => exact hm rfl
  | null => exact ha
  | value v => exact ha

end Schema

/-! ## Maps -/

def MapContent.Sound (s : Schema) (type : TypeId) : MapContent → Prop
  | .entries key value nullable _ dict =>
    (∃ nulls, s.body type = .map key value nullable nulls) ∧ s.Fits type (.map dict)
  | .fields fs repr slots => s.body type = .struct fs repr ∧ s.Partial fs slots
  | .choice members repr present =>
    s.body type = .union members repr ∧ ∀ i v, present = some (i, v) → s.Fits type (.union i v)

/-- The key of the entry at hand fits, and is new once its text is known. -/
def MapPhase.Sound (s : Schema) : MapContent → MapPhase → Prop
  | .entries keyType _ _ _ _, .keyed k => s.Fits keyType k
  | .entries keyType _ _ _ dict, .entry k text =>
    s.Fits keyType k ∧ s.Text keyType k text ∧ dict.contains text = false
  | _, _ => True

namespace MapFrame

/-- What the frame holds so far fits. -/
def Sound (s : Schema) (f : MapFrame) : Prop :=
  f.content.Sound s f.type ∧ f.phase.Sound s f.content

/-- What the frame can close with: a value of its type. -/
def Yields (s : Schema) (f : MapFrame) (piece : Piece) : Prop :=
  ∃ v, s.Fits f.type v ∧ piece = .content (some (v.wrap f.member))

/-- A step of a frame that opens for a value. -/
structure Opens (s : Schema) (f f' : MapFrame) (o : Opening) : Prop where
  sound : f'.Sound s
  awaits : ∀ piece, o.Takes s piece → (f'.place piece).Sound s
  yields : ∀ piece, f'.Yields s piece → f.Yields s piece

variable {m : Model} {f f' : MapFrame} {o : Opening}

theorem place_yields {s : Schema} {piece p : Piece} (h : (f.place p).Yields s piece) :
    f.Yields s piece := by
  rw [place.eq_def] at h
  split at h <;> exact h

theorem contains_eq_false_iff {d : Dict Value} {text : String} :
    d.contains text = false ↔ text ∉ d.entries.map (·.text) := by
  simp [Dict.contains]

theorem dict_insert {d : Dict Value} {e : Entry Value} (h : d.contains e.text = false) :
    (d.insert e).entries = d.entries ++ [e] := by
  simp [Dict.insert, Dict.insert?, h]

theorem fits_insert {s : Schema} {type key value : TypeId} {nullable : Bool} {nulls : NullPolicy}
    (body : s.body type = .map key value nullable nulls) {dict : Dict Value} {e : Entry Value}
    (h : s.Fits type (.map dict)) (he : s.FitsEntry key value nullable e)
    (new : dict.contains e.text = false) : s.Fits type (.map (dict.insert e)) := by
  rw [Schema.fits_map_iff body] at h ⊢
  rw [dict_insert new]
  refine ⟨fun e' he' => ?_, ?_⟩
  · rcases List.mem_append.mp he' with hm | hm
    · exact h.1 e' hm
    · rw [List.mem_singleton.mp hm]
      exact he
  · rw [List.map_append, List.map_singleton, List.nodup_append]
    refine ⟨h.2, List.nodup_singleton _, fun a ha b hb => ?_⟩
    rw [List.mem_singleton.mp hb]
    intro e
    exact contains_eq_false_iff.mp new (e ▸ ha)

theorem openEntry_opens (h : f.Sound m.schema) {keyType valueType : TypeId} {nullable : Bool}
    {layout : Layout} {dict : Dict Value} {k : Value}
    (hc : f.content = .entries keyType valueType nullable layout dict)
    (hk : m.schema.Fits keyType k)
    (hs : f.openEntry m keyType valueType nullable dict k = .ok (f', o)) :
    f.Opens m.schema f' o := by
  obtain ⟨type, view, member, content, phase⟩ := f
  subst hc
  rw [openEntry, bind_eq_ok_iff] at hs
  obtain ⟨text, ht, hs⟩ := hs
  rw [Model.keyText_eq_ok_iff] at ht
  split at hs
  · contradiction
  · rename_i hn
    cases hs
    have hnew : dict.contains text = false := by simpa using hn
    refine ⟨⟨h.1, hk, ht, hnew⟩, fun piece hp => ?_, fun piece hy => hy⟩
    obtain ⟨⟨⟨nulls, body⟩, hd⟩, -⟩ := h
    cases piece with
    | field i given => exact ⟨⟨⟨nulls, body⟩, hd⟩, hk, ht, hnew⟩
    | content given => exact ⟨⟨⟨nulls, body⟩, fits_insert body hd ⟨hk, ht, hp⟩ hnew⟩, trivial⟩

theorem openNamed_opens {k : String} (h : f.Sound m.schema)
    (hs : f.openNamed m k = .ok (f', o)) : f.Opens m.schema f' o := by
  obtain ⟨type, view, member, content, phase⟩ := f
  cases content with
  | entries kt vt nullable layout dict => contradiction
  | fields fs repr slots =>
    obtain ⟨⟨i, o'⟩, ho, hs⟩ := bind_eq_ok_iff.mp hs
    cases hs
    obtain ⟨-, fld, slot, hf, -, -, rfl⟩ := Schema.openField_eq_ok_iff.mp ho
    refine ⟨⟨h.1, trivial⟩, fun piece hp => ?_, fun piece hy => hy⟩
    cases piece with
    | field j given => exact ⟨h.1, trivial⟩
    | content given => exact ⟨⟨h.1.1, h.1.2.fillSlot hf hp⟩, trivial⟩
  | choice members repr present =>
    obtain ⟨⟨i, o'⟩, ho, hs⟩ := bind_eq_ok_iff.mp hs
    cases hs
    obtain ⟨-, rfl, target, hm, rfl⟩ := Schema.openMember_eq_ok_iff.mp ho
    refine ⟨⟨h.1, trivial⟩, fun piece hp => ?_, fun piece hy => hy⟩
    cases piece with
    | field j given => exact ⟨h.1, trivial⟩
    | content given =>
      cases given with
      | none => exact absurd hp Bool.false_ne_true
      | some v =>
        refine ⟨⟨h.1.1, fun j w e => ?_⟩, trivial⟩
        cases e
        exact .union h.1.1 hm hp

/-- **The key of an entry opens for keys of the map.** -/
theorem key_opens (h : f.Sound m.schema) (hs : f.key m = .ok (f', o)) :
    f.Opens m.schema f' o := by
  obtain ⟨type, view, member, content, phase⟩ := f
  rw [MapFrame.key, bind_eq_ok_iff] at hs
  obtain ⟨-, -, hs⟩ := hs
  cases hs
  cases content with
  | entries kt vt nullable layout dict =>
    refine ⟨⟨h.1, trivial⟩, fun piece hp => ?_, fun piece hy => hy⟩
    rcases piece with ⟨_ | k⟩ | ⟨i, given⟩
    · exact ⟨h.1, trivial⟩
    · exact ⟨h.1, hp⟩
    · exact ⟨h.1, trivial⟩
  | fields fs repr slots =>
    refine ⟨⟨h.1, trivial⟩, fun piece _ => ?_, fun piece hy => hy⟩
    rcases piece with ⟨_ | k⟩ | ⟨i, given⟩ <;> exact ⟨h.1, trivial⟩
  | choice members repr present =>
    refine ⟨⟨h.1, trivial⟩, fun piece _ => ?_, fun piece hy => hy⟩
    rcases piece with ⟨_ | k⟩ | ⟨i, given⟩ <;> exact ⟨h.1, trivial⟩

/-- **The value of the entry whose key is known opens for values of the entry.** -/
theorem value_opens (h : f.Sound m.schema) (hs : f.value m = .ok (f', o)) :
    f.Opens m.schema f' o := by
  rw [MapFrame.value.eq_def] at hs
  split at hs
  · rename_i k hphase
    split at hs
    · rename_i kt vt nullable layout dict hc
      have hk := h.2
      rw [hphase, hc] at hk
      exact openEntry_opens h hc hk hs
    · exact openNamed_opens h hs
    · contradiction
  · contradiction

/-- **The value of an entry opens under the text of its key for values of the entry.** -/
theorem entry_opens {text : String} (valid : m.schema.Valid) (h : f.Sound m.schema)
    (hs : f.entry m text = .ok (f', o)) : f.Opens m.schema f' o := by
  rw [MapFrame.entry, bind_eq_ok_iff] at hs
  obtain ⟨-, -, hs⟩ := hs
  split at hs
  · rename_i kt vt nullable layout dict hc
    obtain ⟨k, hk, hs⟩ := bind_eq_ok_iff.mp hs
    exact openEntry_opens h hc (Opening.assign_fits valid hk) hs
  · exact openNamed_opens h hs

/-- **A sound map closes with a value of its type.** -/
theorem close_yields {piece : Piece} (h : f.Sound m.schema) (hs : f.close m = .ok piece) :
    f.Yields m.schema piece := by
  obtain ⟨type, view, member, content, phase⟩ := f
  rw [MapFrame.close, bind_eq_ok_iff] at hs
  obtain ⟨-, -, hs⟩ := hs
  obtain ⟨v, hv, hs⟩ := bind_eq_ok_iff.mp hs
  cases hs
  refine ⟨v, ?_, rfl⟩
  cases content with
  | entries kt vt nullable layout dict =>
    cases hv
    exact h.1.2
  | fields fs repr slots =>
    dsimp only [finished] at hv
    split at hv
    · contradiction
    · rename_i full
      cases hv
      exact h.1.2.fits h.1.1 full
  | choice members repr present =>
    cases present with
    | none => contradiction
    | some p =>
      cases hv
      exact h.1.2 p.1 p.2 rfl

theorem inView_eq_ok {view : View} (hs : f.inView m view = .ok f') :
    f' = { f with view := view } := by
  rw [MapFrame.inView] at hs
  split at hs
  · cases hs
    rfl
  · contradiction

end MapFrame

/-! ## Lists -/

def ListContent.Sound (s : Schema) (type : TypeId) : ListContent → Prop
  | .items elem nullable _ slots =>
    s.body type = .list elem nullable ∧ s.Fits type (.list slots)
  | .tuple fs slots _ | .pairs _ fs slots =>
    (∃ repr, s.body type = .struct fs repr) ∧ s.Partial fs slots
  | .pair _ fs _ stage =>
    ∀ i given, stage = .full i given →
      ∃ f, fs[i]? = some f ∧ s.Admits f.type false f.nullable (.given given)

namespace ListFrame

/-- What the frame holds so far fits. -/
def Sound (s : Schema) (f : ListFrame) : Prop := f.content.Sound s f.type

/-- What the frame can close with: one field, if it is a pair, and else a value of its type. -/
def Yields (s : Schema) (f : ListFrame) (piece : Piece) : Prop :=
  match f.content with
  | .pair _ fs _ _ =>
    ∃ i given fld, fs[i]? = some fld ∧ s.Admits fld.type false fld.nullable (.given given) ∧
      piece = .field i given
  | _ => ∃ v, s.Fits f.type v ∧ piece = .content (some (v.wrap f.member))

/-- A step of a frame that opens for a value. -/
structure Opens (s : Schema) (f f' : ListFrame) (o : Opening) : Prop where
  sound : f'.Sound s
  awaits : ∀ piece, o.Takes s piece → (f'.place piece).Sound s
  yields : ∀ piece, f'.Yields s piece → f.Yields s piece

variable {m : Model} {f f' : ListFrame} {o : Opening}

theorem place_yields {s : Schema} {piece p : Piece} (h : (f.place p).Yields s piece) :
    f.Yields s piece := by
  obtain ⟨type, view, member, content, busy⟩ := f
  rw [place.eq_def] at h
  dsimp only at h
  split at h <;> exact h

theorem fits_append {s : Schema} {type elem : TypeId} {nullable : Bool}
    (body : s.body type = .list elem nullable) {slots : List (Slot Value)} {slot : Slot Value}
    (h : s.Fits type (.list slots)) (hs : s.Admits elem false nullable slot.content) :
    s.Fits type (.list (slots ++ [slot])) := by
  rw [Schema.fits_list_iff body] at h ⊢
  intro slot' hm
  rcases List.mem_append.mp hm with hm | hm
  · exact h slot' hm
  · rw [List.mem_singleton.mp hm]
    exact hs

/-- **The next item opens for items of the list.** -/
theorem item_opens (h : f.Sound m.schema) (hs : f.item m = .ok (f', o)) :
    f.Opens m.schema f' o := by
  obtain ⟨type, view, member, content, busy⟩ := f
  cases content with
  | items elem nullable layout slots =>
    obtain ⟨-, -, hs⟩ := bind_eq_ok_iff.mp hs
    cases hs
    refine ⟨h, fun piece hp => ?_, fun piece hy => hy⟩
    cases piece with
    | field i given => exact h
    | content given => exact ⟨h.1, fits_append h.1 h.2 hp⟩
  | tuple fs slots next =>
    obtain ⟨-, -, hs⟩ := bind_eq_ok_iff.mp hs
    dsimp only at hs
    split at hs
    · rename_i fld hf
      cases hs
      refine ⟨h, fun piece hp => ?_, fun piece hy => hy⟩
      cases piece with
      | field i given => exact h
      | content given => exact ⟨h.1, h.2.fillSlot hf hp⟩
    · contradiction
  | pairs keys fs slots =>
    obtain ⟨-, -, hs⟩ := bind_eq_ok_iff.mp hs
    cases hs
    refine ⟨h, fun piece hp => ?_, fun piece hy => hy⟩
    cases piece with
    | content given => exact h
    | field i given =>
      obtain ⟨fld, hf, hg⟩ := hp
      exact ⟨h.1, h.2.fillSlot hf hg⟩
  | pair keys fs slots stage =>
    cases stage with
    | empty =>
      cases hs
      refine ⟨fun i given e => (nomatch e), fun piece _ => ?_, fun piece hy => hy⟩
      rcases piece with ⟨_ | v⟩ | ⟨i, given⟩
      · intro i given e
        exact (nomatch e)
      · rcases v with a | _ | _ | _ | _ | _
        · cases a <;> exact fun i given e => (nomatch e)
        all_goals exact fun i given e => (nomatch e)
      · intro i given e
        exact (nomatch e)
    | key => contradiction
    | keyed k =>
      obtain ⟨⟨i, o'⟩, ho, hs⟩ := bind_eq_ok_iff.mp hs
      cases hs
      obtain ⟨-, fld, slot, hf, -, -, rfl⟩ := Schema.openField_eq_ok_iff.mp ho
      refine ⟨fun i given e => (nomatch e), fun piece hp => ?_, fun piece hy => hy⟩
      cases piece with
      | field j given => exact fun i given e => nomatch e
      | content given =>
        intro j given' e
        cases e
        exact ⟨fld, hf, hp⟩
    | value i => contradiction
    | full i given => contradiction

theorem struct_yields {type : TypeId} {fs : List (Field TypeId)} {slots : List (Slot Value)}
    {piece : Piece} (h : (∃ repr, m.schema.body type = .struct fs repr) ∧
      m.schema.Partial fs slots) (hs : f.struct m fs slots = .ok piece) :
    ∃ v, m.schema.Fits type v ∧ piece = .content (some (v.wrap f.member)) := by
  obtain ⟨full, rfl⟩ := struct_eq_ok_iff.mp hs
  obtain ⟨⟨repr, body⟩, hp⟩ := h
  exact ⟨.struct slots, hp.fits body full, rfl⟩

/-- **A sound list closes with a value of its type, a pair with a field of its struct.** -/
theorem close_yields {piece : Piece} (h : f.Sound m.schema) (hs : f.close m = .ok piece) :
    f.Yields m.schema piece := by
  obtain ⟨type, view, member, content, busy⟩ := f
  cases content with
  | items elem nullable layout slots =>
    obtain ⟨-, -, hs⟩ := bind_eq_ok_iff.mp hs
    cases hs
    exact ⟨.list slots, h.2, rfl⟩
  | tuple fs slots next =>
    obtain ⟨-, -, hs⟩ := bind_eq_ok_iff.mp hs
    exact struct_yields h hs
  | pairs keys fs slots =>
    obtain ⟨-, -, hs⟩ := bind_eq_ok_iff.mp hs
    exact struct_yields h hs
  | pair keys fs slots stage =>
    cases stage with
    | full i given =>
      cases hs
      obtain ⟨fld, hf, hg⟩ := h i given rfl
      exact ⟨i, given, fld, hf, hg, rfl⟩
    | _ => contradiction

theorem inView_eq_ok {view : View} (hs : f.inView m view = .ok f') :
    f' = { f with view := view } := by
  rw [ListFrame.inView.eq_def] at hs
  dsimp only at hs
  split_ifs at hs
  cases hs
  rfl

end ListFrame

/-! ## Beginning a compound -/

namespace Opening

variable {m : Model} {o : Opening}

theorem mapContent?_sound {view : View} {type : TypeId} {content : MapContent}
    (h : m.mapContent? view type = some content) : content.Sound m.schema type := by
  cases Model.mapContent?_eq_some_iff.mp h with
  | @entries key value nullable nulls body =>
    refine ⟨⟨nulls, body⟩, (Schema.fits_map_iff body).mpr ⟨?_, List.nodup_nil⟩⟩
    intro e he
    exact absurd he List.not_mem_nil
  | @fields fs repr keys body keyed => exact ⟨body, Schema.partial_absentSlots m type fs⟩
  | choice body keyed => exact ⟨body, fun i v e => nomatch e⟩

theorem listContent?_sound {view : View} {type : TypeId} {content : ListContent}
    (h : m.listContent? view type = some content) :
    content.Sound m.schema type ∧ ∀ keys fs slots stage, content ≠ .pair keys fs slots stage := by
  cases Model.listContent?_eq_some_iff.mp h with
  | items body =>
    refine ⟨⟨body, (Schema.fits_list_iff body).mpr ?_⟩, nofun⟩
    intro slot hs
    exact absurd hs List.not_mem_nil
  | @tuple fs body seen => exact ⟨⟨⟨_, body⟩, Schema.partial_absentSlots m type fs⟩, nofun⟩
  | @pairs fs keys body seen => exact ⟨⟨⟨_, body⟩, Schema.partial_absentSlots m type fs⟩, nofun⟩

/-- **A map begins sound, and what it yields suits the opening.** -/
theorem openMap_sound {f : MapFrame} (h : o.openMap m = .ok f) :
    f.Sound m.schema ∧ ∀ piece, f.Yields m.schema piece → o.Takes m.schema piece := by
  obtain ⟨demand, view, nullable⟩ := o
  cases demand with
  | value type =>
    obtain ⟨member, target, content, ht, hc, rfl⟩ := openMap_eq_ok_iff.mp h
    refine ⟨⟨mapContent?_sound hc, ?_⟩, ?_⟩
    · cases content <;> trivial
    · rintro piece ⟨v, hv, rfl⟩
      exact Schema.fits_wrap ht hv
  | name owner => contradiction
  | pair owner keys fs slots => contradiction

/-- **A list begins sound, and what it yields suits the opening.** -/
theorem openList_sound {f : ListFrame} (h : o.openList m = .ok f) :
    f.Sound m.schema ∧ ∀ piece, f.Yields m.schema piece → o.Takes m.schema piece := by
  obtain ⟨demand, view, nullable⟩ := o
  cases demand with
  | value type =>
    obtain ⟨member, target, content, ht, hc, rfl⟩ := openList_eq_ok_iff.mp h
    obtain ⟨hsound, hpair⟩ := listContent?_sound hc
    refine ⟨hsound, fun piece hy => ?_⟩
    cases content with
    | pair keys fs slots stage => exact absurd rfl (hpair keys fs slots stage)
    | _ =>
      obtain ⟨v, hv, rfl⟩ := hy
      exact Schema.fits_wrap ht hv
  | name owner => contradiction
  | pair owner keys fs slots =>
    cases h
    refine ⟨nofun, ?_⟩
    rintro piece ⟨i, given, fld, hf, hg, rfl⟩
    exact ⟨fld, hf, hg⟩

end Opening

/-! ## Frames -/

namespace Frame

/-- What the frame holds so far fits. -/
def Sound (s : Schema) : Frame → Prop
  | map f => f.Sound s
  | list f => f.Sound s

/-- What the frame can close with. -/
def Yields (s : Schema) : Frame → Piece → Prop
  | map f => f.Yields s
  | list f => f.Yields s

end Frame

def Schema.fitting (s : Schema) : Discipline where
  Takes := Opening.Takes s
  Sound := Frame.Sound s
  Yields := Frame.Yields s

/-- **Every step keeps what is assembled fitting.** -/
theorem Schema.Valid.fitting_observed {m : Model} (valid : m.schema.Valid) :
    m.schema.fitting.Observed m where
  null _ _ h := Opening.null_takes h
  scalar _ _ _ h := Opening.scalar_takes valid h
  openMap _ _ h :=
    have ⟨sound, yields⟩ := Opening.openMap_sound h
    ⟨sound, yields⟩
  openList _ _ h :=
    have ⟨sound, yields⟩ := Opening.openList_sound h
    ⟨sound, yields⟩
  key _ _ _ sound h :=
    have opens := MapFrame.key_opens sound h
    ⟨⟨opens.sound, opens.yields⟩, opens.awaits⟩
  value _ _ _ sound h :=
    have opens := MapFrame.value_opens sound h
    ⟨⟨opens.sound, opens.yields⟩, opens.awaits⟩
  entry _ _ _ _ sound h :=
    have opens := MapFrame.entry_opens valid sound h
    ⟨⟨opens.sound, opens.yields⟩, opens.awaits⟩
  item _ _ _ sound h :=
    have opens := ListFrame.item_opens sound h
    ⟨⟨opens.sound, opens.yields⟩, opens.awaits⟩
  place f _ _ h := by
    cases f with
    | map f => exact MapFrame.place_yields h
    | list f => exact ListFrame.place_yields h
  close f _ sound h := by
    cases f with
    | map f => exact MapFrame.close_yields sound h
    | list f => exact ListFrame.close_yields sound h
  inView f _ _ sound h := by
    -- another view changes nothing of what the frame holds
    cases f with
    | map f =>
      obtain ⟨g, hg, rfl⟩ := map_eq_ok_iff.mp h
      rw [MapFrame.inView_eq_ok hg]
      exact ⟨sound, fun _ hy => hy⟩
    | list f =>
      obtain ⟨g, hg, rfl⟩ := map_eq_ok_iff.mp h
      rw [ListFrame.inView_eq_ok hg]
      exact ⟨sound, fun _ hy => hy⟩

/-! ## Whole trees -/

namespace Opening

variable {m : Model} {o : Opening} {piece : Piece}

/-- **What is copied into an opening suits it.** -/
theorem copy_takes (valid : m.schema.Valid) (t : Tree) (h : o.copy m t = .ok piece) :
    o.Takes m.schema piece :=
  valid.fitting_observed.copy_takes t h

theorem copyItems_sound (valid : m.schema.Valid) {f f' : ListFrame} (items : List Tree)
    (sound : f.Sound m.schema) (h : copyItems m f items = .ok f') :
    f'.Sound m.schema ∧ ∀ piece, f'.Yields m.schema piece → f.Yields m.schema piece :=
  have next := valid.fitting_observed.copyItems_succeeds items sound h
  ⟨next.sound, next.yields⟩

/-- **What is filled into an opening suits it.** -/
theorem fill_takes (valid : m.schema.Valid) (d : Datum) (h : o.fill m d = .ok piece) :
    o.Takes m.schema piece :=
  valid.fitting_observed.fill_takes d h

end Opening

end DualView
